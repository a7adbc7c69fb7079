import ObjectLang.Proofs.Grammar.File
set_option autoImplicit false

/-!
# Earlier files stay as they are

A step of reading leaves every function that was there as it was, except that it may store the body
of the file. It leaves every type as it was, too, except that a type declared by the file may get a
field, and that a method may join the table of its owner. The owner of a method is found by its name,
among the imported types first, so it can be a type of an earlier file; all other entries that were
there before a file was read are the same behind it.
-/

namespace ObjectLang

namespace Draft

variable {earlier : List Module} {d e : Draft} {p : Program} {t : TypeId}

/-- The file has declared a method for the type, which it sees and knows by name. -/
structure Reopens (d : Draft) (t : TypeId) : Prop where
  admitted : d.Admits t
  method : ∃ id ∈ d.module.ownFunctions, (d.program.function id).parent = some t

theorem exists_methods (t : Ty) (change : NameMap FunctionId → NameMap FunctionId) :
    ∃ methods, (t.mapMembers fun m => { m with methods := change m.methods }) =
      t.mapMembers fun m => { m with methods } := by
  cases t with
  | object name parent m => exact ⟨change m.methods, rfl⟩
  | list element m => exact ⟨change m.methods, rfl⟩
  | _ => exact ⟨.empty, rfl⟩

theorem Reopens.step (hd : d.Closed earlier) (h : d.Reopens t) (step : Step earlier d e) :
    e.Reopens t where
  admitted := h.admitted.step hd.toGrounded step
  method := by
    obtain ⟨id, own, parent⟩ := h.method
    have declares := hd.module.functions id (List.mem_append_right _ own)
    exact ⟨id, step.within.functions own, (step.parent_eq declares).trans parent⟩

/-- A type that was there changes if the file has declared it, or in its methods by a new one. -/
theorem Step.get_eq (hd : d.Closed earlier) (step : Step earlier d e)
    (known : d.program.types.Knows t) :
    e.program.types.get t = d.program.types.get t ∨ d.HasDeclared t ∨
      e.Reopens t ∧ ∃ methods, e.program.types.get t =
        (d.program.types.get t).mapMembers fun m => { m with methods } := by
  have admits := fun (h : d.Admits t) => h.step hd.toGrounded step
  cases step with
  | arrayOf element known' => exact .inl ((Registry.grows_arrayOf _ _).get_eq known)
  | referenceTo referent known' => exact .inl ((Registry.grows_referenceTo _ _).get_eq known)
  | listOf element known' filled => exact .inl ((Program.Spares.listOf known').types.get_eq known)
  | declare name parent objects plain => exact .inl ((grows_declare _ _ _).get_eq known)
  | addField owner name type declared fresh known' filled =>
    by_cases same : t = owner
    · exact .inr (.inl (same ▸ declared))
    · exact .inl ((Registry.get_modifyMembers _ _ _ t).trans (if_neg same))
  | addMethod owner f formed own free object constructors admitted joins =>
    by_cases same : t = owner
    · subst same
      obtain ⟨methods, joined⟩ := exists_methods (d.program.types.get t)
        (·.insert ((d.program.addFunction f).2.function (d.program.addFunction f).1).name
          (d.program.addFunction f).1)
      refine .inr (.inr ⟨⟨admits admitted, (d.program.addFunction f).1, ?_, ?_⟩, methods,
        ((Registry.get_modifyMembers _ _ _ t).trans (if_pos rfl)).trans joined⟩)
      · exact List.mem_append_right _ (List.mem_singleton_self _)
      · change (((d.program.addFunction f).2.modifyFunction _ _).function _).parent = _
        rw [Program.function_modifyFunction _ _ (Program.declares_new _ f), if_pos rfl,
          Function.parent_asMethod]
    · exact .inl ((Registry.get_modifyMembers _ _ _ t).trans (if_neg same))
  | _ => exact .inl rfl

theorem Step.hasDeclared (step : Step earlier d e) (known : d.program.types.Knows t)
    (h : e.HasDeclared t) : d.HasDeclared t := by
  obtain ⟨name, parent, members, object⟩ := h.object
  obtain ⟨change, same⟩ := step.keepsShape.get t known
  have object' : ∃ members, d.program.types.get t = .object name parent members := by
    rw [object] at same
    revert same
    cases d.program.types.get t with
    | object n q m =>
      rintro ⟨⟩
      exact ⟨m, rfl⟩
    | _ => nofun
  refine ⟨h.not_base, ?_, name, parent, object'⟩
  have own := h.own
  -- A list type shown by the step is no declared type, and one declared by it is not known before.
  have shown {m : Module} {id : TypeId} (mem : t ∈ (m.addType id).ownTypes) :
      t ∈ m.ownTypes ∨ t = id := by
    unfold Module.addType at mem
    split at mem
    · exact .inl mem
    · exact (List.mem_append.1 mem).imp_right List.mem_singleton.1
  cases step with
  | listOf element known' filled =>
    refine (shown own).resolve_right ?_
    rintro rfl
    obtain ⟨m, list⟩ := Program.get_listOf known'
    cases object.symm.trans list
  | declare n q objects plain =>
    refine (shown own).resolve_right ?_
    rintro rfl
    exact Nat.lt_irrefl _ known
  | importFunction source id read shown offered =>
    revert own
    unfold Module.importFunction
    split <;> exact fun own => own
  | importType source id read shown =>
    revert own
    unfold Module.importType
    split <;> exact fun own => own
  | _ => exact own

/-- What was in `p` is still there as it was, but for types that the file has reopened. -/
structure Leaves (p : Program) (d : Draft) : Prop where
  functions : ∀ id, p.Declares id → d.program.function id = p.function id
  types : ∀ t, p.types.Knows t → d.program.types.get t = p.types.get t ∨
    d.Reopens t ∧ ∃ methods,
      d.program.types.get t = (p.types.get t).mapMembers fun m => { m with methods }
  extension : p.Extends d.program
  /-- What the file itself changes at will is new. -/
  declared : ∀ t, d.HasDeclared t → ¬p.types.Knows t
  body : ∀ id ∈ d.module.body, ¬p.Declares id

theorem Leaves.start {earlier : List Module} {p : Program} (h : Library earlier p)
    (name path : String) : (Draft.start earlier name path p).Leaves p where
  functions := (Program.Spares.addFunction p _).functions
  types _ _ := .inl rfl
  extension := Program.extends_addFunction p _
  declared t := by
    rintro ⟨notBase, own, _, _, _, object⟩ -
    have types := (importAll_keeps ((earlier.head?.map Module.ownFunctions).getD [])
      { Module.new name earlier.length with file := path }).1
    have seen : t ∈ (Draft.start earlier name path p).module.types := List.mem_append_right _ own
    have builtin : t ∈ (Module.new name earlier.length).types := types ▸ seen
    rw [Module.types_new, List.mem_append, List.mem_map, List.mem_singleton] at builtin
    obtain ⟨primitive, -, rfl⟩ := builtin.resolve_right notBase
    cases (h.program.primitives primitive).symm.trans object
  body := by
    rintro _ ⟨⟩
    exact Nat.lt_irrefl p.functions.size

theorem Step.leaves (hd : d.Closed earlier) (h : d.Leaves p) (step : Step earlier d e) :
    e.Leaves p where
  functions id old := by
    rcases step.function_eq (h.extension.declares old) with same | ⟨body, -⟩
    · exact same.trans (h.functions id old)
    · exact absurd old (h.body id body)
  types t old := by
    rcases step.get_eq hd (h.extension.knows old) with same | declared | ⟨reopens, methods, joined⟩
    · exact (h.types t old).imp same.trans fun ⟨reopened, methods, before⟩ =>
        ⟨reopened.step hd step, methods, same.trans before⟩
    · exact absurd old (h.declared t declared)
    · rcases h.types t old with before | ⟨-, _, before⟩
      · exact .inr ⟨reopens, methods, before ▸ joined⟩
      · refine .inr ⟨reopens, methods, joined.trans ?_⟩
        rw [before, Registry.mapMembers_mapMembers]
        rfl
  extension := h.extension.trans (step.extends hd.toGrounded)
  declared t declared old :=
    h.declared t (step.hasDeclared (h.extension.knows old) declared) old
  body id body := h.body id (step.within.body ▸ body)

theorem Steps.leaves (hd : d.Closed earlier) (h : d.Leaves p) (steps : Steps earlier d e) :
    e.Leaves p := by
  induction steps with
  | refl => exact h
  | tail front step ih => exact step.leaves (Steps.closed hd front).1 ih

end Draft

namespace Grammar

/-- Behind a file, every function of before is what it was, and so is every type of before, unless
    the file has declared a method for it. Such a type is one that the file sees, and one of the
    file's own types has its name. -/
theorem readFile_spares {earlier : List Module} {p : Program} (h : Library earlier p)
    (name : String) (cursor : Cursor) (diagnostics : Diagnostics) :
    let d := (readFile earlier name cursor p diagnostics).draft
    (∀ id, p.Declares id → d.program.function id = p.function id) ∧
      ∀ t, p.types.Knows t → d.program.types.get t = p.types.get t ∨
        d.Reopens t ∧ ∃ methods,
          d.program.types.get t = (p.types.get t).mapMembers fun m => { m with methods } := by
  have closed := Draft.closed_start h name cursor.file
  have leaves := Draft.Steps.leaves closed (.start h name cursor.file)
    (steps_readFile h name cursor diagnostics)
  exact ⟨leaves.functions, leaves.types⟩

/-- The case of a file that imports a type and declares a method of its own one. -/
theorem readFile_spares_imported :
    let c := Compilation.new.read "a" (.ofText "a.kv" "type A { }\nfn A.m() { }")
    let cursor : Cursor := .ofTokens "b.kv"
      (Lexed.ofText "b.kv" "use a::A;\ntype B { }\nfn B.m() { }").tokens
    let d := (readFile c.modules "b" cursor c.program c.diagnostics).draft
    Library c.modules c.program ∧
      (∀ id, c.program.Declares id → d.program.function id = c.program.function id) ∧
      ∀ t, c.program.types.Knows t → d.program.types.get t = c.program.types.get t ∨
        d.Reopens t ∧ ∃ methods,
          d.program.types.get t = (c.program.types.get t).mapMembers fun m => { m with methods } := by
  intro c cursor d
  have library := (Compilation.written_read Compilation.written_new "a"
    (.ofText "a.kv" "type A { }\nfn A.m() { }")).library
  exact ⟨library, readFile_spares library "b" cursor c.diagnostics⟩

/-- A method declared for a file's own type joins the table of an imported type of that name: the
    imported types are searched first. -/
theorem imported_type_gets_method :
    let c := Compilation.new.read "a" (.ofText "a.kv" "type A { }")
    let e := c.read "b" (.ofText "b.kv" "use a::A;\ntype A { }\nfn A.m() { }")
    c.program.types.Knows ⟨6⟩ ∧ (c.program.types.get ⟨6⟩).ownMethod? "m" = none ∧
      e.diagnostics.hasError = false ∧ ((e.program.types.get ⟨6⟩).ownMethod? "m").isSome ∧
      (e.program.types.get ⟨7⟩).ownMethod? "m" = none := by
  decide +kernel

end Grammar
end ObjectLang
