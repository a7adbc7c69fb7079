import Mathlib.Data.List.Perm.Subperm
import ObjectLang.Proofs.Typing.Statement
set_option autoImplicit false

/-!
# Checked functions are typed

When a function has been checked without an error, it is typed together with all that it reaches.
Nested checks always end with their target entered: each of them enters another function, and there
are no more of them than functions.
-/

namespace ObjectLang.Typing

variable {modules : List Module} {depth : Nat} {s t : State}

theorem length_checked_le (distinct : s.checked.Nodup)
    (declared : ∀ id ∈ s.checked, s.program.Declares id) :
    s.checked.length ≤ s.program.functions.size := by
  have inside : s.checked.map FunctionId.index ⊆ List.range s.program.functions.size := by
    intro i hi
    obtain ⟨id, hid, rfl⟩ := List.mem_map.1 hi
    exact List.mem_range.2 (declared id hid)
  have distinct : (s.checked.map FunctionId.index).Nodup := by
    refine List.Pairwise.map _ ?_ distinct
    rintro ⟨i⟩ ⟨j⟩ hne heq
    exact hne (congrArg FunctionId.mk heq)
  have := (List.subperm_of_subset distinct inside).length_le
  rw [List.length_map, List.length_range] at this
  exact this

theorem Valid.deeper (h : Valid modules depth s) : Valid modules (depth + 1) s :=
  ⟨h.tables, h.visible, h.read, h.bodies, h.distinct, h.declared,
    Nat.lt_of_lt_of_le h.room (by omega)⟩

theorem Valid.markChecked (h : Valid modules (depth + 1) s) {id : FunctionId}
    (declares : s.program.Declares id) (fresh : id ∉ s.checked) :
    Valid modules depth (s.markChecked id) := by
  refine ⟨h.tables, h.visible, h.read, ?_, List.nodup_cons.2 ⟨fresh, h.distinct⟩, ?_, ?_⟩
  · exact fun f hf => h.bodies f fun checked => hf (List.mem_cons_of_mem _ checked)
  · intro f hf
    rcases List.mem_cons.1 hf with rfl | hf
    · exact declares
    · exact h.declared f hf
  · have room := h.room
    change s.program.functions.size < depth + (s.checked.length + 1)
    omega

theorem Valid.file (h : Valid modules depth s) (scopes : Scopes Meaning)
    (diagnostics : Diagnostics) : Valid modules depth { s with scopes, diagnostics } :=
  ⟨h.tables, h.visible, h.read, h.bodies, h.distinct, h.declared, h.room⟩

theorem parameter_of_mem {p : Program} {m : Module} {f : Function} {name : String} {type : TypeId}
    (mem : (name, Meaning.value type) ∈ (functionScopes m p f).bindings) :
    ∃ x ∈ f.parameters, x.type = type := by
  simp only [functionScopes, Scopes.openSegment, Scopes.empty, List.append_nil,
    List.mem_append, List.mem_reverse, List.mem_map] at mem
  rcases mem with ⟨x, hx, same⟩ | ⟨t, -, same⟩
  · cases same
    exact ⟨x, hx, rfl⟩
  · cases same

theorem knownScopes_function {p : Program} (m : Module) {f : Function} (signed : f.Signed p) :
    KnownScopes p (functionScopes m p f) := by
  intro name type bound
  obtain ⟨front, behind, same, -⟩ := List.lookup_eq_some_iff.1 bound
  have mem : (name, Meaning.value type) ∈ (functionScopes m p f).bindings := by
    rw [same]
    exact List.mem_append_right _ List.mem_cons_self
  obtain ⟨x, hx, rfl⟩ := parameter_of_mem mem
  exact (signed.parameters x hx).1

theorem isChecked_eq_true {id : FunctionId} : s.isChecked id = true ↔ id ∈ s.checked := by
  rw [State.isChecked, List.contains_iff_mem]

theorem checkWithin_of_checked (modules : List Module) (depth : Nat) {id : FunctionId}
    (checked : id ∈ s.checked) : checkWithin modules depth id s = s := by
  cases depth with
  | zero => rfl
  | succ depth => rw [checkWithin, if_pos (isChecked_eq_true.2 checked)]

/-- The scopes of a body are the same in later programs. -/
theorem functionScopes_evolves {p q : Program} (h : p.Evolves q) {m : Module} (hm : m.Closed p)
    (id : FunctionId) :
    functionScopes m q (q.function id) = functionScopes m p (p.function id) := by
  have visible : m.visibleObjectTypes q = m.visibleObjectTypes p := by
    apply List.filter_congr
    intro t ht
    rw [Module.isObjectType, h.types.isObject_eq (hm.types t ht), Module.isObjectType]
  have named : (m.visibleObjectTypes q).map (fun t => (q.types.name t, Meaning.type t)) =
      (m.visibleObjectTypes p).map fun t => (p.types.name t, Meaning.type t) := by
    rw [visible]
    apply List.map_congr_left
    intro t ht
    rw [h.types.name_eq (hm.types t (List.mem_filter.1 ht).1)]
  unfold functionScopes
  rw [named, h.parameters_eq]

theorem Context.Sound.eq {c : Context} (hc : c.Sound modules depth) :
    ∃ n, c = ⟨modules, c.current, checkWithin modules n⟩ := by
  obtain ⟨n, nested⟩ := hc.nested
  refine ⟨n, ?_⟩
  rw [← nested, ← hc.modules_eq]

theorem leave_sound {c : Context} {m : Module} (hc : c.Sound modules depth)
    (hm : modules[(s.program.function c.current).module]? = some m)
    (valid : Valid modules (depth + 1) s) {v : List Statement × State}
    (keeps : Keeps s (v.2.leave (s.markChecked c.current) c.current v.1))
    (entered : c.current ∈ v.2.checked)
    (walk : v = checkAll c (s.program.function c.current).body
      ((s.markChecked c.current).enter m (s.program.function c.current)))
    (clean : v.2.Clean)
    (h : PassedAll modules depth c
      ((s.markChecked c.current).enter m (s.program.function c.current)) v) :
    Advances modules (depth + 1) (fun _ => False) s
      (v.2.leave (s.markChecked c.current) c.current v.1) := by
  obtain ⟨body, t⟩ := v
  have declares := h.advances.valid.declared c.current entered
  have signed := h.advances.valid.tables.signatures c.current
  have later : Later (· = c.current) t (t.leave (s.markChecked c.current) c.current body) :=
    (later_modifyFunction (s := t) entered ({ · with body }) (fun _ => rfl)
      ⟨rfl, .inl rfl⟩).trans (.of_types (.refl _) rfl rfl fun clean => clean)
  have left := (h.advances.valid.modifyFunction entered ({ · with body }) (fun _ => rfl)
    ⟨signed.parameters, signed.returnType⟩).file s.scopes
      { t.diagnostics with file := s.diagnostics.file }
  refine ⟨keeps.toLater, left.deeper, fun _ no => no.elim, ?_⟩
  intro id hid hno O' u closed hu
  have hu' := later.append hu
  by_cases current : id = c.current
  · subst current
    have closedModule := valid.visible m (List.mem_of_getElem? hm)
    have evolves := keeps.evolves.trans hu.evolves
    have replaced : (u.program.function c.current).body = body := by
      rcases hu.settled c.current hid with same | ⟨no, -⟩
      · rw [same]
        change ((t.program.modifyFunction c.current _).function c.current).body = body
        rw [Program.function_modifyFunction _ _ declares, if_pos rfl]
      · exact absurd no closed
    have found : modules[(u.program.function c.current).module]? = some m := by
      rw [evolves.module_eq]
      exact hm
    have scopes := functionScopes_evolves evolves closedModule c.current
    refine ⟨.inr ⟨m, t.scopes, found, ?_⟩, .inr ⟨m, ?_⟩⟩
    · rw [scopes, replaced]
      exact h.checks _ u hu'
    · rw [scopes, replaced]
      obtain ⟨n, same⟩ := hc.eq
      rw [same] at walk
      refine ⟨n, (s.markChecked c.current).enter m (s.program.function c.current), found, rfl,
        List.mem_cons_self, evolves, ?_, congrArg Prod.fst walk⟩
      rw [← congrArg Prod.snd walk]
      exact clean
  · refine h.advances.sound id hid ?_ _ u (fun open_ => open_.elim current closed) hu'
    intro hmem
    exact (List.mem_cons.1 hmem).elim current hno

theorem checkBody_sound {c : Context} (hc : c.Sound modules depth) {m : Module}
    (hm : modules[(s.program.function c.current).module]? = some m)
    (valid : Valid modules (depth + 1) s) (declares : s.program.Declares c.current)
    (fresh : c.current ∉ s.checked)
    (clean : (checkBody c m (s.markChecked c.current)).Clean) :
    Advances modules (depth + 1) (fun _ => False) s
      (checkBody c m (s.markChecked c.current)) := by
  have keeps := keeps_checkBody hc.keeping m fresh
  have signed := valid.tables.signatures c.current
  have entered : Ready modules depth
      ((s.markChecked c.current).enter m (s.program.function c.current)) :=
    ⟨(valid.markChecked declares fresh).file _ _, knownScopes_function m signed⟩
  have body := checkAll_typed hc (s.program.function c.current).body
    (s := (s.markChecked c.current).enter m (s.program.function c.current))
    (valid.bodies c.current fresh) entered List.mem_cons_self clean
  have inside : c.current ∈ (checkAll c (s.program.function c.current).body
      ((s.markChecked c.current).enter m (s.program.function c.current))).2.checked :=
    body.advances.mem List.mem_cons_self
  exact leave_sound hc hm valid keeps inside rfl clean body

theorem checkWithin_sound (modules : List Module) (depth : Nat) (id : FunctionId) (s : State)
    (valid : Valid modules depth s) (declares : s.program.Declares id)
    (clean : (checkWithin modules depth id s).Clean) :
    Advances modules depth (fun _ => False) s (checkWithin modules depth id s) ∧
      id ∈ (checkWithin modules depth id s).checked := by
  induction depth generalizing id s with
  | zero =>
    have room := valid.room
    have full := length_checked_le valid.distinct valid.declared
    omega
  | succ depth ih =>
    have hc : Context.Sound ⟨modules, id, checkWithin modules depth⟩ modules depth :=
      ⟨rfl, ⟨depth, rfl⟩, keeps_checkWithin modules depth,
        fun _ _ checked => checkWithin_of_checked modules depth checked, ih⟩
    unfold checkWithin at clean ⊢
    split
    · rename_i checked
      exact ⟨.refl valid fun _ no => no.elim, isChecked_eq_true.1 checked⟩
    · rename_i fresh
      rw [if_neg fresh] at clean
      have fresh : id ∉ s.checked := fun checked => fresh (isChecked_eq_true.2 checked)
      dsimp only at clean ⊢
      split
      · rename_i native
        refine ⟨⟨(keeps_markChecked s id).toLater, (valid.markChecked declares fresh).deeper,
          fun _ no => no.elim, ?_⟩, List.mem_cons_self⟩
        intro f hf hno O' u closed hu
        rcases List.mem_cons.1 hf with rfl | hf
        · have still : (u.program.function f).isNative = true := by
            rw [hu.evolves.isNative_eq]
            exact native
          exact ⟨.inl still, .inl still⟩
        · exact absurd hf hno
      · rename_i written
        rw [if_neg written] at clean
        have read := valid.read id declares
        split
        · rename_i none
          have missing := List.getElem?_eq_none_iff.1 none
          exact absurd read (Nat.not_lt_of_le missing)
        · rename_i m hm
          rw [hm] at clean
          have body := checkBody_sound (s := s) hc hm valid declares fresh clean
          exact ⟨body, (later_checkAll hc.keeping _ List.mem_cons_self).mem List.mem_cons_self⟩

end ObjectLang.Typing
