import ObjectLang.Proofs.Program.Closed
set_option autoImplicit false

/-!
# What a file leaves as it was

Reading a file adds to the tables of a program. The functions that were there before keep their
entries. A type that was there before keeps its name, its parent and its fields, and it keeps its
methods too unless the file declares a method for it; such a type is one that the file sees, and the
file has a type of its own by that name.
-/

namespace ObjectLang

/-- The types and functions of `p` are the same in `q`, which may have more of them. -/
structure Program.Spares (p q : Program) : Prop where
  types : p.types.Grows q.types
  functions : ∀ id, p.Declares id → q.function id = p.function id
  declares : p.functions.size ≤ q.functions.size

namespace Program.Spares

variable {p q r : Program}

theorem refl (p : Program) : Spares p p := ⟨.refl _, fun _ _ => rfl, Nat.le_refl _⟩

theorem trans (h : Spares p q) (h' : Spares q r) : Spares p r where
  types := h.types.trans h'.types
  functions id hid :=
    (h'.functions id (Nat.lt_of_lt_of_le hid h.declares)).trans (h.functions id hid)
  declares := Nat.le_trans h.declares h'.declares

theorem of_grows {types : Registry} (h : p.types.Grows types) : Spares p { p with types } :=
  ⟨h, fun _ _ => rfl, Nat.le_refl _⟩

theorem addFunction (p : Program) (f : Function) : Spares p (p.addFunction f).2 where
  types := .refl _
  functions _ hid := Arena.get_add_of_lt _ _ hid
  declares := Nat.le_trans (Nat.le_succ _) (Nat.le_of_eq (Arena.size_add _ _).symm)

theorem adopt (h : Spares p q) {owner : TypeId} {id : FunctionId}
    (newOwner : ¬p.types.Knows owner) (new : ¬p.Declares id) : Spares p (q.adopt owner id) where
  types := by
    refine Registry.grows_of_get
      (Nat.le_trans h.types.size_le (Nat.le_of_eq (Registry.size_modifyMembers _ _ _).symm))
      fun t known => ?_
    have ne : t ≠ owner := fun same => newOwner (same ▸ known)
    exact ((Registry.get_modifyMembers _ _ _ t).trans (if_neg ne)).trans (h.types.get_eq known)
  functions other hother := by
    have ne : other ≠ id := fun same => new (same ▸ hother)
    exact (Arena.get_modify_of_ne _ ne _).trans (h.functions other hother)
  declares := Nat.le_trans h.declares (Nat.le_of_eq (Arena.size_modify _ _ _).symm)

theorem addMethods (h : Spares p q) {owner : TypeId} (new : ¬p.types.Knows owner)
    (methods : List Function) : Spares p (q.addMethods owner methods) := by
  have added := addFunctions_induct q methods
    (I := fun ids r => Spares p r ∧ ∀ id ∈ ids, ¬p.Declares id) ⟨h, nofun⟩ ?_
  · rw [addMethods_eq]
    exact adoptAll_induct _ owner _ added.1 fun r id hid hr => hr.adopt new (added.2 id hid)
  · rintro ids r f - ⟨hr, fresh⟩
    refine ⟨hr.trans (addFunction r f), fun id hid => ?_⟩
    rcases List.mem_append.1 hid with hid | hid
    · exact fresh id hid
    · rw [List.mem_singleton.1 hid]
      exact fun old => Nat.lt_irrefl _ (Nat.lt_of_lt_of_le old hr.declares)

theorem arrayOf (p : Program) (element : TypeId) : Spares p (p.arrayOf element).2 :=
  .of_grows (p.types.grows_arrayOf element)

theorem withList {element : TypeId} (known : p.types.Knows element) :
    Spares p (p.withList element).2 ∧ ¬p.types.Knows (p.withList element).1 := by
  have known' := (extends_arrayOf p element).knows known
  have first := arrayOf p element
  constructor
  · refine first.trans ?_
    simp only [Program.withList, addList_eq known']
    exact ⟨Registry.grows_add _ _ (known_of_list known' _), fun _ _ => rfl, Nat.le_refl _⟩
  · simp only [Program.withList, addList_eq known']
    exact Nat.not_lt.2 first.types.size_le

theorem listOf {element : TypeId} (known : p.types.Knows element) :
    Spares p (p.listOf element).2 := by
  cases found : p.types.findList? element with
  | some list =>
    rw [listOf_eq_known found]
    exact .refl p
  | none =>
    rw [listOf_eq_new found]
    obtain ⟨spared, new⟩ := withList known
    exact spared.addMethods new (ListMethod.all element (p.arrayOf element).1)

end Program.Spares

namespace Program

theorem keepsShape_addMethods (p : Program) (owner : TypeId) (methods : List Function) :
    p.types.KeepsShape (p.addMethods owner methods).types := by
  have added := addFunctions_induct p methods (I := fun _ q => q.types = p.types) rfl
    fun _ _ _ _ hq => hq
  rw [addMethods_eq]
  exact adoptAll_induct _ owner _ (I := fun q => p.types.KeepsShape q.types) (added ▸ .refl _)
    fun _ _ _ hq => hq.trans (Registry.keepsShape_modifyMembers _ _ _)

theorem get_listOf {p : Program} {element : TypeId} (known : p.types.Knows element) :
    ∃ members, (p.listOf element).2.types.get (p.listOf element).1 = .list element members := by
  cases found : p.types.findList? element with
  | some list =>
    rw [listOf_eq_known found]
    exact get_of_findList? found
  | none =>
    obtain ⟨members, made⟩ := get_withList known
    have object := knows_of_isObject (isObject_of_get_list made)
    obtain ⟨change, same⟩ := (keepsShape_addMethods (p.withList element).2 (p.withList element).1
      (ListMethod.all element (p.arrayOf element).1)).get _ object
    rw [listOf_eq_new found]
    exact ⟨change members, same.trans (made ▸ rfl)⟩

end Program

structure Module.Within (m n : Module) : Prop where
  types : m.types ⊆ n.types
  own : m.ownTypes ⊆ n.ownTypes
  functions : m.ownFunctions ⊆ n.ownFunctions
  body : n.body = m.body

namespace Module.Within

theorem refl (m : Module) : Within m m := ⟨fun _ h => h, fun _ h => h, fun _ h => h, rfl⟩

theorem addType (m : Module) (id : TypeId) : Within m (m.addType id) := by
  unfold Module.addType
  split
  · exact .refl m
  · refine ⟨fun t ht => ?_, fun _ h => List.mem_append_left _ h, fun _ h => h, rfl⟩
    rcases List.mem_append.1 ht with ht | ht
    · exact List.mem_append_left _ ht
    · exact List.mem_append_right _ (List.mem_append_left _ ht)

theorem importType (m : Module) (id : TypeId) : Within m (m.importType id) := by
  unfold Module.importType
  split
  · exact .refl m
  · exact ⟨fun _ h => List.mem_cons_of_mem _ h, fun _ h => h, fun _ h => h, rfl⟩

theorem importFunction (m : Module) (id : FunctionId) : Within m (m.importFunction id) := by
  unfold Module.importFunction
  split
  · exact .refl m
  · exact ⟨fun _ h => h, fun _ h => h, fun _ h => h, rfl⟩

theorem addFunction (m : Module) (id : FunctionId) : Within m (m.addFunction id) :=
  ⟨fun _ h => h, fun _ h => h, fun _ h => List.mem_append_left _ h, rfl⟩

end Module.Within

namespace Draft

variable {earlier : List Module} {d e : Draft} {t : TypeId}

theorem Step.keepsShape (step : Step earlier d e) :
    d.program.types.KeepsShape e.program.types := by
  cases step with
  | arrayOf element known => exact (Registry.grows_arrayOf _ _).keepsShape
  | referenceTo referent known => exact (Registry.grows_referenceTo _ _).keepsShape
  | listOf element known filled => exact (Program.Spares.listOf known).types.keepsShape
  | declare name parent objects plain => exact (grows_declare _ _ _).keepsShape
  | addField owner name type declared fresh known filled =>
    exact Registry.keepsShape_modifyMembers _ _ _
  | addFunction f formed own free fresh => exact .refl _
  | addMethod owner f formed own free object constructors admitted joins =>
    exact Registry.keepsShape_modifyMembers _ _ _
  | refuse f formed own free => exact .refl _
  | importFunction source id read shown offered => exact .refl _
  | importType source id read shown => exact .refl _
  | setBody id statements body formed => exact .refl _

theorem Step.within (step : Step earlier d e) : d.module.Within e.module := by
  cases step with
  | listOf element known filled => exact .addType _ _
  | declare name parent objects plain => exact .addType _ _
  | importFunction source id read shown offered => exact .importFunction _ _
  | importType source id read shown => exact .importType _ _
  | addFunction f formed own free fresh => exact .addFunction _ _
  | addMethod owner f formed own free object constructors admitted joins => exact .addFunction _ _
  | _ => exact .refl _

/-- Only the body of the file is stored in a function that was there. -/
theorem Step.function_eq (step : Step earlier d e) {id : FunctionId}
    (declares : d.program.Declares id) :
    e.program.function id = d.program.function id ∨
      d.module.body = some id ∧ ∃ statements,
        e.program.function id = { d.program.function id with body := statements } := by
  have added (f : Function) : (d.program.addFunction f).2.function id = d.program.function id :=
    (Program.Spares.addFunction _ f).functions id declares
  cases step with
  | listOf element known filled => exact .inl ((Program.Spares.listOf known).functions id declares)
  | addFunction f formed own free fresh => exact .inl (added f)
  | addMethod owner f formed own free object constructors admitted joins =>
    refine .inl (Eq.trans (Arena.get_modify_of_ne _ ?_ _) (added f))
    rintro rfl
    exact Nat.lt_irrefl _ declares
  | refuse f formed own free => exact .inl (added f)
  | setBody other statements body formed =>
    by_cases same : id = other
    · subst same
      refine .inr ⟨body, statements, ?_⟩
      rw [Program.function_modifyFunction _ _ declares, if_pos rfl]
    · exact .inl (Arena.get_modify_of_ne _ same _)
  | _ => exact .inl rfl

theorem Step.parent_eq (step : Step earlier d e) {id : FunctionId}
    (declares : d.program.Declares id) :
    (e.program.function id).parent = (d.program.function id).parent := by
  rcases step.function_eq declares with same | ⟨-, statements, same⟩ <;> rw [same]

theorem HasDeclared.knows (h : d.HasDeclared t) : d.program.types.Knows t := by
  obtain ⟨name, parent, members, object⟩ := h.object
  exact Program.knows_of_isObject (by rw [Registry.isObject, object]; rfl)

theorem HasDeclared.step (h : d.HasDeclared t) (step : Step earlier d e) : e.HasDeclared t where
  not_base := h.not_base
  own := step.within.own h.own
  object := by
    obtain ⟨name, parent, members, object⟩ := h.object
    obtain ⟨change, same⟩ := step.keepsShape.get t h.knows
    rw [object] at same
    exact ⟨name, parent, change members, same⟩

theorem Admits.step (hd : d.Grounded earlier) (h : d.Admits t) (step : Step earlier d e) :
    e.Admits t where
  visible := step.within.types h.visible
  named := by
    obtain ⟨own, mem, named⟩ := h.named
    have known := hd.module.types own (List.mem_append_right _ mem)
    refine ⟨own, step.within.own mem, ?_⟩
    rw [step.keepsShape.name_eq known, named,
      step.keepsShape.name_eq (hd.module.types t h.visible)]

theorem HasDeclared.steps (h : d.HasDeclared t) (steps : Steps earlier d e) :
    e.HasDeclared t := by
  induction steps with
  | refl => exact h
  | tail _ step ih => exact ih.step step

theorem Admits.steps (hd : d.Grounded earlier) (h : d.Admits t) (steps : Steps earlier d e) :
    e.Admits t := by
  induction steps with
  | refl => exact h
  | tail front step ih => exact ih.step (Steps.grounded hd front).1 step

end Draft
end ObjectLang
