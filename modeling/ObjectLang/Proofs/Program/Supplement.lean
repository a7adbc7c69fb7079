import ObjectLang.Proofs.Program.Spared
set_option autoImplicit false

/-!
# Built types

Arrays, references and lists are built from other types when they are first asked for. That adds types
of these kinds, and functions as methods of the new lists, and it leaves everything that a program had
before as it was.
-/

namespace ObjectLang

def Ty.isBuilt : Ty → Bool
  | .array _ | .reference _ | .list .. => true
  | _ => false

theorem Ty.isBuilt_mapMembers (change : Members → Members) (t : Ty) :
    (t.mapMembers change).isBuilt = t.isBuilt := by
  cases t <;> rfl

namespace Program

/-- What `q` has besides the types and functions of `p`, which are the same in both, are types that are
    built from others, and functions. -/
structure Supplements (p q : Program) : Prop where
  spares : p.Spares q
  built : ∀ id, q.types.Knows id → p.types.Knows id ∨ (q.types.get id).isBuilt = true

namespace Supplements

variable {p q r : Program}

theorem refl (p : Program) : Supplements p p := ⟨.refl p, fun _ => .inl⟩

theorem trans (h : Supplements p q) (h' : Supplements q r) : Supplements p r where
  spares := h.spares.trans h'.spares
  built id known := by
    rcases h'.built id known with old | new
    · rw [h'.spares.types.get_eq old]
      exact h.built id old
    · exact .inr new

theorem addFunction (p : Program) (f : Function) : Supplements p (p.addFunction f).2 :=
  ⟨.addFunction p f, fun _ => .inl⟩

theorem intern (p : Program) (known : Option TypeId) (component : TypeId) {t : Ty}
    (ht : t.components = [component]) (built : t.isBuilt = true) :
    Supplements p { p with types := (p.types.intern known component t ht).2 } := by
  rcases Registry.intern_cases p.types known component t ht with same | ⟨hc, added⟩
  · rw [same]
    exact refl p
  · refine ⟨.of_grows (Registry.grows_intern _ _ _ _ _), fun id hid => ?_⟩
    simp only [added] at hid ⊢
    rw [Registry.get_add]
    split
    · exact .inr built
    · rw [Registry.Knows, Registry.size_add] at hid
      exact .inl (by rw [Registry.Knows]; omega)

theorem arrayOf (p : Program) (element : TypeId) : Supplements p (p.arrayOf element).2 :=
  intern p _ element rfl rfl

theorem referenceTo (p : Program) (referent : TypeId) :
    Supplements p (p.referenceTo referent).2 :=
  intern p _ referent rfl rfl

theorem addMethods (h : Supplements p q) {owner : TypeId} (new : ¬p.types.Knows owner)
    (methods : List Function) : Supplements p (q.addMethods owner methods) where
  spares := h.spares.addMethods new methods
  built id known := by
    have size : (q.addMethods owner methods).types.size = q.types.size := by
      have added := addFunctions_induct q methods (I := fun _ r => r.types = q.types) rfl
        fun _ _ _ _ hr => hr
      rw [addMethods_eq]
      exact adoptAll_induct _ owner _ (I := fun r => r.types.size = q.types.size)
        (congrArg Registry.size added) fun _ _ _ hr => (Registry.size_modifyMembers _ _ _).trans hr
    have known' : q.types.Knows id := Nat.lt_of_lt_of_le known (Nat.le_of_eq size)
    obtain ⟨change, same⟩ := (q.keepsShape_addMethods owner methods).get id known'
    rw [same, Ty.isBuilt_mapMembers]
    exact h.built id known'

/-- What is asked for as a list of an unknown type is that type itself. -/
theorem withList (p : Program) (element : TypeId) :
    Supplements p (p.withList element).2 ∧ ¬p.types.Knows (p.withList element).1 := by
  refine ⟨(arrayOf p element).trans (intern (p.arrayOf element).2 none element rfl rfl), ?_⟩
  by_cases known : p.types.Knows element
  · exact (Spares.withList known).2
  · have unknown : ¬(p.arrayOf element).2.types.Knows element := by
      rcases Registry.intern_cases p.types (p.types.findArray? element) element (.array element) rfl
        with same | ⟨hc, -⟩
      · exact fun known' => known (same ▸ known')
      · exact absurd (hc element (List.mem_singleton_self _)) known
    have itself : (p.withList element).1 = element := by
      simp only [Program.withList, Registry.addList, Registry.intern]
      exact congrArg Prod.fst (dif_neg unknown)
    rwa [itself]

theorem listOf (p : Program) (element : TypeId) : Supplements p (p.listOf element).2 := by
  cases found : p.types.findList? element with
  | some list =>
    rw [listOf_eq_known found]
    exact refl p
  | none =>
    obtain ⟨supplements, new⟩ := withList p element
    rw [listOf_eq_new found]
    exact supplements.addMethods new (ListMethod.all element (p.arrayOf element).1)

end Supplements
end Program
end ObjectLang
