import ObjectLang.Proofs.Program.Operation
import ObjectLang.Proofs.Ty.Ancestry
set_option autoImplicit false

/-!
# Inheritance

Types may be declared to derive from any type that is known, also from a list. In whatever program comes
of reading files and of operations, derivation is a well-founded order, all that goes from parent to
parent comes to an end, and what a type has from its ancestors is what the nearest of them declares.
-/

namespace ObjectLang

namespace Registry

theorem parent?_declare (r : Registry) (name : String) {parent : Option TypeId}
    (known : ∀ t ∈ parent, r.Knows t) :
    (r.declare name parent).2.parent? (r.declare name parent).1 = parent := by
  unfold declare
  rw [parent?, get_add, if_pos (show (r.add _ _).1.index = r.size from rfl)]
  cases parent with
  | none => rfl
  | some t => exact if_pos (decide_eq_true (known t rfl))

end Registry

/-- How the types of a program derive from each other. -/
structure Program.Inherits (p : Program) : Prop where
  refl : ∀ t, p.types.derivesFrom t t = true
  trans : ∀ t a b, p.types.derivesFrom t a = true → p.types.derivesFrom a b = true →
    p.types.derivesFrom t b = true
  antisymm : ∀ t a, p.types.derivesFrom t a = true → p.types.derivesFrom a t = true → t = a
  /-- Derivation goes from parent to parent. -/
  chain : ∀ t a, p.types.derivesFrom t a = true ↔
    Relation.ReflTransGen (fun child parent => p.types.parent? child = some parent) t a
  founded : WellFounded fun parent child => p.types.parent? child = some parent
  /-- No more types are looked at than there are types before the first one. -/
  derivation_ends : ∀ t a, p.types.derivesWithin a (t.index + 1) t = some (p.types.derivesFrom t a)
  field_ends : ∀ t name, Registry.nearestWithin (·.ownField? name) p.types (t.index + 1) t =
    some (p.types.fieldType? t name)
  method_ends : ∀ t name, Registry.nearestWithin (·.ownMethod? name) p.types (t.index + 1) t =
    some (p.types.findMethod? t name)
  fields_end : ∀ t, p.types.fieldsWithin (t.index + 1) t = some (p.types.fields t)
  /-- All fields of a type together are those that are found in it one by one. -/
  fields_found : ∀ t name field,
    (name, field) ∈ p.types.fields t ↔ p.types.fieldType? t name = some field
  field_inherited : ∀ t a name, p.types.derivesFrom t a = true →
    (p.types.fieldType? a name).isSome = true →
      ∃ owner field, Registry.Nearest (·.ownField? name) p.types t owner field ∧
        p.types.fieldType? t name = some field
  method_inherited : ∀ t a name, p.types.derivesFrom t a = true →
    (p.types.findMethod? a name).isSome = true →
      ∃ owner method, Registry.Nearest (·.ownMethod? name) p.types t owner method ∧
        p.types.findMethod? t name = some method
  /-- A new type comes behind all others, with the parent that it is declared with. -/
  declared : ∀ name parent, (∀ t ∈ parent, p.types.Knows t) →
    (p.types.declare name parent).2.parent? (p.types.declare name parent).1 = parent ∧
      ¬p.types.Knows (p.types.declare name parent).1
  /-- Nothing that happens later changes the ancestors of a type. -/
  stays : ∀ q, p.Operations q → ∀ t, p.types.Knows t → q.types.ancestry t = p.types.ancestry t

/-- **Inheritance is a well-founded order**, and lookups are monotone along it. -/
theorem Reachable.inherits {modules : List Module} {p : Program} (reached : Reachable modules p) :
    p.Inherits where
  refl := Registry.derivesFrom_self
  trans _ _ _ := Registry.derivesFrom_trans
  antisymm _ _ := Registry.derivesFrom_antisymm
  chain _ _ := Registry.derivesFrom_iff
  founded := p.types.wellFounded_parent
  derivation_ends _ _ := Registry.derivesWithin_eq (Nat.lt_succ_self _)
  field_ends _ name := Registry.nearestWithin_eq (·.ownField? name) (Nat.lt_succ_self _)
  method_ends _ name := Registry.nearestWithin_eq (·.ownMethod? name) (Nat.lt_succ_self _)
  fields_end _ := Registry.fieldsWithin_eq (Nat.lt_succ_self _)
  fields_found _ _ _ := reached.operations.ordered_made.mem_fields
  field_inherited _ _ name := Registry.exists_nearest_of_derivesFrom (·.ownField? name)
  method_inherited _ _ name := Registry.exists_nearest_of_derivesFrom (·.ownMethod? name)
  declared name _ known :=
    ⟨p.types.parent?_declare name known, Nat.lt_irrefl p.types.size⟩
  stays _ later _ known := later.keepsShape.ancestry_eq known

/-- A type that derives from the list of `Int`. -/
def derivedFromList : Program :=
  let (list, p) := ({} : Program).listOf .int
  { p with types := (p.types.declare "Stack" (some list)).2 }

/-- The size is a field of the list, and so of what derives from it. -/
theorem inherits_derivedFromList : Reachable [] derivedFromList ∧ derivedFromList.Inherits ∧
    derivedFromList.types.derivesFrom ⟨8⟩ ⟨7⟩ = true ∧
      derivedFromList.types.derivesFrom ⟨7⟩ ⟨8⟩ = false ∧
      derivedFromList.types.fieldType? ⟨8⟩ "size" = some .int ∧
      derivedFromList.types.findMethod? ⟨8⟩ "append" =
        derivedFromList.types.findMethod? ⟨7⟩ "append" := by
  have reached : Reachable [] derivedFromList :=
    (Reachable.new.operation (.listOf .int (by decide))).operation
      (.declare "Stack" (some (({} : Program).listOf .int).1) (by decide +kernel))
  have inherits := Reachable.inherits reached
  refine ⟨reached, inherits, ?_, ?_, ?_, ?_⟩
  · exact Option.some.inj ((inherits.derivation_ends _ _).symm.trans (by decide +kernel))
  · exact Option.some.inj ((inherits.derivation_ends _ _).symm.trans (by decide +kernel))
  · exact Option.some.inj ((inherits.field_ends _ _).symm.trans (by decide +kernel))
  · exact Registry.findMethod?_inherited (by decide +kernel) (by decide +kernel)

end ObjectLang
