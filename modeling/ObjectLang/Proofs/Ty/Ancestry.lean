import Mathlib.Logic.Relation
import ObjectLang.Proofs.Ty.Growth
set_option autoImplicit false

/-!
# Ancestors

A type derives from itself and from whatever its parent derives from. Parents come in front of their
children in the registry, so that going from parent to parent comes to an end, and no two types derive
from each other. A lookup goes the same way: it finds what the nearest type declares that declares
anything, so a type has whatever its ancestors have, of its own or from one of them.
-/

namespace ObjectLang.Registry

variable {r : Registry} {type owner ancestor : TypeId} {name : String} {f : FunctionId}

theorem derivesFrom_self (type : TypeId) : r.derivesFrom type type = true := by
  rw [derivesFrom, ancestry_unfold]
  cases r.parent? type <;> simp

theorem eq_of_derivesFrom_orphan (h : r.parent? type = none) (derives : r.derivesFrom type owner = true) :
    owner = type := by
  rw [derivesFrom, ancestry_unfold, h] at derives
  simpa using derives

theorem derivesFrom_parent {parent : TypeId} (h : r.parent? type = some parent) :
    r.derivesFrom type owner = true ↔ owner = type ∨ r.derivesFrom parent owner = true := by
  rw [derivesFrom, ancestry_unfold, h, derivesFrom]
  simp

/-- A type derives from what it comes to from parent to parent. -/
theorem derivesFrom_iff : r.derivesFrom type ancestor = true ↔
    Relation.ReflTransGen (fun child parent => r.parent? child = some parent) type ancestor := by
  constructor
  · induction type using r.parent_induction with
    | orphan type above =>
      intro derives
      exact eq_of_derivesFrom_orphan above derives ▸ .refl
    | child type parent above ih =>
      intro derives
      rcases (derivesFrom_parent above).1 derives with rfl | derives
      · exact .refl
      · exact .head above (ih derives)
  · intro chain
    induction chain using Relation.ReflTransGen.head_induction_on with
    | refl => exact derivesFrom_self ancestor
    | head above _ ih => exact (derivesFrom_parent above).2 (.inr ih)

theorem derivesFrom_trans {a b c : TypeId} (h : r.derivesFrom a b = true)
    (h' : r.derivesFrom b c = true) : r.derivesFrom a c = true :=
  derivesFrom_iff.2 ((derivesFrom_iff.1 h).trans (derivesFrom_iff.1 h'))

/-- Ancestors are registered first. -/
theorem index_le_of_derivesFrom (derives : r.derivesFrom type ancestor = true) :
    ancestor.index ≤ type.index := by
  induction type using r.parent_induction with
  | orphan type above =>
    exact Nat.le_of_eq (congrArg TypeId.index (eq_of_derivesFrom_orphan above derives))
  | child type parent above ih =>
    rcases (derivesFrom_parent above).1 derives with rfl | derives
    · exact Nat.le_refl _
    · exact Nat.le_trans (ih derives) (Nat.le_of_lt (r.parent?_lt above))

theorem derivesFrom_antisymm {a b : TypeId} (h : r.derivesFrom a b = true)
    (h' : r.derivesFrom b a = true) : a = b := by
  have same : a.index = b.index :=
    Nat.le_antisymm (index_le_of_derivesFrom h') (index_le_of_derivesFrom h)
  exact congrArg TypeId.mk same

theorem wellFounded_parent (r : Registry) :
    WellFounded fun parent type => r.parent? type = some parent :=
  Subrelation.wf (fun above => r.parent?_lt above) (measure TypeId.index).wf

section Nearest

variable {α : Type} (own : Ty → Option α) {x : α}

/-- What the nearest type declares, of a type and its ancestors. Fields and methods are found so. -/
def nearest? (r : Registry) (type : TypeId) : Option α :=
  (r.ancestry type).findSome? fun t => own (r.get t)

theorem nearest?_own (declared : own (r.get type) = some x) : nearest? own r type = some x := by
  rw [nearest?, ancestry_unfold]
  cases r.parent? type <;> simp [declared]

theorem nearest?_orphan (h : r.parent? type = none) : nearest? own r type = own (r.get type) := by
  rw [nearest?, ancestry_unfold, h]
  cases declared : own (r.get type) <;> simp [declared]

theorem nearest?_inherited {parent : TypeId} (h : r.parent? type = some parent)
    (nothing : own (r.get type) = none) : nearest? own r type = nearest? own r parent := by
  rw [nearest?, ancestry_unfold, h, nearest?]
  simp [nothing]

/-- The first type from parent to parent that declares anything is `owner`, and it declares `x`. -/
inductive Nearest (r : Registry) : TypeId → TypeId → α → Prop
  | own {type : TypeId} {x : α} (declared : own (r.get type) = some x) : Nearest r type type x
  | inherited {type parent owner : TypeId} {x : α} (nothing : own (r.get type) = none)
    (above : r.parent? type = some parent) (rest : Nearest r parent owner x) :
    Nearest r type owner x

variable {own}

theorem Nearest.declared (h : Nearest own r type owner x) : own (r.get owner) = some x := by
  induction h with
  | own declared => exact declared
  | inherited _ _ _ ih => exact ih

theorem Nearest.derivesFrom (h : Nearest own r type owner x) : r.derivesFrom type owner = true := by
  induction h with
  | own => exact derivesFrom_self _
  | inherited _ above _ ih => exact (derivesFrom_parent above).2 (.inr ih)

theorem nearest?_eq_some_iff (own : Ty → Option α) :
    nearest? own r type = some x ↔ ∃ owner, Nearest own r type owner x := by
  constructor
  · intro found
    induction type using r.parent_induction with
    | orphan type above =>
      rw [nearest?_orphan own above] at found
      exact ⟨type, .own found⟩
    | child type parent above ih =>
      cases declared : own (r.get type) with
      | some y =>
        rw [nearest?_own own declared] at found
        exact ⟨type, .own (declared.trans found)⟩
      | none =>
        rw [nearest?_inherited own above declared] at found
        obtain ⟨owner, rest⟩ := ih found
        exact ⟨owner, .inherited declared above rest⟩
  · rintro ⟨owner, nearest⟩
    induction nearest with
    | own declared => exact nearest?_own own declared
    | inherited nothing above _ ih => rw [nearest?_inherited own above nothing, ih]

/-- Something is found if any ancestor declares it. -/
theorem isSome_nearest?_iff : (nearest? own r type).isSome = true ↔
    ∃ owner, r.derivesFrom type owner = true ∧ (own (r.get owner)).isSome = true := by
  rw [nearest?, List.findSome?_isSome_iff]
  exact exists_congr fun owner => and_congr_left' List.contains_iff_mem.symm

/-- What an ancestor has, a type has as well, from the nearest type that declares it. -/
theorem exists_nearest_of_derivesFrom (own : Ty → Option α)
    (derives : r.derivesFrom type ancestor = true) (has : (nearest? own r ancestor).isSome = true) :
    ∃ owner x, Nearest own r type owner x ∧ nearest? own r type = some x := by
  obtain ⟨owner, above, declared⟩ := isSome_nearest?_iff.1 has
  have found := isSome_nearest?_iff.2 ⟨owner, derivesFrom_trans derives above, declared⟩
  obtain ⟨x, found⟩ := Option.isSome_iff_exists.1 found
  obtain ⟨owner, nearest⟩ := (nearest?_eq_some_iff own).1 found
  exact ⟨owner, x, nearest, found⟩

end Nearest

/-- Whether a type derives from `ancestor`, looking at `steps` types from parent to parent. -/
def derivesWithin (r : Registry) (ancestor : TypeId) : Nat → TypeId → Option Bool
  | 0, _ => none
  | steps + 1, type =>
    if type = ancestor then some true
    else
      match r.parent? type with
      | none => some false
      | some parent => r.derivesWithin ancestor steps parent

def nearestWithin {α : Type} (own : Ty → Option α) (r : Registry) : Nat → TypeId → Option (Option α)
  | 0, _ => none
  | steps + 1, type =>
    match own (r.get type), r.parent? type with
    | some x, _ => some (some x)
    | none, none => some none
    | none, some parent => nearestWithin own r steps parent

def fieldsWithin (r : Registry) : Nat → TypeId → Option (List (String × TypeId))
  | 0, _ => none
  | steps + 1, type =>
    match r.parent? type with
    | none => some (shadow [] (r.ownFields type))
    | some parent => (r.fieldsWithin steps parent).map (shadow · (r.ownFields type))

/-- No type has more ancestors than there are types before it. -/
theorem derivesWithin_eq {steps : Nat} (enough : type.index < steps) :
    r.derivesWithin ancestor steps type = some (r.derivesFrom type ancestor) := by
  induction steps generalizing type with
  | zero => cases enough
  | succ steps ih =>
    rw [derivesWithin]
    split
    · rename_i same
      rw [same, derivesFrom_self]
    · rename_i other
      split
      · rename_i above
        rw [Option.some_inj, eq_comm, ← Bool.not_eq_true]
        exact fun derives => other (eq_of_derivesFrom_orphan above derives).symm
      · rename_i parent above
        have lt := r.parent?_lt above
        rw [ih (by omega), Option.some_inj, Bool.eq_iff_iff, derivesFrom_parent above]
        exact (or_iff_right (Ne.symm other)).symm

theorem nearestWithin_eq {α : Type} (own : Ty → Option α) {steps : Nat}
    (enough : type.index < steps) : nearestWithin own r steps type = some (nearest? own r type) := by
  induction steps generalizing type with
  | zero => cases enough
  | succ steps ih =>
    rw [nearestWithin]
    split
    · rename_i x declared
      rw [nearest?_own own declared]
    · rename_i nothing above
      rw [nearest?_orphan own above, nothing]
    · rename_i parent nothing above
      have lt := r.parent?_lt above
      rw [ih (by omega), nearest?_inherited own above nothing]

theorem fieldsWithin_eq {steps : Nat} (enough : type.index < steps) :
    r.fieldsWithin steps type = some (r.fields type) := by
  induction steps generalizing type with
  | zero => cases enough
  | succ steps ih =>
    rw [fieldsWithin, fields, ancestry_unfold]
    cases above : r.parent? type with
    | none => rfl
    | some parent =>
      have lt := r.parent?_lt above
      dsimp only
      rw [ih (by omega)]
      rfl

theorem findMethod?_own (h : (r.get type).ownMethod? name = some f) :
    r.findMethod? type name = some f :=
  nearest?_own (·.ownMethod? name) h

theorem findMethod?_inherited {parent : TypeId} (h : r.parent? type = some parent)
    (none : (r.get type).ownMethod? name = none) :
    r.findMethod? type name = r.findMethod? parent name :=
  nearest?_inherited (·.ownMethod? name) h none

/-- A method that is found belongs to an ancestor. -/
theorem exists_owner (h : r.findMethod? type name = some f) :
    ∃ owner, r.derivesFrom type owner = true ∧ (r.get owner).ownMethod? name = some f := by
  obtain ⟨owner, nearest⟩ := (nearest?_eq_some_iff (·.ownMethod? name)).1 h
  exact ⟨owner, nearest.derivesFrom, nearest.declared⟩

end ObjectLang.Registry
