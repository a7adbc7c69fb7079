import ObjectLang.Proofs.Program.Interning
set_option autoImplicit false

/-!
# Equality of types

Types are trees: arrays and references are their inner nodes, and any other type is a leaf. The base of
all objects stands for anything at the leaves. Two types are equal if their trees have a common instance,
which is what becomes of a tree when any trees take the place of the base. This relation is not
transitive. What is declared or made later does not change it.
-/

namespace ObjectLang

inductive TypeTree
  | leaf (id : TypeId)
  | array (element : TypeTree)
  | reference (referent : TypeTree)
  deriving DecidableEq, Repr

/-- Trees take the place of occurrences of the base of all objects, at each of them another one. -/
inductive TypeTree.HasInstance : TypeTree → TypeTree → Prop
  | base (t : TypeTree) : HasInstance (.leaf .object) t
  | leaf (id : TypeId) : HasInstance (.leaf id) (.leaf id)
  | array {s t : TypeTree} (inside : HasInstance s t) : HasInstance (.array s) (.array t)
  | reference {s t : TypeTree} (inside : HasInstance s t) : HasInstance (.reference s) (.reference t)

theorem TypeTree.hasInstance_self (t : TypeTree) : t.HasInstance t := by
  induction t with
  | leaf id => exact .leaf id
  | array element ih => exact .array ih
  | reference referent ih => exact .reference ih

namespace TypeTree.HasInstance

variable {s t : TypeTree} {id : TypeId}

theorem leaf_cases (h : s.HasInstance (.leaf id)) : s = .leaf .object ∨ s = .leaf id := by
  cases h with
  | base => exact .inl rfl
  | leaf => exact .inr rfl

theorem array_cases (h : s.HasInstance (.array t)) :
    s = .leaf .object ∨ ∃ element, s = .array element ∧ element.HasInstance t := by
  cases h with
  | base => exact .inl rfl
  | array inside => exact .inr ⟨_, rfl, inside⟩

theorem reference_cases (h : s.HasInstance (.reference t)) :
    s = .leaf .object ∨ ∃ referent, s = .reference referent ∧ referent.HasInstance t := by
  cases h with
  | base => exact .inl rfl
  | reference inside => exact .inr ⟨_, rfl, inside⟩

end TypeTree.HasInstance

namespace Registry

def tree (r : Registry) (id : TypeId) : TypeTree :=
  match _h : r.get id with
  | .array element => .array (r.tree element)
  | .reference referent => .reference (r.tree referent)
  | _ => .leaf id
termination_by id.index
decreasing_by
  all_goals exact r.components_get_lt id (by simp [_h, Ty.components])

variable {r r' : Registry} {a b x y : TypeId}

theorem tree_unfold (r : Registry) (id : TypeId) :
    r.tree id = match r.get id with
      | .array element => .array (r.tree element)
      | .reference referent => .reference (r.tree referent)
      | _ => .leaf id := by
  rw [tree]
  split <;> simp_all

theorem tree_array (h : r.get a = .array x) : r.tree a = .array (r.tree x) := by
  rw [tree_unfold, h]

theorem tree_reference (h : r.get a = .reference x) : r.tree a = .reference (r.tree x) := by
  rw [tree_unfold, h]

theorem tree_cases (r : Registry) (a : TypeId) :
    (∃ x, r.get a = .array x ∧ r.tree a = .array (r.tree x)) ∨
      (∃ x, r.get a = .reference x ∧ r.tree a = .reference (r.tree x)) ∨ r.tree a = .leaf a := by
  rw [tree_unfold]
  cases r.get a with
  | array x => exact .inl ⟨x, rfl, rfl⟩
  | reference x => exact .inr (.inl ⟨x, rfl, rfl⟩)
  | primitive | object | list => exact .inr (.inr rfl)

theorem eq_of_tree_leaf (h : r.tree a = .leaf b) : a = b := by
  obtain ⟨x, -, same⟩ | ⟨x, -, same⟩ | same := r.tree_cases a <;> rw [same] at h <;> cases h
  rfl

theorem array_of_tree {t : TypeTree} (h : r.tree a = .array t) :
    ∃ x, r.get a = .array x ∧ r.tree x = t := by
  obtain ⟨x, built, same⟩ | ⟨x, -, same⟩ | same := r.tree_cases a <;> rw [same] at h <;> cases h
  exact ⟨x, built, rfl⟩

theorem reference_of_tree {t : TypeTree} (h : r.tree a = .reference t) :
    ∃ x, r.get a = .reference x ∧ r.tree x = t := by
  obtain ⟨x, -, same⟩ | ⟨x, built, same⟩ | same := r.tree_cases a <;> rw [same] at h <;> cases h
  exact ⟨x, built, rfl⟩

/-- Of two equal types, one is an instance of the other: a tree has a single leaf, so the base stands in
one of them at most where the other goes on. -/
theorem hasInstance_of_equals (base : r.tree .object = .leaf .object) {a b : TypeId}
    (equal : r.equals a b = true) :
    (r.tree a).HasInstance (r.tree b) ∨ (r.tree b).HasInstance (r.tree a) := by
  rw [equals_eq, Bool.or_eq_true, Bool.or_eq_true, Bool.or_eq_true, beq_iff_eq, beq_iff_eq,
    beq_iff_eq] at equal
  obtain ((rfl | rfl) | rfl) | inside := equal
  · exact .inl (TypeTree.hasInstance_self _)
  · exact .inl (base ▸ .base _)
  · exact .inr (base ▸ .base _)
  · split at inside
    · rename_i x y ha hb
      have : x.index < a.index := r.components_get_lt a (by simp [ha, Ty.components])
      rw [tree_array ha, tree_array hb]
      exact (hasInstance_of_equals base inside).imp .array .array
    · rename_i x y ha hb
      have : x.index < a.index := r.components_get_lt a (by simp [ha, Ty.components])
      rw [tree_reference ha, tree_reference hb]
      exact (hasInstance_of_equals base inside).imp .reference .reference
    · cases inside
termination_by a.index

theorem equals_object_left (r : Registry) (b : TypeId) : r.equals .object b = true := by
  rw [equals_eq, beq_self_eq_true, Bool.or_true, Bool.true_or, Bool.true_or]

theorem equals_object_right (r : Registry) (a : TypeId) : r.equals a .object = true := by
  rw [equals_eq, beq_self_eq_true, Bool.or_true, Bool.true_or]

theorem equals_of_array (ha : r.get a = .array x) (hb : r.get b = .array y)
    (inside : r.equals x y = true) : r.equals a b = true := by
  rw [equals_eq, ha, hb]
  exact Bool.or_eq_true_iff.2 (.inr inside)

theorem equals_of_reference (ha : r.get a = .reference x) (hb : r.get b = .reference y)
    (inside : r.equals x y = true) : r.equals a b = true := by
  rw [equals_eq, ha, hb]
  exact Bool.or_eq_true_iff.2 (.inr inside)

/-- What is in the leaf of the instance is the leaf of both, or the base stands in one of them above it. -/
theorem equals_of_hasInstance {t : TypeTree} (left : (r.tree a).HasInstance t)
    (right : (r.tree b).HasInstance t) : r.equals a b = true := by
  induction t generalizing a b with
  | leaf id =>
    obtain same | same := left.leaf_cases <;> obtain rfl := eq_of_tree_leaf same
    · exact r.equals_object_left b
    · obtain same | same := right.leaf_cases <;> obtain rfl := eq_of_tree_leaf same
      · exact r.equals_object_right a
      · exact r.equals_refl b
  | array element ih =>
    obtain same | ⟨s, same, left⟩ := left.array_cases
    · exact eq_of_tree_leaf same ▸ r.equals_object_left b
    · obtain ⟨x, ha, rfl⟩ := array_of_tree same
      obtain same | ⟨t, same, right⟩ := right.array_cases
      · exact eq_of_tree_leaf same ▸ r.equals_object_right a
      · obtain ⟨y, hb, rfl⟩ := array_of_tree same
        exact equals_of_array ha hb (ih left right)
  | reference referent ih =>
    obtain same | ⟨s, same, left⟩ := left.reference_cases
    · exact eq_of_tree_leaf same ▸ r.equals_object_left b
    · obtain ⟨x, ha, rfl⟩ := reference_of_tree same
      obtain same | ⟨t, same, right⟩ := right.reference_cases
      · exact eq_of_tree_leaf same ▸ r.equals_object_right a
      · obtain ⟨y, hb, rfl⟩ := reference_of_tree same
        exact equals_of_reference ha hb (ih left right)

theorem equals_iff_instance (base : r.tree .object = .leaf .object) :
    r.equals a b = true ↔ ∃ t, (r.tree a).HasInstance t ∧ (r.tree b).HasInstance t := by
  constructor
  · intro equal
    obtain above | above := hasInstance_of_equals base equal
    · exact ⟨r.tree b, above, TypeTree.hasInstance_self _⟩
    · exact ⟨r.tree a, TypeTree.hasInstance_self _, above⟩
  · rintro ⟨t, left, right⟩
    exact equals_of_hasInstance left right

theorem equals_arrays (base : r.tree .object = .leaf .object) (ha : r.get a = .array x)
    (hb : r.get b = .array y) : r.equals a b = r.equals x y := by
  rw [Bool.eq_iff_iff, equals_iff_instance base, equals_iff_instance base, tree_array ha, tree_array hb]
  constructor
  · rintro ⟨t, left, right⟩
    cases left with
    | array left =>
      cases right with
      | array right => exact ⟨_, left, right⟩
  · rintro ⟨t, left, right⟩
    exact ⟨.array t, .array left, .array right⟩

theorem equals_references (base : r.tree .object = .leaf .object) (ha : r.get a = .reference x)
    (hb : r.get b = .reference y) : r.equals a b = r.equals x y := by
  rw [Bool.eq_iff_iff, equals_iff_instance base, equals_iff_instance base, tree_reference ha,
    tree_reference hb]
  constructor
  · rintro ⟨t, left, right⟩
    cases left with
    | reference left =>
      cases right with
      | reference right => exact ⟨_, left, right⟩
  · rintro ⟨t, left, right⟩
    exact ⟨.reference t, .reference left, .reference right⟩

theorem equals_symm (base : r.tree .object = .leaf .object) (a b : TypeId) :
    r.equals a b = r.equals b a := by
  rw [Bool.eq_iff_iff, equals_iff_instance base, equals_iff_instance base]
  exact exists_congr fun t => and_comm

theorem KeepsShape.tree_eq (h : KeepsShape r r') {a : TypeId} (known : r.Knows a) :
    r'.tree a = r.tree a := by
  obtain ⟨change, same⟩ := h.get a known
  have part (c : TypeId) (hc : c ∈ (r.get a).components) : r'.tree c = r.tree c :=
    have lt := r.components_get_lt a hc
    tree_eq h (knows_component known hc)
  rw [r'.tree_unfold, r.tree_unfold, same]
  cases ha : r.get a with
  | array x => exact congrArg TypeTree.array (part x (by simp [ha, Ty.components]))
  | reference x => exact congrArg TypeTree.reference (part x (by simp [ha, Ty.components]))
  | primitive | object | list => rfl
termination_by a.index

end Registry

namespace Program

variable {p q : Program} {a b : TypeId}

theorem Operations.tree_object (made : Operations {} p) : p.types.tree .object = .leaf .object := by
  rw [made.keepsShape.tree_eq (by decide), Registry.tree_unfold]
  rfl

theorem Operations.equals_arrayOf (made : Operations {} p) (ha : p.types.Knows a)
    (hb : p.types.Knows b) :
    ((p.arrayOf a).2.arrayOf b).2.types.equals (p.arrayOf a).1 ((p.arrayOf a).2.arrayOf b).1 =
      p.types.equals a b := by
  have hb' : (p.arrayOf a).2.types.Knows b := (p.extends_arrayOf a).knows hb
  have first : p.Operations (p.arrayOf a).2 := .single (.arrayOf a ha)
  have both : p.Operations ((p.arrayOf a).2.arrayOf b).2 := first.tail (.arrayOf b hb')
  have base := Operations.tree_object (made.trans both)
  have grown := Registry.grows_arrayOf (p.arrayOf a).2.types b
  have left := (grown.get_eq (knows_arrayOf ha)).trans (get_arrayOf ha)
  rw [Registry.equals_arrays base left (get_arrayOf hb')]
  exact both.keepsShape.equals_eq ha hb

theorem Operations.equals_referenceTo (made : Operations {} p) (ha : p.types.Knows a)
    (hb : p.types.Knows b) :
    ((p.referenceTo a).2.referenceTo b).2.types.equals (p.referenceTo a).1
        ((p.referenceTo a).2.referenceTo b).1 = p.types.equals a b := by
  have hb' : (p.referenceTo a).2.types.Knows b := (p.extends_referenceTo a).knows hb
  have first : p.Operations (p.referenceTo a).2 := .single (.referenceTo a ha)
  have both : p.Operations ((p.referenceTo a).2.referenceTo b).2 := first.tail (.referenceTo b hb')
  have base := Operations.tree_object (made.trans both)
  have grown := Registry.grows_referenceTo (p.referenceTo a).2.types b
  have left := (grown.get_eq (knows_referenceTo ha)).trans (get_referenceTo ha)
  rw [Registry.equals_references base left (get_referenceTo hb')]
  exact both.keepsShape.equals_eq ha hb

structure ComparesTypes (p : Program) : Prop where
  /-- A comparison looks at no more pairs of types than there are types before the first one. -/
  ends : ∀ a b, p.types.equalsWithin (a.index + 1) a b = some (p.types.equals a b)
  refl : ∀ a, p.types.equals a a = true
  symm : ∀ a b, p.types.equals a b = p.types.equals b a
  arrays : ∀ a b, p.types.Knows a → p.types.Knows b →
    ((p.arrayOf a).2.arrayOf b).2.types.equals (p.arrayOf a).1 ((p.arrayOf a).2.arrayOf b).1 =
      p.types.equals a b
  references : ∀ a b, p.types.Knows a → p.types.Knows b →
    ((p.referenceTo a).2.referenceTo b).2.types.equals (p.referenceTo a).1
      ((p.referenceTo a).2.referenceTo b).1 = p.types.equals a b
  unifies : ∀ a b, p.types.equals a b = true ↔
    ∃ t, (p.types.tree a).HasInstance t ∧ (p.types.tree b).HasInstance t
  /-- The common instance is one of the two types. -/
  meets : ∀ a b, p.types.equals a b = true →
    (p.types.tree a).HasInstance (p.types.tree b) ∨ (p.types.tree b).HasInstance (p.types.tree a)
  stays : ∀ q, p.Operations q → ∀ a b, p.types.Knows a → p.types.Knows b →
    q.types.equals a b = p.types.equals a b

end Program

/-- **Equality of types is unification**, where the base of all objects stands for any type. -/
theorem Reachable.compares_types {modules : List Module} {p : Program}
    (reached : Reachable modules p) : p.ComparesTypes where
  ends _ _ := Registry.equalsWithin_eq (Nat.lt_succ_self _)
  refl := p.types.equals_refl
  symm := Registry.equals_symm reached.operations.tree_object
  arrays _ _ ha hb := reached.operations.equals_arrayOf ha hb
  references _ _ ha hb := reached.operations.equals_referenceTo ha hb
  unifies _ _ := Registry.equals_iff_instance reached.operations.tree_object
  meets _ _ equal := Registry.hasInstance_of_equals reached.operations.tree_object equal
  stays _ later _ _ ha hb := later.keepsShape.equals_eq ha hb

/-- Arrays of `Int`, of `Char` and of any object: the last equal both others, which differ. -/
def threeArrays : Program :=
  (((({} : Program).arrayOf .int).2.arrayOf .char).2.arrayOf .object).2

theorem compares_threeArrays : Reachable [] threeArrays ∧ threeArrays.ComparesTypes ∧
    threeArrays.types.equals ⟨6⟩ ⟨8⟩ = true ∧ threeArrays.types.equals ⟨8⟩ ⟨7⟩ = true ∧
      threeArrays.types.equals ⟨6⟩ ⟨7⟩ = false := by
  have reached : Reachable [] threeArrays :=
    ((Reachable.new.operation (.arrayOf .int (by decide))).operation
      (.arrayOf .char (by decide +kernel))).operation (.arrayOf .object (by decide +kernel))
  have compares := Reachable.compares_types reached
  refine ⟨reached, compares, ?_, ?_, ?_⟩
  · exact Option.some.inj ((compares.ends _ _).symm.trans (by decide +kernel))
  · exact Option.some.inj ((compares.ends _ _).symm.trans (by decide +kernel))
  · exact Option.some.inj ((compares.ends _ _).symm.trans (by decide +kernel))

end ObjectLang
