import ObjectLang.Proofs.Program.Operation
set_option autoImplicit false

/-!
# Structural types

Arrays, references and lists are built from one component each, and the same component always gives the
same type. A registry can be searched for it, and this is what the registry itself does; or the types
that were built can be noted in tables, one for each way of building. Whatever is done to a program,
both find the same types: each structural type is the only one of its kind, and the tables have no
other entries.
-/

namespace ObjectLang

theorem Ty.components_array (element : TypeId) : (Ty.array element).components = [element] := rfl

theorem Ty.components_reference (referent : TypeId) :
    (Ty.reference referent).components = [referent] := rfl

/-- The ways to build a type from one component. -/
inductive Former
  | array | reference | list
  deriving DecidableEq, Repr

def Former.builds : Former → TypeId → Ty → Bool
  | array => Registry.isArrayOf
  | reference => Registry.isReferenceTo
  | list => Registry.isListOf

namespace Former

theorem builds_array {k : Former} {c element : TypeId} :
    k.builds c (.array element) = true ↔ k = .array ∧ element = c := by
  cases k <;> simp [builds, Registry.isArrayOf, Registry.isReferenceTo, Registry.isListOf]

theorem builds_reference {k : Former} {c referent : TypeId} :
    k.builds c (.reference referent) = true ↔ k = .reference ∧ referent = c := by
  cases k <;> simp [builds, Registry.isArrayOf, Registry.isReferenceTo, Registry.isListOf]

theorem builds_list {k : Former} {c element : TypeId} {members : Members} :
    k.builds c (.list element members) = true ↔ k = .list ∧ element = c := by
  cases k <;> simp [builds, Registry.isArrayOf, Registry.isReferenceTo, Registry.isListOf]

theorem builds_mapMembers (k : Former) (c : TypeId) (change : Members → Members) (t : Ty) :
    k.builds c (t.mapMembers change) = k.builds c t := by
  cases k <;> cases t <;> rfl

theorem array_iff {c : TypeId} {t : Ty} : array.builds c t = true ↔ t = .array c := by
  cases t <;> simp [builds, Registry.isArrayOf]

theorem reference_iff {c : TypeId} {t : Ty} : reference.builds c t = true ↔ t = .reference c := by
  cases t <;> simp [builds, Registry.isReferenceTo]

theorem list_iff {c : TypeId} {t : Ty} :
    list.builds c t = true ↔ ∃ members, t = .list c members := by
  cases t <;> simp [builds, Registry.isListOf]

/-- What is built from a component is not `Void`, which stands for handles never given out. -/
theorem knows_of_builds {k : Former} {c a : TypeId} {r : Registry}
    (h : k.builds c (r.get a) = true) : r.Knows a := by
  refine Registry.knows_of_get_ne_void fun void => ?_
  rw [void] at h
  cases k <;> cases h

end Former

namespace Registry

variable {r : Registry} {p : Ty → Bool}

theorem find?_add_eq (r : Registry) (p : Ty → Bool) {t : Ty}
    (known : ∀ c ∈ t.components, c.index < r.size) :
    (r.add t known).2.find? p = (r.find? p).or (if p t then some ⟨r.size⟩ else none) := by
  simp only [find?, add, Array.findIdx?_push, size]
  cases r.types.findIdx? p with
  | none => split <;> rfl
  | some i => rfl

theorem find?_modifyMembers (r : Registry) (owner : TypeId) {change : Members → Members}
    (blind : ∀ t : Ty, p (t.mapMembers change) = p t) :
    (r.modifyMembers owner change).find? p = r.find? p := by
  have same : (r.types.modify owner.index (Ty.mapMembers change)).map p = r.types.map p := by
    apply Array.ext_getElem?
    intro i
    rw [Array.getElem?_map, Array.getElem?_map, Array.getElem?_modify]
    split
    · cases r.types[i]? with
      | none => rfl
      | some t => exact congrArg some (blind t)
    · rfl
  have search (types : Array Ty) : types.findIdx? p = (types.map p).findIdx? id := by
    rw [Array.findIdx?_map]
    rfl
  rw [find?, find?, search r.types, ← same, ← search]
  rfl

theorem find?_intern_of_not (r : Registry) (found : Option TypeId) {component : TypeId} {t : Ty}
    (built : t.components = [component]) (other : p t = false) :
    (r.intern found component t built).2.find? p = r.find? p := by
  rcases intern_cases r found component t built with same | ⟨known, same⟩
  · rw [same]
  · rw [same, find?_add_eq, other]
    exact Option.or_none

/-- Every structural type is the one that is found for its component. -/
def Interned (r : Registry) : Prop :=
  ∀ (k : Former) (c a : TypeId), k.builds c (r.get a) = true → r.find? (k.builds c) = some a

theorem Interned.found_iff (h : r.Interned) {k : Former} {c a : TypeId} :
    r.find? (k.builds c) = some a ↔ k.builds c (r.get a) = true :=
  ⟨fun found => (get_of_find? found).2, h k c a⟩

theorem interned_initial : initial.Interned := by
  intro k c a built
  rcases get_initial a with ⟨p, stored⟩ | stored <;> rw [stored] at built <;> cases k <;> cases built

theorem Interned.add (h : r.Interned) {t : Ty} (known : ∀ c ∈ t.components, c.index < r.size)
    (new : ∀ (k : Former) (c : TypeId), k.builds c t = true → r.find? (k.builds c) = none) :
    (r.add t known).2.Interned := by
  intro k c a built
  rw [get_add] at built
  rw [find?_add_eq]
  split at built
  · rename_i last
    rw [new k c built, built, ← last]
    rfl
  · rw [h k c a built]
    rfl

theorem Interned.modifyMembers (h : r.Interned) (owner : TypeId) (change : Members → Members) :
    (r.modifyMembers owner change).Interned := by
  intro k c a built
  rw [find?_modifyMembers r owner (k.builds_mapMembers c change)]
  apply h k c a
  rw [get_modifyMembers] at built
  split at built
  · rwa [k.builds_mapMembers] at built
  · exact built

theorem Interned.intern (h : r.Interned) {k : Former} {component : TypeId} {t : Ty}
    (built : t.components = [component])
    (only : ∀ {l : Former} {c : TypeId}, l.builds c t = true ↔ l = k ∧ component = c) :
    (r.intern (r.find? (k.builds component)) component t built).2.Interned := by
  cases found : r.find? (k.builds component) with
  | some id => exact h
  | none =>
    unfold Registry.intern
    dsimp only
    split
    · refine h.add _ fun l c other => ?_
      obtain ⟨rfl, rfl⟩ := only.1 other
      exact found
    · exact h

theorem Interned.arrayOf (h : r.Interned) (element : TypeId) : (r.arrayOf element).2.Interned :=
  h.intern (k := .array) rfl Former.builds_array

theorem Interned.referenceTo (h : r.Interned) (referent : TypeId) :
    (r.referenceTo referent).2.Interned :=
  h.intern (k := .reference) rfl Former.builds_reference

theorem Interned.declare (h : r.Interned) (name : String) (parent : Option TypeId) :
    (r.declare name parent).2.Interned := by
  unfold Registry.declare
  exact h.add _ fun k c built => by cases k <;> cases built

theorem findList?_arrayOf (r : Registry) (element other : TypeId) :
    (r.arrayOf element).2.findList? other = r.findList? other :=
  find?_intern_of_not r _ rfl rfl

/-- The spelling of a type, looking at `depth` types inside one another. -/
def nameWithin (r : Registry) : Nat → TypeId → Option String
  | 0, _ => none
  | depth + 1, id =>
    match r.get id with
    | .primitive p => some p.name
    | .object name _ _ => some name
    | .array element => (r.nameWithin depth element).map fun name => "<" ++ name ++ ">"
    | .reference referent => (r.nameWithin depth referent).map ("&" ++ ·)
    | .list element _ => (r.nameWithin depth element).map fun name => "[" ++ name ++ "]"

/-- Equality of types, looking at `depth` pairs inside one another. -/
def equalsWithin (r : Registry) : Nat → TypeId → TypeId → Option Bool
  | 0, _, _ => none
  | depth + 1, a, b =>
    if a == b || a == .object || b == .object then some true
    else
      match r.get a, r.get b with
      | .array x, .array y => r.equalsWithin depth x y
      | .reference x, .reference y => r.equalsWithin depth x y
      | _, _ => some false

/-- No type has more types inside one another than there are before it. -/
theorem nameWithin_eq {depth : Nat} {id : TypeId} (enough : id.index < depth) :
    r.nameWithin depth id = some (r.name id) := by
  induction depth generalizing id with
  | zero => cases enough
  | succ depth ih =>
    have part (c : TypeId) (hc : c ∈ (r.get id).components) :
        r.nameWithin depth c = some (r.name c) := by
      have := r.components_get_lt id hc
      exact ih (by omega)
    rw [nameWithin, name_unfold]
    cases shape : r.get id with
    | primitive p => rfl
    | object name parent members => rfl
    | array element =>
      dsimp only
      rw [part element (by simp [shape, Ty.components])]
      rfl
    | reference referent =>
      dsimp only
      rw [part referent (by simp [shape, Ty.components])]
      rfl
    | list element members =>
      dsimp only
      rw [part element (by simp [shape, Ty.components])]
      rfl

theorem equalsWithin_eq {depth : Nat} {a b : TypeId} (enough : a.index < depth) :
    r.equalsWithin depth a b = some (r.equals a b) := by
  induction depth generalizing a b with
  | zero => cases enough
  | succ depth ih =>
    have part (x y : TypeId) (hx : x ∈ (r.get a).components) :
        r.equalsWithin depth x y = some (r.equals x y) := by
      have := r.components_get_lt a hx
      exact ih (by omega)
    rw [equalsWithin, equals_eq]
    split
    · rename_i alike
      rw [alike, Bool.true_or]
    · rename_i different
      rw [Bool.not_eq_true] at different
      rw [different, Bool.false_or]
      cases ha : r.get a with
      | array x =>
        cases r.get b with
        | array y => exact part x y (by simp [ha, Ty.components])
        | _ => rfl
      | reference x =>
        cases r.get b with
        | reference y => exact part x y (by simp [ha, Ty.components])
        | _ => rfl
      | _ => rfl

end Registry
end ObjectLang
