import ObjectLang.Proofs.Lists.Heap
import ObjectLang.Proofs.Program.Operation
set_option autoImplicit false

/-!
# Layouts of objects

A machine may note the fields of types, those of a module when it loads the module and others when it
first needs them. Since the types stay what they are during a run, a note tells what would be looked
up now. A new object has the fields that are found by name, and every field begins with the default
value of its type.
-/

namespace ObjectLang

abbrev Layouts := List (TypeId × List (String × TypeId))

namespace Layouts

def generate (l : Layouts) (types : Registry) (type : TypeId) : Layouts :=
  (type, types.fields type) :: l

/-- The fields of a type as noted, or else as they are found and noted now. -/
def layout (l : Layouts) (types : Registry) (type : TypeId) :
    List (String × TypeId) × Layouts :=
  match l.lookup type with
  | some fields => (fields, l)
  | none => (types.fields type, l.generate types type)

def instantiate (l : Layouts) (h : Heap) (types : Registry) (type : TypeId) :
    (Value × Heap) × Layouts :=
  let (layout, l) := l.layout types type
  let (fields, h) := h.defaults types layout
  (h.newObject ⟨type, .ofList fields⟩, l)

/-- Notes that were made of one registry, in any order. -/
inductive Made (types : Registry) : Layouts → Prop
  | nil : Made types []
  | generate {l : Layouts} (made : Made types l) (type : TypeId) : Made types (l.generate types type)
  | layout {l : Layouts} (made : Made types l) (type : TypeId) :
    Made types (l.layout types type).2

variable {types : Registry} {l : Layouts}

theorem lookup_generate {type other : TypeId} {fields : List (String × TypeId)}
    (noted : ∀ fields, l.lookup other = some fields → fields = types.fields other)
    (h : (l.generate types type).lookup other = some fields) : fields = types.fields other := by
  rw [generate, List.lookup_cons] at h
  split at h
  · rename_i same
    rw [beq_iff_eq.1 same]
    exact (Option.some.inj h).symm
  · exact noted fields h

theorem Made.lookup (made : Made types l) {type : TypeId} {fields : List (String × TypeId)}
    (h : l.lookup type = some fields) : fields = types.fields type := by
  induction made generalizing fields with
  | nil => cases h
  | generate made other ih => exact lookup_generate (fun _ => ih) h
  | layout made other ih =>
    unfold Layouts.layout at h
    split at h
    · exact ih h
    · exact lookup_generate (fun _ => ih) h

theorem Made.layout_eq (made : Made types l) (type : TypeId) :
    (l.layout types type).1 = types.fields type := by
  unfold Layouts.layout
  split
  · rename_i fields noted
    exact made.lookup noted
  · rfl

/-- Whether a layout was noted or not makes no difference to the object. -/
theorem Made.instantiate_eq (made : Made types l) (h : Heap) (type : TypeId) :
    (l.instantiate h types type).1 = h.instantiate types type := by
  rw [instantiate, Heap.instantiate, ← made.layout_eq type]

end Layouts

namespace Heap

variable {A : ObjectRef → Prop} {B : ArrayRef → Prop} {types : Registry} {h h' : Heap}

/-- From `h` to `h'` a place of the type was made with the value in it. An array is empty, and it was
    not there before. -/
inductive Begins (types : Registry) (h h' : Heap) : TypeId → Value → Prop
  | int : Begins types h h' .int (.int 0)
  | float : Begins types h h' .float (.float 0.0)
  | bool : Begins types h h' .bool (.bool false)
  | char : Begins types h h' .char (.char "")
  | array {type element : TypeId} (built : types.get type = .array element) {b : ArrayRef}
    (fresh : h.arrays.size ≤ b.index) (inside : b.index < h'.arrays.size)
    (empty : h'.array b = #[]) : Begins types h h' type (.array b)
  | void {type : TypeId} (plain : type ∉ [TypeId.int, .float, .bool, .char])
    (single : ∀ element, types.get type ≠ .array element) : Begins types h h' type .void

theorem begins_default (h : Heap) (types : Registry) (type : TypeId) :
    Begins types h (h.default types type).2 type (h.default types type).1 := by
  by_cases int : type = .int
  · subst int
    exact .int
  by_cases float : type = .float
  · subst float
    exact .float
  by_cases bool : type = .bool
  · subst bool
    exact .bool
  by_cases char : type = .char
  · subst char
    exact .char
  rw [default, if_neg int, if_neg float, if_neg bool, if_neg char, Registry.element?]
  cases built : types.get type with
  | array element =>
    refine .array built (Nat.le_refl _) ?_ (h.array_newArray #[])
    exact Nat.lt_of_lt_of_eq (Nat.lt_succ_self _) (Array.size_push _).symm
  | _ => exact .void (by simp [int, float, bool, char]) (by simp [built])

theorem Begins.widen {type : TypeId} {value : Value} (begins : Begins types h h' type value)
    {first last : Heap} (before : Changes A B first h)
    (behind : Changes (fun _ => False) (fun _ => False) h' last) :
    Begins types first last type value := by
  cases begins with
  | array built fresh inside empty =>
    refine .array built (Nat.le_trans before.arrays fresh)
      (Nat.lt_of_lt_of_le inside behind.arrays) ?_
    rw [behind.array _ inside not_false, empty]
  | void plain single => exact .void plain single
  | int => exact .int
  | float => exact .float
  | bool => exact .bool
  | char => exact .char

/-- Every field of a layout begins with the default value of its type. -/
theorem begins_defaults (h : Heap) (types : Registry) {layout : List (String × TypeId)}
    {name : String} {type : TypeId} (found : layout.lookup name = some type) :
    ∃ value, (h.defaults types layout).1.lookup name = some value ∧
      Begins types h (h.defaults types layout).2 type value := by
  induction layout generalizing h with
  | nil => cases found
  | cons x rest ih =>
    obtain ⟨key, own⟩ := x
    have begins := begins_default h types own
    rw [List.lookup_cons] at found
    simp only [defaults, List.lookup_cons]
    split at found
    · cases found
      exact ⟨_, rfl, begins.widen (Changes.refl (A := fun _ => False) (B := fun _ => False) h)
        (changes_defaults _ types rest)⟩
    · obtain ⟨value, stored, begins⟩ := ih (h.default types own).2 found
      exact ⟨value, stored, begins.widen
        (changes_default (A := fun _ => False) (B := fun _ => False) h types own) (.refl _)⟩

/-- The object is new, and it has the fields that are found in its type, each as it begins. -/
structure Instance (h : Heap) (types : Registry) (type : TypeId) (h' : Heap) (ref : ObjectRef) :
    Prop where
  fresh : h.objects.size ≤ ref.index
  inside : ref.index < h'.objects.size
  typed : (h'.object ref).type = type
  distinct : (h'.object ref).fields.names.Nodup
  fields : ∀ name, name ∈ (h'.object ref).fields.names ↔ (types.fieldType? type name).isSome
  begins : ∀ name field, types.fieldType? type name = some field →
    ∃ value, (h'.object ref).fields.find? name = some value ∧ Begins types h h' field value

theorem objects_default (h : Heap) (types : Registry) (type : TypeId) :
    (h.default types type).2.objects = h.objects := by
  simp only [default, newArray]
  split_ifs <;> rfl

theorem objects_defaults (h : Heap) (types : Registry) (layout : List (String × TypeId)) :
    (h.defaults types layout).2.objects = h.objects := by
  induction layout generalizing h with
  | nil => rfl
  | cons x rest ih => exact (ih _).trans (h.objects_default types x.2)

theorem instantiate_eq (h : Heap) (types : Registry) (type : TypeId) :
    (h.instantiate types type).1 = .object ⟨h.objects.size⟩ := by
  simp only [instantiate, newObject, objects_defaults]

theorem size_instantiate (h : Heap) (types : Registry) (type : TypeId) :
    (h.instantiate types type).2.objects.size = h.objects.size + 1 := by
  simp only [instantiate, newObject, Array.size_push, objects_defaults]

theorem object_instantiate (h : Heap) (types : Registry) (type : TypeId) :
    (h.instantiate types type).2.object ⟨h.objects.size⟩ =
      ⟨type, .ofList (h.defaults types (types.fields type)).1⟩ := by
  have last := object_newObject (h.defaults types (types.fields type)).2
    ⟨type, .ofList (h.defaults types (types.fields type)).1⟩
  rw [objects_defaults] at last
  exact last

theorem object_instantiate_cases (h : Heap) (types : Registry) (type : TypeId) {ref : ObjectRef}
    (inside : ref.index < (h.instantiate types type).2.objects.size) :
    (ref.index < h.objects.size ∧ (h.instantiate types type).2.object ref = h.object ref) ∨
      ref = ⟨h.objects.size⟩ := by
  rw [size_instantiate] at inside
  rcases Nat.lt_succ_iff_lt_or_eq.1 inside with old | last
  · exact .inl ⟨old, (changes_instantiate (A := fun _ => False) (B := fun _ => False) h types
      type).object ref old not_false⟩
  · exact .inr (congrArg ObjectRef.mk last)

theorem type_setField (h : Heap) (a : ObjectRef) (name : String) (value : Value) (ref : ObjectRef) :
    ((h.setField a name value).object ref).type = (h.object ref).type := by
  simp only [setField, object, Array.getElem?_modify]
  split
  · cases h.objects[ref.index]? <;> rfl
  · rfl

theorem find?_instantiate (h : Heap) (types : Registry) (type : TypeId) (name : String) :
    ((h.instantiate types type).2.object ⟨h.objects.size⟩).fields.find? name =
      (h.defaults types (types.fields type)).1.lookup name := by
  rw [object_instantiate]
  exact NameMap.find?_ofList (h.names_defaults types _ ▸ types.nodup_fields type) name

/-- The new object has the fields that are found in its type. -/
theorem mem_names_instantiate (h : Heap) (types : Registry) (type : TypeId) (name : String) :
    name ∈ ((h.instantiate types type).2.object ⟨h.objects.size⟩).fields.names ↔
      (types.fieldType? type name).isSome := by
  rw [NameMap.mem_names, find?_instantiate, isSome_lookup, names_defaults,
    Registry.mem_names_fields]

theorem instance_instantiate (ordered : types.Ordered) (h : Heap) (type : TypeId) :
    h.Instance types type (h.instantiate types type).2 ⟨h.objects.size⟩ where
  fresh := Nat.le_refl _
  inside := Nat.lt_of_lt_of_eq (Nat.lt_succ_self _) (h.size_instantiate types type).symm
  typed := by rw [object_instantiate]
  distinct := by
    rw [object_instantiate]
    exact (NameMap.ordered_ofList _).nodup_names
  fields := h.mem_names_instantiate types type
  begins name field has := by
    rw [← ordered.lookup_fields] at has
    obtain ⟨value, stored, begins⟩ := begins_defaults h types has
    refine ⟨value, (h.find?_instantiate types type name).trans stored, ?_⟩
    exact begins.widen (Changes.refl (A := fun _ => False) (B := fun _ => False) h)
      (changes_newObject _ _)

end Heap

namespace Program

variable {p : Program}

/-- **Layout and lookup agree.** However a program was made, a layout lists no name twice, and it lists
    a field exactly where the lookup of its name finds it with that type, whatever is inherited and
    shadowed. So a new object, with its layout noted or not, has exactly the fields that are found in
    its type, and each begins with the default value of the type it is found with. -/
theorem layouts_agree (made : Operations {} p) (type : TypeId) :
    ((p.types.fields type).map Prod.fst).Nodup ∧
      (∀ name field, (name, field) ∈ p.types.fields type ↔
        p.types.fieldType? type name = some field) ∧
      ∀ noted : Layouts, noted.Made p.types → ∀ h : Heap,
        ∃ ref h', (noted.instantiate h p.types type).1 = (.object ref, h') ∧
          h.instantiate p.types type = (.object ref, h') ∧ h.Instance p.types type h' ref := by
  have ordered := made.ordered_made
  refine ⟨p.types.nodup_fields type, fun name field => ordered.mem_fields, ?_⟩
  intro noted correct h
  have both : h.instantiate p.types type = (.object ⟨h.objects.size⟩, (h.instantiate p.types type).2) :=
    Prod.ext (h.instantiate_eq p.types type) rfl
  exact ⟨_, _, (correct.instantiate_eq h type).trans both, both,
    Heap.instance_instantiate ordered h type⟩

/-- Two types with a field `x`, the second derived from the first. -/
def shadowing : Program :=
  let (base, types) := Registry.initial.declare "Base" none
  let types := (types.addField base "x" .int).addField base "y" .int
  let (derived, types) := types.declare "Derived" (some base)
  { types := types.addField derived "x" .float }

theorem shadowing_made : Operations {} shadowing := by
  have base := Operation.declare (p := {}) "Base" none nofun
  have x := Operation.addField (p := { types := (Registry.initial.declare "Base" none).2 })
    ⟨6⟩ "x" .int
  refine ((Relation.ReflTransGen.single base).tail x |>.tail (.addField ⟨6⟩ "y" .int)
    |>.tail (.declare "Derived" (some ⟨6⟩) ?_)).tail (.addField ⟨7⟩ "x" .float)
  decide

/-- The field `x` of the derived type stands behind `y`, which is inherited. -/
theorem layouts_agree_shadowing : Operations {} shadowing ∧
    shadowing.types.fields ⟨7⟩ = [("y", .int), ("x", .float)] ∧
    (("x", .float) ∈ shadowing.types.fields ⟨7⟩ ↔
      shadowing.types.fieldType? ⟨7⟩ "x" = some .float) :=
  ⟨shadowing_made, by decide +kernel, (layouts_agree shadowing_made ⟨7⟩).2.1 "x" .float⟩

end Program
end ObjectLang
