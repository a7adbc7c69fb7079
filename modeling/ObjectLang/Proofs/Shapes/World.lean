import ObjectLang.Machine.Arithmetic
import ObjectLang.Proofs.Lists.Heap
import ObjectLang.Proofs.Program.Layout
import ObjectLang.Proofs.Shapes.Flow
set_option autoImplicit false

/-!
# Heaps of a shape

What is known of a heap, apart from what is stored in it: the shape that the slots of each array were
made for, and the type of each object. What is known only grows. A heap is as described if objects have
the fields of their types and whatever is stored fits the slot or the field that it is in.
-/

namespace ObjectLang

/-- What the slots of the arrays were made for, and the types of the objects. -/
structure World where
  arrays : List Shape := []
  objects : List TypeId := []

namespace World

structure Grows (W W' : World) : Prop where
  arrays : W.arrays <+: W'.arrays
  objects : W.objects <+: W'.objects

theorem getElem?_of_prefix {α : Type} {l l' : List α} (h : l <+: l') {i : Nat} {a : α}
    (known : l[i]? = some a) : l'[i]? = some a := by
  obtain ⟨inside, rfl⟩ := List.getElem?_eq_some_iff.1 known
  exact List.prefix_iff_getElem?.1 h i inside

theorem Grows.refl (W : World) : W.Grows W := ⟨List.prefix_rfl, List.prefix_rfl⟩

theorem Grows.trans {W W' W'' : World} (h : W.Grows W') (h' : W'.Grows W'') : W.Grows W'' :=
  ⟨h.arrays.trans h'.arrays, h.objects.trans h'.objects⟩

end World

def Value.isScalar : Value → Bool
  | .object _ | .array _ => false
  | _ => true

/-- The value passes for `s`. -/
def Value.Fits (types : Registry) (W : World) (s : Shape) : Value → Prop
  | .array ref => ∃ slots, W.arrays[ref.index]? = some slots ∧ types.passes (.array slots) s = true
  | .object ref => ∃ type, W.objects[ref.index]? = some type ∧ types.passes (.object type) s = true
  | _ => True

section Values

variable {types : Registry} {W W' : World} {s s' : Shape} {v : Value}

theorem Value.fits_of_isScalar (h : v.isScalar = true) : v.Fits types W s := by
  cases v with
  | object => cases h
  | array => cases h
  | _ => trivial

theorem Value.Fits.grows (fits : v.Fits types W s) (h : W.Grows W') : v.Fits types W' s := by
  cases v with
  | array ref =>
    obtain ⟨slots, known, passes⟩ := fits
    exact ⟨slots, World.getElem?_of_prefix h.arrays known, passes⟩
  | object ref =>
    obtain ⟨type, known, passes⟩ := fits
    exact ⟨type, World.getElem?_of_prefix h.objects known, passes⟩
  | _ => trivial

theorem Value.Fits.passes (fits : v.Fits types W s) (h : types.passes s s' = true) :
    v.Fits types W s' := by
  cases v with
  | array ref =>
    obtain ⟨slots, known, passes⟩ := fits
    exact ⟨slots, known, Registry.passes_trans passes h⟩
  | object ref =>
    obtain ⟨type, known, passes⟩ := fits
    exact ⟨type, known, Registry.passes_trans passes h⟩
  | _ => trivial

theorem Value.Fits.toAny (fits : v.Fits types W s) : v.Fits types W .any :=
  fits.passes (types.passes_any s)

theorem Value.Fits.slots {ref : ArrayRef} (fits : (Value.array ref).Fits types W (.array s)) :
    W.arrays[ref.index]? = some s := by
  obtain ⟨slots, known, passes⟩ := fits
  exact known.trans (congrArg some (beq_iff_eq.1 passes))

theorem Value.Fits.derives {ref : ObjectRef} {type : TypeId}
    (fits : (Value.object ref).Fits types W (.object type)) :
    ∃ derived, W.objects[ref.index]? = some derived ∧ types.derivesFrom derived type = true := fits

theorem Value.isScalar_ofLiteral (literal : Literal) : (Value.ofLiteral literal).isScalar = true := by
  cases literal <;> rfl

theorem Value.isScalar_exact {result : Option Word} {v : Value} (h : Value.exact result = .ok v) :
    v.isScalar = true := by
  unfold Value.exact at h
  split at h <;> cases h
  rfl

/-- A cast makes numbers of numbers and leaves everything else alone. -/
theorem Value.cast_cases {v w : Value} {type : TypeId} (h : v.cast type = .ok w) :
    w = v ∨ w.isScalar = true := by
  unfold Value.cast at h
  split at h
  · split at h
    · split at h <;> cases h
      exact .inr rfl
    · cases h
      exact .inr rfl
  · split at h
    · exact .inr (isScalar_exact h)
    · cases h
      exact .inr rfl
  · cases h
    exact .inl rfl

end Values

namespace BinaryOperator

theorem isScalar_applyInt {op : BinaryOperator} {a b : Word} {v : Value}
    (h : op.applyInt a b = some (.ok v)) : v.isScalar = true := by
  unfold applyInt at h
  split at h <;> try cases h
  all_goals first
    | rfl
    | exact Value.isScalar_exact (Option.some.inj h)
    | split at h
  · cases h
  · exact Value.isScalar_exact (Option.some.inj h)

theorem isScalar_applyFloat {op : BinaryOperator} {a b : Float} {v : Value}
    (h : op.applyFloat a b = some v) : v.isScalar = true := by
  unfold applyFloat at h
  split at h <;> cases h <;> rfl

theorem isScalar_applyChar {op : BinaryOperator} {a b : String} {v : Value}
    (h : op.applyChar a b = some v) : v.isScalar = true := by
  unfold applyChar at h
  split at h <;> cases h <;> rfl

theorem isScalar_applyBool {op : BinaryOperator} {a b : Bool} {v : Value}
    (h : op.applyBool a b = some v) : v.isScalar = true := by
  unfold applyBool at h
  split at h <;> cases h <;> rfl

theorem isScalar_applyKnown {op : BinaryOperator} {a b v : Value}
    (h : op.applyKnown a b = some (.ok v)) : v.isScalar = true := by
  unfold applyKnown at h
  split at h
  · exact isScalar_applyInt h
  · obtain ⟨value, found, same⟩ := Option.map_eq_some_iff.1 h
    cases same
    exact isScalar_applyFloat found
  · obtain ⟨value, found, same⟩ := Option.map_eq_some_iff.1 h
    cases same
    exact isScalar_applyChar found
  · obtain ⟨value, found, same⟩ := Option.map_eq_some_iff.1 h
    cases same
    exact isScalar_applyBool found
  · cases h

theorem isScalar_apply {op : BinaryOperator} {a b v : Value} (h : op.apply a b = .ok v) :
    v.isScalar = true := by
  unfold apply at h
  split at h
  · cases h
    rfl
  · cases h
    rfl
  · cases known : op.applyKnown a b with
    | none =>
      rw [known] at h
      cases h
    | some result =>
      rw [known, Option.getD_some] at h
      exact isScalar_applyKnown (known.trans (congrArg some h))

end BinaryOperator

theorem NameMap.mem_or_find?_foldl_insert {α : Type} {es : List (String × α)} {m : NameMap α}
    {name : String} {value : α}
    (h : (es.foldl (fun m e => m.insert e.1 e.2) m).find? name = some value) :
    (name, value) ∈ es ∨ m.find? name = some value := by
  induction es generalizing m with
  | nil => exact .inr h
  | cons e rest ih =>
    rcases ih h with later | here
    · exact .inl (List.mem_cons_of_mem _ later)
    · by_cases same : name = e.1
      · rw [same, find?_insert_self] at here
        cases here
        exact .inl (same ▸ List.mem_cons_self)
      · rw [find?_insert_of_ne _ same] at here
        exact .inr here

theorem NameMap.mem_of_find?_ofList {α : Type} {es : List (String × α)} {name : String} {value : α}
    (h : (ofList es).find? name = some value) : (name, value) ∈ es := by
  rcases mem_or_find?_foldl_insert h with mem | none
  · exact mem
  · cases none

/-- Objects have the fields that are found in their types, and what is stored in the heap fits the place
    that it is in. -/
structure World.Describes (types : Registry) (W : World) (h : Heap) : Prop where
  arrays : W.arrays.length = h.arrays.size
  objects : W.objects = h.objects.toList.map ObjectCell.type
  known : ∀ type ∈ W.objects, types.Knows type
  slots : ∀ (ref : ArrayRef) slots, W.arrays[ref.index]? = some slots →
    ∀ v ∈ h.array ref, v.Fits types W slots.asSlot
  fields : ∀ (ref : ObjectRef) type, W.objects[ref.index]? = some type →
    ∀ name v, (h.object ref).fields.find? name = some v →
      ∀ field, types.fieldType? type name = some field → v.Fits types W (types.shape field)
  layout : ∀ (ref : ObjectRef) type, W.objects[ref.index]? = some type →
    ∀ name, ((h.object ref).fields.find? name).isSome = (types.fieldType? type name).isSome

namespace World.Describes

variable {p : Program} {types : Registry} {W : World} {h : Heap} {s : Shape}

/-- The heap has gone on to one where more is known, and `v` fits there. -/
def Goes (types : Registry) (W : World) (s : Shape) (next : Value × Heap) : Prop :=
  ∃ W', W.Grows W' ∧ W'.Describes types next.2 ∧ next.1.Fits types W' s

theorem empty (types : Registry) : ({} : World).Describes types {} := by
  refine ⟨rfl, rfl, List.forall_mem_nil _, fun ref slots known => ?_, fun ref type known => ?_,
    fun ref type known => ?_⟩ <;> cases known

theorem lt_of_array (hW : W.Describes types h) {ref : ArrayRef}
    (known : W.arrays[ref.index]? = some s) : ref.index < h.arrays.size :=
  hW.arrays ▸ (List.getElem?_eq_some_iff.1 known).1

theorem lt_of_object (hW : W.Describes types h) {ref : ObjectRef} {type : TypeId}
    (known : W.objects[ref.index]? = some type) : ref.index < h.objects.size := by
  have inside := (List.getElem?_eq_some_iff.1 known).1
  rwa [hW.objects, List.length_map, Array.length_toList] at inside

theorem type_eq (hW : W.Describes types h) {ref : ObjectRef} {type : TypeId}
    (known : W.objects[ref.index]? = some type) : (h.object ref).type = type := by
  have inside := hW.lt_of_object known
  rw [hW.objects, List.getElem?_map, Array.getElem?_toList, Array.getElem?_eq_getElem inside] at known
  rw [Heap.object, Array.getElem?_eq_getElem inside]
  exact Option.some.inj known

theorem newArray (hW : W.Describes types h) {items : Array Value}
    (fits : ∀ v ∈ items, v.Fits types W s.asSlot) :
    Goes types W (.array s) (h.newArray items) := by
  have grows : W.Grows { W with arrays := W.arrays ++ [s] } :=
    ⟨List.prefix_append _ _, List.prefix_rfl⟩
  refine ⟨_, grows, ⟨?_, hW.objects, hW.known, ?_, ?_, hW.layout⟩, s, ?_,
    Registry.passes_refl types _⟩
  · simp only [Heap.newArray, List.length_append, hW.arrays, Array.size_push, List.length_singleton]
  · intro ref slots known v mem
    by_cases old : ref.index < h.arrays.size
    · have before : W.arrays[ref.index]? = some slots := by
        rwa [List.getElem?_append_left (hW.arrays ▸ old)] at known
      have kept := (h.changes_newArray (A := fun _ => False) (B := fun _ => False) items).array ref
        old not_false
      exact (hW.slots ref slots before v (kept ▸ mem)).grows grows
    · have last : ref = ⟨h.arrays.size⟩ := by
        have inside := (List.getElem?_eq_some_iff.1 known).1
        rw [List.length_append, List.length_singleton, hW.arrays] at inside
        exact congrArg ArrayRef.mk (by omega)
      subst last
      rw [← hW.arrays, List.getElem?_concat_length] at known
      cases known
      rw [Heap.array_newArray] at mem
      exact (fits v mem).grows grows
  · exact fun ref type known name v found field has =>
      (hW.fields ref type known name v found field has).grows grows
  · rw [← hW.arrays]
    exact List.getElem?_concat_length

theorem newObject (hW : W.Describes types h) {cell : ObjectCell} (known : types.Knows cell.type)
    (laid : ∀ name,
      (cell.fields.find? name).isSome = (types.fieldType? cell.type name).isSome)
    (fits : ∀ name v, cell.fields.find? name = some v →
      ∀ field, types.fieldType? cell.type name = some field → v.Fits types W (types.shape field)) :
    Goes types W (.object cell.type) (h.newObject cell) := by
  have grows : W.Grows { W with objects := W.objects ++ [cell.type] } :=
    ⟨List.prefix_rfl, List.prefix_append _ _⟩
  have size : W.objects.length = h.objects.size := by
    rw [hW.objects, List.length_map, Array.length_toList]
  -- an object is one that was there, or the new one
  have cases {ref : ObjectRef} {type : TypeId}
      (known : (W.objects ++ [cell.type])[ref.index]? = some type) :
      (W.objects[ref.index]? = some type ∧ (h.newObject cell).2.object ref = h.object ref) ∨
        (type = cell.type ∧ (h.newObject cell).2.object ref = cell) := by
    by_cases old : ref.index < h.objects.size
    · rw [List.getElem?_append_left (size ▸ old)] at known
      exact .inl ⟨known, (h.changes_newObject (A := fun _ => False) (B := fun _ => False) cell).object
        ref old not_false⟩
    · have last : ref = ⟨h.objects.size⟩ := by
        have inside := (List.getElem?_eq_some_iff.1 known).1
        rw [List.length_append, List.length_singleton, size] at inside
        exact congrArg ObjectRef.mk (by omega)
      subst last
      rw [← size, List.getElem?_concat_length] at known
      exact .inr ⟨(Option.some.inj known).symm, h.object_newObject cell⟩
  refine ⟨_, grows, ⟨hW.arrays, ?_, ?_, ?_, ?_, ?_⟩, cell.type, ?_, Registry.passes_refl types _⟩
  · simp only [Heap.newObject, Array.toList_push, List.map_append, hW.objects, List.map_cons,
      List.map_nil]
  · exact List.forall_mem_append.2 ⟨hW.known, fun t mem => List.mem_singleton.1 mem ▸ known⟩
  · exact fun ref slots known v mem => (hW.slots ref slots known v mem).grows grows
  · intro ref type known name v found field has
    rcases cases known with ⟨before, kept⟩ | ⟨rfl, new⟩
    · exact (hW.fields ref type before name v (kept ▸ found) field has).grows grows
    · exact (fits name v (new ▸ found) field has).grows grows
  · intro ref type known name
    rcases cases known with ⟨before, kept⟩ | ⟨rfl, new⟩
    · rw [kept]
      exact hW.layout ref type before name
    · rw [new]
      exact laid name
  · rw [← size]
    exact List.getElem?_concat_length

theorem default (hW : W.Describes types h) (type : TypeId) :
    Goes types W (types.shape type).asSlot (h.default types type) := by
  unfold Heap.default
  split
  · exact ⟨W, .refl W, hW, trivial⟩
  split
  · exact ⟨W, .refl W, hW, trivial⟩
  split
  · exact ⟨W, .refl W, hW, trivial⟩
  split
  · exact ⟨W, .refl W, hW, trivial⟩
  split
  · rename_i stored
    obtain ⟨element, found⟩ := Option.isSome_iff_exists.1 stored
    rw [Registry.shape_array (Typing.get_of_element? found)]
    exact hW.newArray fun v mem => absurd mem (Array.not_mem_empty v)
  · exact ⟨W, .refl W, hW, trivial⟩

theorem defaults (hW : W.Describes types h) (layout : List (String × TypeId)) :
    ∃ W', W.Grows W' ∧ W'.Describes types (h.defaults types layout).2 ∧
      ∀ x ∈ (h.defaults types layout).1, ∃ field, (x.1, field) ∈ layout ∧
        x.2.Fits types W' (types.shape field) := by
  induction layout generalizing W h with
  | nil => exact ⟨W, .refl W, hW, fun x mem => absurd mem List.not_mem_nil⟩
  | cons y rest ih =>
    obtain ⟨W', grows, hW', fits⟩ := hW.default y.2
    obtain ⟨W'', grows', hW'', all⟩ := ih hW'
    refine ⟨W'', grows.trans grows', hW'', List.forall_mem_cons.2 ⟨⟨y.2, List.mem_cons_self, ?_⟩, ?_⟩⟩
    · exact (fits.grows grows').passes (types.passes_asSlot _)
    · intro x mem
      obtain ⟨field, inside, fits⟩ := all x mem
      exact ⟨field, List.mem_cons_of_mem _ inside, fits⟩

theorem instantiate (hW : W.Describes p.types h) (agree : p.FieldsAgree) {type : TypeId}
    (known : p.types.Knows type) : Goes p.types W (.object type) (h.instantiate p.types type) := by
  obtain ⟨W', grows, hW', all⟩ := hW.defaults (p.types.fields type)
  let cell : ObjectCell := ⟨type, .ofList (h.defaults p.types (p.types.fields type)).1⟩
  have names := h.names_defaults p.types (p.types.fields type)
  have laid (name : String) :
      (cell.fields.find? name).isSome = (p.types.fieldType? cell.type name).isSome := by
    have found : cell.fields.find? name = _ :=
      NameMap.find?_ofList (names ▸ p.types.nodup_fields type) name
    rw [found, Bool.eq_iff_iff, isSome_lookup, names]
    exact Registry.mem_names_fields
  have fit (name : String) (v : Value) (found : cell.fields.find? name = some v) (field : TypeId)
      (has : p.types.fieldType? cell.type name = some field) :
      v.Fits p.types W' (p.types.shape field) := by
    obtain ⟨own, mem, fits⟩ := all (name, v) (NameMap.mem_of_find?_ofList found)
    have same := agree.laid_out known mem
    rw [has] at same
    exact (Option.some.inj same).symm ▸ fits
  obtain ⟨W'', grows', hW'', fits⟩ := hW'.newObject known laid fit
  exact ⟨W'', grows.trans grows', hW'', fits⟩

theorem fill (hW : W.Describes types h) {v : Value} (fits : v.Fits types W s.asSlot) {size : Nat}
    {next : Value × Heap} (done : h.fill v size = .ok next) : Goes types W (.array s) next := by
  unfold Heap.fill at done
  split at done
  · cases done
    exact hW.newArray fun w mem => (Array.mem_replicate.1 mem).2 ▸ fits
  · cases done

theorem mem_of_mem_extract {items : Array Value} {v : Value} {start stop : Nat}
    (h : v ∈ items.extract start stop) : v ∈ items := by
  rw [← Array.mem_toList_iff, Array.toList_extract, List.extract_eq_take_drop] at h
  exact Array.mem_toList_iff.1 (List.mem_of_mem_drop (List.mem_of_mem_take h))

theorem modifyArray (hW : W.Describes types h) (ref : ArrayRef)
    {change : Array Value → Array Value} (fits : ∀ slots, W.arrays[ref.index]? = some slots →
      ∀ v ∈ change (h.array ref), v.Fits types W slots.asSlot) :
    W.Describes types { h with arrays := h.arrays.modify ref.index change } := by
  refine ⟨hW.arrays.trans Array.size_modify.symm, hW.objects, hW.known, ?_, hW.fields, hW.layout⟩
  intro other slots known v mem
  by_cases same : other = ref
  · subst same
    rw [Heap.array_modifyArray h (hW.lt_of_array known)] at mem
    exact fits slots known v mem
  · have kept := (Heap.changes_modifyArray (A := fun _ => False) h ref change).array other
      (hW.lt_of_array known) same
    exact hW.slots other slots known v (kept ▸ mem)

/-- What is stored in a slot must fit it, whatever the type that the array is read through. -/
theorem setSlot (hW : W.Describes types h) {ref : ArrayRef} {v : Value}
    (stored : (Value.array ref).Fits types W (.array s)) (fits : v.Fits types W s.asSlot)
    (place : Nat) : W.Describes types (h.setSlot ref place v) := by
  refine hW.modifyArray ref fun slots known w mem => ?_
  cases known.symm.trans stored.slots
  rcases Array.mem_or_eq_of_mem_setIfInBounds mem with old | rfl
  · exact hW.slots ref _ known w old
  · exact fits

theorem copySlots (hW : W.Describes types h) {dest src : ArrayRef}
    (hd : (Value.array dest).Fits types W (.array s)) (hs : (Value.array src).Fits types W (.array s))
    (count : Nat) : W.Describes types (h.copySlots dest src count) := by
  refine hW.modifyArray dest fun slots known w mem => ?_
  cases known.symm.trans hd.slots
  rcases Array.mem_append.1 mem with first | rest
  · exact hW.slots src _ hs.slots w (mem_of_mem_extract first)
  · exact hW.slots dest _ known w (mem_of_mem_extract rest)

theorem readSlot (hW : W.Describes types h) {ref : ArrayRef}
    (stored : (Value.array ref).Fits types W (.array s)) (place : Nat) :
    ((h.array ref)[place]?.getD .void).Fits types W s := by
  cases found : (h.array ref)[place]? with
  | none => trivial
  | some v =>
    exact (hW.slots ref s stored.slots v (Array.mem_of_getElem? found)).passes (types.passes_asSlot s)

section Fields

variable {ref : ObjectRef} {owner field : TypeId} {name : String} {v : Value}

theorem readField (hW : W.Describes p.types h) (agree : p.FieldsAgree)
    (base : (Value.object ref).Fits p.types W (.object owner))
    (declared : p.types.fieldType? owner name = some field)
    (found : (h.object ref).fields.find? name = some v) : v.Fits p.types W (p.types.shape field) := by
  obtain ⟨type, known, derives⟩ := base.derives
  have same := agree.inherited (hW.known type (List.mem_of_getElem? known)) derives declared
  obtain ⟨own, has, same⟩ := Option.map_eq_some_iff.1 same
  exact same ▸ hW.fields ref type known name v found own has

theorem setField (hW : W.Describes p.types h) (agree : p.FieldsAgree)
    (base : (Value.object ref).Fits p.types W (.object owner))
    (declared : p.types.fieldType? owner name = some field)
    (fits : v.Fits p.types W (p.types.shape field)) :
    W.Describes p.types (h.setField ref name v) := by
  obtain ⟨derived, typed, derives⟩ := base.derives
  have inside := hW.lt_of_object typed
  have agreed := agree.inherited (hW.known derived (List.mem_of_getElem? typed)) derives declared
  refine ⟨hW.arrays, ?_, hW.known, hW.slots, ?_, ?_⟩
  · rw [hW.objects]
    refine List.ext_getElem? fun i => ?_
    rw [List.getElem?_map, List.getElem?_map, Array.getElem?_toList, Array.getElem?_toList,
      Heap.setField, Array.getElem?_modify]
    split
    · cases h.objects[i]? <;> rfl
    · rfl
  · intro other type known name' w found field' has
    by_cases same : other = ref
    · subst same
      cases known.symm.trans typed
      rw [Heap.find?_setField h inside] at found
      split at found
      · rename_i here
        subst here
        cases found
        rw [has] at agreed
        exact (Option.some.inj agreed).symm ▸ fits
      · exact hW.fields other derived typed name' w found field' has
    · rw [Heap.object_setField h ref name v same] at found
      exact hW.fields other type known name' w found field' has
  · intro other type known name'
    by_cases same : other = ref
    · subst same
      cases known.symm.trans typed
      rw [Heap.find?_setField h inside]
      split
      · -- the field is one that the object has
        rename_i here
        obtain ⟨own, has, -⟩ := Option.map_eq_some_iff.1 agreed
        rw [here, has]
        rfl
      · exact hW.layout other derived typed name'
    · rw [Heap.object_setField h ref name v same]
      exact hW.layout other type known name'

end Fields
end World.Describes
end ObjectLang
