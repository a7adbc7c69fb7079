import Mathlib.Data.List.Basic
import ObjectLang.Machine.Heap
set_option autoImplicit false

/-!
# Lists on the heap

What it means that an object of the heap is a list of given values, and what the operations on the
heap leave alone. An operation is described by the objects and arrays that it may change; all others
stay, and nothing is ever removed.
-/

namespace ObjectLang.Heap

/-- The heap has gone on to `h'`. Of the objects and arrays that it had, at most those in `A` and `B`
    have changed. -/
structure Changes (A : ObjectRef → Prop) (B : ArrayRef → Prop) (h h' : Heap) : Prop where
  objects : h.objects.size ≤ h'.objects.size
  arrays : h.arrays.size ≤ h'.arrays.size
  object : ∀ a, a.index < h.objects.size → ¬A a → h'.object a = h.object a
  array : ∀ b, b.index < h.arrays.size → ¬B b → h'.array b = h.array b

variable {A : ObjectRef → Prop} {B : ArrayRef → Prop} {h h' h'' : Heap}

namespace Changes

theorem refl (h : Heap) : Changes A B h h :=
  ⟨Nat.le_refl _, Nat.le_refl _, fun _ _ _ => rfl, fun _ _ _ => rfl⟩

theorem trans (first : Changes A B h h') (next : Changes A B h' h'') : Changes A B h h'' where
  objects := Nat.le_trans first.objects next.objects
  arrays := Nat.le_trans first.arrays next.arrays
  object a ha fixed :=
    (next.object a (Nat.lt_of_lt_of_le ha first.objects) fixed).trans (first.object a ha fixed)
  array b hb fixed :=
    (next.array b (Nat.lt_of_lt_of_le hb first.arrays) fixed).trans (first.array b hb fixed)

/-- What only changes things that were not there before changes nothing. -/
theorem mono {A' : ObjectRef → Prop} {B' : ArrayRef → Prop} (changes : Changes A B h h')
    (objects : ∀ a, a.index < h.objects.size → A a → A' a)
    (arrays : ∀ b, b.index < h.arrays.size → B b → B' b) : Changes A' B' h h' where
  objects := changes.objects
  arrays := changes.arrays
  object a ha fixed := changes.object a ha fun changing => fixed (objects a ha changing)
  array b hb fixed := changes.array b hb fun changing => fixed (arrays b hb changing)

end Changes

theorem changes_newArray (h : Heap) (items : Array Value) :
    Changes A B h (h.newArray items).2 := by
  refine ⟨Nat.le_refl _, ?_, fun _ _ _ => rfl, fun b hb _ => ?_⟩
  · simp only [newArray, Array.size_push]
    omega
  · simp only [newArray, array, Array.getElem?_push_lt hb, Array.getElem?_eq_getElem hb]

theorem changes_newObject (h : Heap) (cell : ObjectCell) : Changes A B h (h.newObject cell).2 := by
  refine ⟨?_, Nat.le_refl _, fun a ha _ => ?_, fun _ _ _ => rfl⟩
  · simp only [newObject, Array.size_push]
    omega
  · simp only [newObject, object, Array.getElem?_push_lt ha, Array.getElem?_eq_getElem ha]

theorem object_setField (h : Heap) (a : ObjectRef) (name : String) (value : Value)
    {a' : ObjectRef} (ne : a' ≠ a) : (h.setField a name value).object a' = h.object a' := by
  have hi : a.index ≠ a'.index := fun same => ne (by cases a; cases a'; simp_all)
  simp only [setField, object, Array.getElem?_modify, if_neg hi]

theorem find?_setField (h : Heap) {a : ObjectRef} (ha : a.index < h.objects.size) (name : String)
    (value : Value) (name' : String) : ((h.setField a name value).object a).fields.find? name' =
      if name' = name then some value else (h.object a).fields.find? name' := by
  simp only [setField, object, Array.getElem?_modify, if_pos, Array.getElem?_eq_getElem ha,
    Option.map_some, Option.getD_some]
  split
  · rename_i same
    rw [same, NameMap.find?_insert_self]
  · rename_i ne
    exact NameMap.find?_insert_of_ne _ ne _

theorem changes_setField (h : Heap) (a : ObjectRef) (name : String) (value : Value) :
    Changes (· = a) B h (h.setField a name value) :=
  ⟨Nat.le_of_eq Array.size_modify.symm, Nat.le_refl _,
    fun _ _ ne => object_setField h a name value ne, fun _ _ _ => rfl⟩

theorem size_setField (h : Heap) (a : ObjectRef) (name : String) (value : Value) :
    (h.setField a name value).objects.size = h.objects.size := Array.size_modify

theorem array_modifyArray_of_ne (h : Heap) {b b' : ArrayRef} (ne : b' ≠ b)
    (change : Array Value → Array Value) :
    ({ h with arrays := h.arrays.modify b.index change } : Heap).array b' = h.array b' := by
  have hi : b.index ≠ b'.index := fun same => ne (by cases b; cases b'; simp_all)
  simp only [array, Array.getElem?_modify, if_neg hi]

theorem changes_modifyArray (h : Heap) (b : ArrayRef) (change : Array Value → Array Value) :
    Changes A (· = b) h { h with arrays := h.arrays.modify b.index change } :=
  ⟨Nat.le_refl _, Nat.le_of_eq Array.size_modify.symm, fun _ _ _ => rfl,
    fun _ _ ne => array_modifyArray_of_ne h ne change⟩

theorem array_modifyArray (h : Heap) {b : ArrayRef} (hb : b.index < h.arrays.size)
    (change : Array Value → Array Value) :
    ({ h with arrays := h.arrays.modify b.index change } : Heap).array b = change (h.array b) := by
  simp only [array, Array.getElem?_modify, if_pos, Array.getElem?_eq_getElem hb, Option.map_some,
    Option.getD_some]

theorem array_copySlots (h : Heap) {dest : ArrayRef} (hd : dest.index < h.arrays.size)
    (src : ArrayRef) (count : Nat) : ((h.copySlots dest src count).array dest).toList =
      (h.array src).toList.take count ++ (h.array dest).toList.drop count := by
  have whole : ((h.array dest).toList.drop count).take ((h.array dest).size - count) =
      (h.array dest).toList.drop count := List.take_of_length_le (by simp)
  rw [copySlots, array_modifyArray h hd, Array.toList_append, Array.toList_extract,
    Array.toList_extract, List.extract_eq_take_drop, List.extract_eq_take_drop, whole,
    List.drop_zero, Nat.sub_zero]

theorem changes_default (h : Heap) (types : Registry) (type : TypeId) :
    Changes A B h (h.default types type).2 := by
  unfold default
  split
  · exact .refl h
  split
  · exact .refl h
  split
  · exact .refl h
  split
  · exact .refl h
  split
  · exact changes_newArray h _
  · exact .refl h

theorem changes_defaults (h : Heap) (types : Registry) (layout : List (String × TypeId)) :
    Changes A B h (h.defaults types layout).2 := by
  induction layout generalizing h with
  | nil => exact .refl h
  | cons x rest ih => exact (changes_default h types x.2).trans (ih _)

theorem changes_instantiate (h : Heap) (types : Registry) (type : TypeId) :
    Changes A B h (h.instantiate types type).2 :=
  (changes_defaults h types _).trans (changes_newObject _ _)

theorem names_defaults (h : Heap) (types : Registry) (layout : List (String × TypeId)) :
    (h.defaults types layout).1.map Prod.fst = layout.map Prod.fst := by
  induction layout generalizing h with
  | nil => rfl
  | cons x rest ih => exact congrArg (x.1 :: ·) (ih _)

theorem lookup_defaults {h : Heap} {types : Registry} {layout : List (String × TypeId)}
    {name : String} {type : TypeId} (found : layout.lookup name = some type)
    (new : ∀ h : Heap, h.default types type = h.newArray #[]) :
    ∃ b : ArrayRef, (h.defaults types layout).1.lookup name = some (.array b) ∧
      h.arrays.size ≤ b.index ∧ b.index < (h.defaults types layout).2.arrays.size := by
  induction layout generalizing h with
  | nil => cases found
  | cons x rest ih =>
    obtain ⟨key, own⟩ := x
    have first := changes_default (A := fun _ => False) (B := fun _ => False) h types own
    rw [List.lookup_cons] at found
    simp only [defaults, List.lookup_cons]
    split at found
    · rename_i same
      cases found
      have behind := changes_defaults (A := fun _ => False) (B := fun _ => False)
        (h.default types type).2 types rest
      rw [new] at behind ⊢
      refine ⟨⟨h.arrays.size⟩, rfl, Nat.le_refl _, ?_⟩
      refine Nat.lt_of_lt_of_le ?_ behind.arrays
      exact Nat.lt_of_lt_of_eq (Nat.lt_succ_self _) (Array.size_push _).symm
    · obtain ⟨b, stored, fresh, inside⟩ := ih (h := (h.default types own).2) found
      exact ⟨b, stored, Nat.le_trans first.arrays fresh, inside⟩

theorem default_array {types : Registry} {array element : TypeId}
    (primitives : ∀ t : Primitive, types.get t.id = .primitive t)
    (type : types.get array = .array element) (h : Heap) :
    h.default types array = h.newArray #[] := by
  have other (t : Primitive) : array ≠ t.id := by
    rintro rfl
    rw [primitives] at type
    cases type
  have stored : (types.element? array).isSome = true := by
    rw [Registry.element?, type]
    rfl
  have int : array ≠ .int := other .int
  have float : array ≠ .float := other .float
  have bool : array ≠ .bool := other .bool
  have char : array ≠ .char := other .char
  rw [default, if_neg int, if_neg float, if_neg bool, if_neg char, if_pos stored]

/-- The object `a` has its elements in the array `b`. These are the values `xs`, and behind them there
    may be more slots. -/
structure Stores (h : Heap) (a : ObjectRef) (b : ArrayRef) (xs : List Value) : Prop where
  object : a.index < h.objects.size
  array : b.index < h.arrays.size
  storage : (h.object a).fields.find? "_arr" = some (.array b)
  size : ∃ n : Word, (h.object a).fields.find? "size" = some (.int n) ∧ n.toInt = xs.length
  elements : xs <+: (h.array b).toList

/-- The object `a` is the list of the values `xs`, with the array `b`. -/
structure Holds (h : Heap) (a : ObjectRef) (b : ArrayRef) (xs : List Value) : Prop
    extends Stores h a b xs where
  slots : ∃ m : Word, (h.object a).fields.find? "max_size" = some (.int m) ∧
    m.toInt = (h.array b).size
  bounded : (h.array b).size ≤ addressable

variable {a : ObjectRef} {b : ArrayRef} {xs : List Value}

theorem Stores.length_le (stores : h.Stores a b xs) : xs.length ≤ (h.array b).size := by
  have := stores.elements.length_le
  rwa [Array.length_toList] at this

theorem Stores.changes (stores : h.Stores a b xs) (changes : Changes A B h h') (ha : ¬A a)
    (hb : ¬B b) : h'.Stores a b xs := by
  have sameObject := changes.object a stores.object ha
  have sameArray := changes.array b stores.array hb
  exact ⟨Nat.lt_of_lt_of_le stores.object changes.objects,
    Nat.lt_of_lt_of_le stores.array changes.arrays, sameObject ▸ stores.storage,
    sameObject ▸ stores.size, sameArray ▸ stores.elements⟩

/-- A new object whose layout has a field `_arr` of an array type is a list without elements, once its
    size is set. -/
theorem stores_instantiate {h : Heap} {types : Registry} {list array element : TypeId}
    (primitives : ∀ t : Primitive, types.get t.id = .primitive t)
    (type : types.get array = .array element)
    (distinct : ((types.fields list).map Prod.fst).Nodup)
    (storage : (types.fields list).lookup "_arr" = some array) :
    ∃ a b, (h.instantiate types list).1 = .object a ∧ h.objects.size ≤ a.index ∧
      h.arrays.size ≤ b.index ∧
      ((h.instantiate types list).2.setField a "size" (.int 0)).Stores a b [] := by
  obtain ⟨b, stored, fresh, inside⟩ := lookup_defaults (h := h) storage
    (default_array primitives type)
  let h' := (h.defaults types (types.fields list)).2
  have kept := changes_defaults (A := fun _ => False) (B := fun _ => False) h types
    (types.fields list)
  let cell : ObjectCell := ⟨list, .ofList (h.defaults types (types.fields list)).1⟩
  have ha : (⟨h'.objects.size⟩ : ObjectRef).index < (h'.newObject cell).2.objects.size :=
    Nat.lt_of_lt_of_eq (Nat.lt_succ_self _) (Array.size_push _).symm
  have reads := find?_setField (h'.newObject cell).2 ha "size" (.int 0)
  rw [object_newObject] at reads
  refine ⟨⟨h'.objects.size⟩, b, rfl, kept.objects, fresh, ⟨?_, inside, ?_, ⟨0, ?_, rfl⟩, ?_⟩⟩
  · rw [size_setField]
    exact ha
  · refine (reads "_arr").trans ?_
    rw [if_neg (by decide), NameMap.find?_ofList (names_defaults h types _ ▸ distinct)]
    exact stored
  · exact reads "size"
  · exact List.nil_prefix

theorem Holds.changes (holds : h.Holds a b xs) (changes : Changes A B h h') (ha : ¬A a)
    (hb : ¬B b) : h'.Holds a b xs := by
  have sameObject := changes.object a holds.object ha
  have sameArray := changes.array b holds.array hb
  exact ⟨holds.toStores.changes changes ha hb, sameArray ▸ sameObject ▸ holds.slots,
    sameArray ▸ holds.bounded⟩

theorem Stores.setField (stores : h.Stores a b xs) (name : String) (value : Value)
    (other : name ≠ "_arr") (other' : name ≠ "size") :
    (h.setField a name value).Stores a b xs := by
  have reads := find?_setField h stores.object name value
  refine ⟨?_, stores.array, ?_, ?_, stores.elements⟩
  · rw [size_setField]
    exact stores.object
  · rw [reads, if_neg other.symm, stores.storage]
  · simp only [reads, if_neg other'.symm]
    exact stores.size

theorem Stores.setStorage (stores : h.Stores a b xs) {b' : ArrayRef} (hb : b'.index < h.arrays.size)
    (elements : xs <+: (h.array b').toList) :
    (h.setField a "_arr" (.array b')).Stores a b' xs := by
  have reads := find?_setField h stores.object "_arr" (.array b')
  refine ⟨?_, hb, ?_, ?_, elements⟩
  · rw [size_setField]
    exact stores.object
  · rw [reads, if_pos rfl]
  · simp only [reads, if_neg (show ¬"size" = "_arr" by decide)]
    exact stores.size

theorem changes_copySlots (h : Heap) (dest src : ArrayRef) (count : Nat) :
    Changes A (· = dest) h (h.copySlots dest src count) := changes_modifyArray h dest _

theorem size_copySlots (h : Heap) {dest src : ArrayRef} (hd : dest.index < h.arrays.size)
    {count : Nat} (hs : count ≤ (h.array src).size) (hc : count ≤ (h.array dest).size) :
    ((h.copySlots dest src count).array dest).size = (h.array dest).size := by
  have length := congrArg List.length (array_copySlots h hd src count)
  rw [List.length_append, List.length_take, List.length_drop] at length
  simp only [Array.length_toList] at length
  omega

/-- A list moves to other storage, which is not among what it had before. -/
theorem Stores.moves (stores : h.Stores a b xs) (changes : Changes (fun _ => False) (fun _ => False)
    h h') {b' : ArrayRef} (fresh : h.arrays.size ≤ b'.index) (hb : b'.index < h'.arrays.size)
    (room : xs.length ≤ (h'.array b').size) (bounded : (h'.array b').size ≤ addressable) {m : Word}
    (hm : m.toInt = (h'.array b').size) :
    let moved := ((h'.setField a "_arr" (.array b')).copySlots b' b xs.length).setField a "max_size"
      (.int m)
    moved.Holds a b' xs ∧ Changes (· = a) (fun _ => False) h moved ∧
      (moved.array b').size = (h'.array b').size := by
  intro moved
  have ne : b ≠ b' := by
    rintro rfl
    exact absurd stores.array (Nat.not_lt.2 fresh)
  have old := stores.changes changes not_false not_false
  -- copying and setting a field may change places
  let h₁ := h'.copySlots b' b xs.length
  have old₁ : h₁.Stores a b xs := old.changes (changes_copySlots (A := fun _ => False) h' b' b _)
    not_false ne
  have inside : b'.index < h₁.arrays.size :=
    Nat.lt_of_lt_of_le hb (changes_copySlots (A := fun _ => False) h' b' b xs.length).arrays
  have size : (h₁.array b').size = (h'.array b').size :=
    size_copySlots h' hb old.length_le room
  have filled : xs <+: (h₁.array b').toList := by
    rw [array_copySlots h' hb, ← List.prefix_iff_eq_take.1 old.elements]
    exact List.prefix_append _ _
  have stored := (old₁.setStorage inside filled).setField "max_size" (.int m) (by decide)
    (by decide)
  refine ⟨⟨stored, ⟨m, ?_, ?_⟩, ?_⟩, ?_, size⟩
  · exact (find?_setField _ (old₁.setStorage inside filled).object _ _ _).trans (if_pos rfl)
  · exact hm.trans (congrArg Nat.cast size.symm)
  · exact size ▸ bounded
  · have all : Changes (· = a) (· = b') h moved :=
      (((changes.mono (fun _ _ no => no.elim) fun _ _ no => no.elim).trans
        (changes_setField h' a _ _)).trans (changes_copySlots _ b' b _)).trans
        (changes_setField _ a _ _)
    refine all.mono (fun _ _ same => same) fun b'' old same => ?_
    exact absurd old (Nat.not_lt.2 (same ▸ fresh))

theorem Holds.modify (holds : h.Holds a b xs) {change : Array Value → Array Value}
    (same : (change (h.array b)).size = (h.array b).size) {ys : List Value}
    (elements : ys <+: (change (h.array b)).toList) {n : Word} (hn : n.toInt = ys.length) :
    let changed := ({ h with arrays := h.arrays.modify b.index change } : Heap).setField a "size"
      (.int n)
    changed.Holds a b ys ∧ Changes (· = a) (· = b) h changed := by
  intro changed
  have reads := find?_setField { h with arrays := h.arrays.modify b.index change } holds.object
    "size" (.int n)
  have slots : changed.array b = change (h.array b) := array_modifyArray h holds.array change
  refine ⟨⟨⟨?_, ?_, ?_, ⟨n, ?_, hn⟩, ?_⟩, ?_, ?_⟩, ?_⟩
  · exact Nat.lt_of_lt_of_eq holds.object (size_setField _ _ _ _).symm
  · exact Nat.lt_of_lt_of_eq holds.array Array.size_modify.symm
  · exact (reads "_arr").trans holds.storage
  · exact reads "size"
  · rw [slots]
    exact elements
  · obtain ⟨m, found, hm⟩ := holds.slots
    refine ⟨m, (reads "max_size").trans found, ?_⟩
    rw [slots, same, hm]
  · rw [slots, same]
    exact holds.bounded
  · exact (changes_modifyArray h b _).trans (changes_setField _ a _ _)

theorem Holds.append (holds : h.Holds a b xs) (room : xs.length < (h.array b).size) (value : Value)
    {n : Word} (hn : n.toInt = xs.length + 1) :
    let grown := (h.setSlot b xs.length value).setField a "size" (.int n)
    grown.Holds a b (xs ++ [value]) ∧ Changes (· = a) (· = b) h grown := by
  refine holds.modify Array.size_setIfInBounds ?_ ?_
  · obtain ⟨more, same⟩ := holds.elements
    have filled : more ≠ [] := by
      rintro rfl
      rw [← Array.length_toList, ← same, List.append_nil] at room
      exact Nat.lt_irrefl _ room
    obtain ⟨slot, more, rfl⟩ := List.exists_cons_of_ne_nil filled
    rw [Array.toList_setIfInBounds, ← same, List.set_append_right _ _ (Nat.le_refl _), Nat.sub_self,
      List.set_cons_zero]
    exact ⟨more, List.append_assoc xs [value] more⟩
  · rw [hn, List.length_append]
    simp

/-- The slots of a list without elements are filled with those of another array. -/
theorem Holds.fill (holds : h.Holds a b []) (b' : ArrayRef) {ys : List Value}
    (items : (h.array b').toList = ys) (whole : ys.length = (h.array b).size) {n : Word}
    (hn : n.toInt = ys.length) :
    let filled := (h.copySlots b b' ys.length).setField a "size" (.int n)
    filled.Holds a b ys ∧ Changes (· = a) (· = b) h filled := by
  have slots : ((h.copySlots b b' ys.length).array b).toList = ys := by
    have rest : (h.array b).toList.drop ys.length = [] := by
      rw [whole, ← Array.length_toList, List.drop_length]
    rw [array_copySlots h holds.array, items, List.take_length, rest, List.append_nil]
  rw [copySlots, array_modifyArray h holds.array] at slots
  refine holds.modify ?_ ?_ hn
  · exact (congrArg List.length slots).trans whole
  · simp only [slots, List.prefix_rfl]

end ObjectLang.Heap
