import ObjectLang.Ty.Registry
set_option autoImplicit false

/-!
# Registries that grow

While functions are checked, new array and reference types may be registered behind the known ones.
What a registry says about the types that it knows stays so: their spelling, their equality, their
fields and methods, and the arrays and references found for them. While files are read, the known types
get members, too. Their spelling, their equality and their ancestors have nothing to do with those.
-/

namespace ObjectLang.Registry

def Knows (r : Registry) (id : TypeId) : Prop := id.index < r.size

instance (r : Registry) (id : TypeId) : Decidable (r.Knows id) :=
  inferInstanceAs (Decidable (id.index < r.size))

/-- Only `Void` stands for handles that were never given out. -/
theorem knows_of_get_ne_void {r : Registry} {id : TypeId} (h : r.get id ≠ .primitive .void) :
    r.Knows id := by
  apply Nat.lt_of_not_le
  intro hle
  apply h
  rw [get, Array.getElem?_eq_none hle, Option.getD_none]

variable {r r' : Registry} {id : TypeId}

theorem get_eq_of_knows (h : r.Knows id) : r.types[id.index]? = some (r.get id) := by
  have hi : r.types[id.index]? = some r.types[id.index] := Array.getElem?_eq_getElem h
  rw [get, hi, Option.getD_some]

theorem knows_component (h : r.Knows id) {c : TypeId} (hc : c ∈ (r.get id).components) :
    r.Knows c :=
  Nat.lt_trans (r.components_get_lt id hc) h

theorem name_unfold (r : Registry) (id : TypeId) :
    r.name id = match r.get id with
      | .primitive p => p.name
      | .object name _ _ => name
      | .array element => "<" ++ r.name element ++ ">"
      | .reference referent => "&" ++ r.name referent
      | .list element _ => "[" ++ r.name element ++ "]" := by
  rw [name]
  split <;> rename_i h <;> rw [h]

theorem ancestry_unfold (r : Registry) (id : TypeId) :
    r.ancestry id = match r.parent? id with
      | none => [id]
      | some parent => id :: r.ancestry parent := by
  rw [ancestry]
  split <;> rename_i h <;> rw [h]

theorem parent_induction (r : Registry) {motive : TypeId → Prop}
    (orphan : ∀ type, r.parent? type = none → motive type)
    (child : ∀ type parent, r.parent? type = some parent → motive parent → motive type)
    (type : TypeId) : motive type := by
  cases above : r.parent? type with
  | none => exact orphan type above
  | some parent => exact child type parent above (parent_induction r orphan child parent)
termination_by type.index
decreasing_by exact r.parent?_lt above

/-- Equality of two types looks at components only where both are built alike. -/
theorem equals_eq (r : Registry) (a b : TypeId) :
    r.equals a b = (a == b || a == .object || b == .object ||
      match r.get a, r.get b with
      | .array x, .array y => r.equals x y
      | .reference x, .reference y => r.equals x y
      | _, _ => false) := by
  rw [equals]
  split
  · rename_i h
    rw [h, Bool.true_or]
  · rename_i h
    rw [Bool.not_eq_true] at h
    rw [h, Bool.false_or]
    cases ha : r.get a <;> cases hb : r.get b <;> simp

theorem equals_refl (r : Registry) (a : TypeId) : r.equals a a = true := by
  rw [equals_eq, beq_self_eq_true, Bool.true_or, Bool.true_or, Bool.true_or]

/-- Handles that were never given out have no methods. -/
theorem knows_of_findMethod? {id : TypeId} {name : String} {f : FunctionId}
    (h : r.findMethod? id name = some f) : r.Knows id := by
  refine knows_of_get_ne_void fun void => ?_
  have orphan : r.parent? id = none := by rw [parent?, void]; rfl
  rw [findMethod?, ancestry_unfold, orphan, List.findSome?_singleton, void] at h
  cases h

/-- Types are added, and those known before change in their members at most. -/
structure KeepsShape (r r' : Registry) : Prop where
  size_le : r.size ≤ r'.size
  get : ∀ id, r.Knows id → ∃ change, r'.get id = (r.get id).mapMembers change

theorem mapMembers_id (t : Ty) : (t.mapMembers fun m => m) = t := by
  cases t <;> rfl

theorem mapMembers_mapMembers (f g : Members → Members) (t : Ty) :
    (t.mapMembers f).mapMembers g = t.mapMembers (g ∘ f) := by
  cases t <;> rfl

namespace KeepsShape

theorem refl (r : Registry) : KeepsShape r r where
  size_le := Nat.le_refl _
  get _ _ := ⟨fun m => m, (mapMembers_id _).symm⟩

theorem knows (h : KeepsShape r r') (known : r.Knows id) : r'.Knows id :=
  Nat.lt_of_lt_of_le known h.size_le

theorem trans {r'' : Registry} (h : KeepsShape r r') (h' : KeepsShape r' r'') :
    KeepsShape r r'' where
  size_le := Nat.le_trans h.size_le h'.size_le
  get id known := by
    obtain ⟨first, same⟩ := h.get id known
    obtain ⟨second, same'⟩ := h'.get id (h.knows known)
    exact ⟨second ∘ first, by rw [same', same, mapMembers_mapMembers]⟩

theorem parent?_eq (h : KeepsShape r r') (known : r.Knows id) : r'.parent? id = r.parent? id := by
  obtain ⟨change, same⟩ := h.get id known
  rw [parent?, same, parent?]
  cases r.get id <;> rfl

theorem name_eq (h : KeepsShape r r') {t : TypeId} (known : r.Knows t) : r'.name t = r.name t := by
  obtain ⟨change, same⟩ := h.get t known
  have part (c : TypeId) (hc : c ∈ (r.get t).components) : r'.name c = r.name c :=
    have lt := r.components_get_lt t hc
    name_eq h (knows_component known hc)
  rw [r'.name_unfold, r.name_unfold, same]
  cases ht : r.get t with
  | primitive p => rfl
  | object name parent members => rfl
  | array element =>
    exact congrArg (fun name => "<" ++ name ++ ">") (part element (by simp [ht, Ty.components]))
  | reference referent =>
    exact congrArg ("&" ++ ·) (part referent (by simp [ht, Ty.components]))
  | list element members =>
    exact congrArg (fun name => "[" ++ name ++ "]") (part element (by simp [ht, Ty.components]))
termination_by t.index

theorem ancestry_eq (h : KeepsShape r r') {t : TypeId} (known : r.Knows t) :
    r'.ancestry t = r.ancestry t := by
  induction t using r.parent_induction with
  | orphan t above => rw [r'.ancestry_unfold, r.ancestry_unfold, h.parent?_eq known, above]
  | child t parent above ih =>
    rw [r'.ancestry_unfold, r.ancestry_unfold, h.parent?_eq known, above]
    exact congrArg (t :: ·) (ih (Nat.lt_trans (r.parent?_lt above) known))

theorem equals_eq (h : KeepsShape r r') {a b : TypeId} (ha : r.Knows a) (hb : r.Knows b) :
    r'.equals a b = r.equals a b := by
  obtain ⟨first, left⟩ := h.get a ha
  obtain ⟨second, right⟩ := h.get b hb
  rw [Registry.equals_eq r', Registry.equals_eq r, left, right]
  congr 1
  cases hx : r.get a with
  | array x =>
    cases hy : r.get b with
    | array y =>
      have hxa : x ∈ (r.get a).components := by simp [hx, Ty.components]
      have hyb : y ∈ (r.get b).components := by simp [hy, Ty.components]
      have lt := r.components_get_lt a hxa
      exact equals_eq h (knows_component ha hxa) (knows_component hb hyb)
    | _ => rfl
  | reference x =>
    cases hy : r.get b with
    | reference y =>
      have hxa : x ∈ (r.get a).components := by simp [hx, Ty.components]
      have hyb : y ∈ (r.get b).components := by simp [hy, Ty.components]
      have lt := r.components_get_lt a hxa
      exact equals_eq h (knows_component ha hxa) (knows_component hb hyb)
    | _ => rfl
  | _ => rfl
termination_by a.index

end KeepsShape

def Grows (r r' : Registry) : Prop :=
  ∀ (i : Nat) (t : Ty), r.types[i]? = some t → r'.types[i]? = some t

theorem grows_of_get (size : r.size ≤ r'.size) (same : ∀ id, r.Knows id → r'.get id = r.get id) :
    r.Grows r' := by
  intro i t h
  have known : r.Knows ⟨i⟩ := (Array.getElem?_eq_some_iff.1 h).1
  have known' : r'.Knows ⟨i⟩ := Nat.lt_of_lt_of_le known size
  have old := get_eq_of_knows known
  have new := get_eq_of_knows known'
  rw [same _ known] at new
  exact new.trans (old.symm.trans h)

namespace Grows

theorem refl (r : Registry) : Grows r r := fun _ _ h => h

theorem trans {r'' : Registry} (h : Grows r r') (h' : Grows r' r'') : Grows r r'' :=
  fun i t ht => h' i t (h i t ht)

variable (h : Grows r r')
include h

theorem size_le : r.size ≤ r'.size := by
  apply Nat.le_of_not_lt
  intro hlt
  have hi : r.types[r'.size]? = some r.types[r'.size] := Array.getElem?_eq_getElem hlt
  have hi' := h _ _ hi
  rw [Array.getElem?_eq_some_iff] at hi'
  exact Nat.lt_irrefl _ hi'.choose

theorem knows (hid : r.Knows id) : r'.Knows id := Nat.lt_of_lt_of_le hid h.size_le

theorem get_eq (hid : r.Knows id) : r'.get id = r.get id := by
  rw [get, h _ _ (get_eq_of_knows hid), Option.getD_some]

theorem keepsShape : KeepsShape r r' where
  size_le := h.size_le
  get id known := ⟨fun m => m, by rw [h.get_eq known]; exact (mapMembers_id _).symm⟩

theorem parent?_eq (hid : r.Knows id) : r'.parent? id = r.parent? id := h.keepsShape.parent?_eq hid

theorem isObject_eq (hid : r.Knows id) : r'.isObject id = r.isObject id := by
  rw [isObject, h.get_eq hid, isObject]

theorem element?_eq (hid : r.Knows id) : r'.element? id = r.element? id := by
  rw [element?, h.get_eq hid, element?]

theorem dereference_eq (hid : r.Knows id) : r'.dereference id = r.dereference id := by
  rw [dereference, h.get_eq hid, dereference]

theorem name_eq (hid : r.Knows id) : r'.name id = r.name id := h.keepsShape.name_eq hid

theorem ancestry_eq (hid : r.Knows id) : r'.ancestry id = r.ancestry id :=
  h.keepsShape.ancestry_eq hid

theorem equals_eq {a b : TypeId} (ha : r.Knows a) (hb : r.Knows b) :
    r'.equals a b = r.equals a b :=
  h.keepsShape.equals_eq ha hb

end Grows

theorem knows_of_mem_ancestry (hid : r.Knows id) {t : TypeId} (ht : t ∈ r.ancestry id) :
    r.Knows t := by
  induction id using r.parent_induction with
  | orphan id above =>
    rw [ancestry_unfold, above] at ht
    exact List.mem_singleton.1 ht ▸ hid
  | child id parent above ih =>
    rw [ancestry_unfold, above] at ht
    rcases List.mem_cons.1 ht with rfl | ht
    · exact hid
    · exact ih (Nat.lt_trans (r.parent?_lt above) hid) ht

theorem findSome?_congr {α β : Type} {f g : α → Option β} {l : List α}
    (h : ∀ a ∈ l, f a = g a) : l.findSome? f = l.findSome? g := by
  induction l with
  | nil => rfl
  | cons a l ih =>
    rw [List.findSome?_cons, List.findSome?_cons, h a List.mem_cons_self,
      ih fun b hb => h b (List.mem_cons_of_mem a hb)]

namespace Grows

variable (h : Grows r r')
include h

theorem fieldType?_eq (hid : r.Knows id) (name : String) :
    r'.fieldType? id name = r.fieldType? id name := by
  rw [fieldType?, h.ancestry_eq hid, fieldType?]
  apply findSome?_congr
  intro t ht
  rw [h.get_eq (knows_of_mem_ancestry hid ht)]

theorem findMethod?_eq (hid : r.Knows id) (name : String) :
    r'.findMethod? id name = r.findMethod? id name := by
  rw [findMethod?, h.ancestry_eq hid, findMethod?]
  apply findSome?_congr
  intro t ht
  rw [h.get_eq (knows_of_mem_ancestry hid ht)]

theorem find?_eq {p : Ty → Bool} (hp : r.find? p = some id) : r'.find? p = some id := by
  rw [find?, Option.map_eq_some_iff] at hp ⊢
  obtain ⟨i, hi, rfl⟩ := hp
  refine ⟨i, ?_, rfl⟩
  rw [Array.findIdx?_eq_some_iff_getElem] at hi ⊢
  obtain ⟨hlt, hpi, hbefore⟩ := hi
  have hsize : r.types.size ≤ r'.types.size := h.size_le
  have same (j : Nat) (hj : j < r.types.size) (hj' : j < r'.types.size) :
      r'.types[j] = r.types[j] := by
    have found := h j _ (Array.getElem?_eq_getElem hj)
    rw [Array.getElem?_eq_some_iff] at found
    exact found.choose_spec
  refine ⟨Nat.lt_of_lt_of_le hlt hsize, ?_, ?_⟩
  · rw [same i hlt (Nat.lt_of_lt_of_le hlt hsize)]
    exact hpi
  · intro j hji
    rw [same j (Nat.lt_trans hji hlt)]
    exact hbefore j hji

theorem findArray?_eq {element : TypeId} (hfound : r.findArray? element = some id) :
    r'.findArray? element = some id := h.find?_eq hfound

theorem findReference?_eq {referent : TypeId} (hfound : r.findReference? referent = some id) :
    r'.findReference? referent = some id := h.find?_eq hfound

end Grows

theorem get_of_find? {p : Ty → Bool} (h : r.find? p = some id) : r.Knows id ∧ p (r.get id) := by
  rw [find?, Option.map_eq_some_iff] at h
  obtain ⟨i, hi, rfl⟩ := h
  rw [Array.findIdx?_eq_some_iff_getElem] at hi
  obtain ⟨hlt, hpi, -⟩ := hi
  refine ⟨hlt, ?_⟩
  rw [get, Array.getElem?_eq_getElem hlt, Option.getD_some]
  exact hpi

theorem get_of_findArray? {element : TypeId} (h : r.findArray? element = some id) :
    r.get id = .array element := by
  have ht := (get_of_find? h).2
  revert ht
  cases r.get id with
  | array e => simp [isArrayOf]
  | _ => simp [isArrayOf]

theorem get_of_findReference? {referent : TypeId} (h : r.findReference? referent = some id) :
    r.get id = .reference referent := by
  have ht := (get_of_find? h).2
  revert ht
  cases r.get id with
  | reference e => simp [isReferenceTo]
  | _ => simp [isReferenceTo]

theorem grows_add (r : Registry) (t : Ty) (known : ∀ c ∈ t.components, c.index < r.size) :
    Grows r (r.add t known).2 := by
  intro i u hu
  obtain ⟨hlt, hi⟩ := Array.getElem?_eq_some_iff.1 hu
  exact (Array.getElem?_push_lt hlt).trans (congrArg some hi)

theorem grows_intern (r : Registry) (known : Option TypeId) (component : TypeId) (t : Ty)
    (h : t.components = [component]) : Grows r (r.intern known component t h).2 := by
  unfold intern
  split
  · exact .refl r
  · split
    · exact grows_add r t _
    · exact .refl r

theorem grows_arrayOf (r : Registry) (element : TypeId) : Grows r (r.arrayOf element).2 :=
  grows_intern r _ element _ rfl

theorem grows_referenceTo (r : Registry) (referent : TypeId) :
    Grows r (r.referenceTo referent).2 :=
  grows_intern r _ referent _ rfl

theorem find?_add {p : Ty → Bool} {t : Ty} (hnone : r.find? p = none) (ht : p t)
    (known : ∀ c ∈ t.components, c.index < r.size) :
    (r.add t known).2.find? p = some (r.add t known).1 := by
  rw [find?, Option.map_eq_none_iff, Array.findIdx?_eq_none_iff] at hnone
  rw [find?, Option.map_eq_some_iff]
  refine ⟨r.size, ?_, rfl⟩
  rw [Array.findIdx?_eq_some_iff_getElem]
  refine ⟨by simp [add, size], by simpa [add, size] using ht, ?_⟩
  intro j hj
  have hj' : j < r.types.size := hj
  simp only [add, Array.getElem_push_lt hj']
  rw [hnone _ (Array.getElem_mem hj')]
  exact Bool.false_ne_true

theorem find?_intern {p : Ty → Bool} {t : Ty} (ht : p t) {component : TypeId}
    (h : t.components = [component]) (known : r.Knows component) :
    (r.intern (r.find? p) component t h).2.find? p =
      some (r.intern (r.find? p) component t h).1 := by
  cases hfound : r.find? p with
  | some id => exact hfound
  | none =>
    simp only [intern]
    rw [dif_pos (show component.index < r.size from known)]
    exact find?_add hfound ht _

theorem findArray?_arrayOf {element : TypeId} (h : r.Knows element) :
    (r.arrayOf element).2.findArray? element = some (r.arrayOf element).1 :=
  find?_intern (beq_self_eq_true element) rfl h

theorem findReference?_referenceTo {referent : TypeId} (h : r.Knows referent) :
    (r.referenceTo referent).2.findReference? referent = some (r.referenceTo referent).1 :=
  find?_intern (beq_self_eq_true referent) rfl h

theorem arrayOf_of_findArray? {element : TypeId} (h : r.findArray? element = some id) :
    r.arrayOf element = (id, r) := by
  rw [arrayOf, h]
  rfl

theorem referenceTo_of_findReference? {referent : TypeId}
    (h : r.findReference? referent = some id) : r.referenceTo referent = (id, r) := by
  rw [referenceTo, h]
  rfl

theorem get_add (r : Registry) (t : Ty) (known : ∀ c ∈ t.components, c.index < r.size)
    (id : TypeId) : (r.add t known).2.get id = if id.index = r.size then t else r.get id := by
  by_cases h : id.index = r.size
  · have h' : id.index = r.types.size := h
    rw [if_pos h]
    simp only [add, get, Array.getElem?_push, if_pos h', Option.getD_some]
  · have h' : id.index ≠ r.types.size := h
    rw [if_neg h]
    simp only [add, get, Array.getElem?_push, if_neg h']

theorem size_add (r : Registry) (t : Ty) (known : ∀ c ∈ t.components, c.index < r.size) :
    (r.add t known).2.size = r.size + 1 := Array.size_push _

theorem get_modifyMembers (r : Registry) (owner : TypeId) (change : Members → Members)
    (id : TypeId) : (r.modifyMembers owner change).get id =
      if id = owner then (r.get id).mapMembers change else r.get id := by
  have hindex : owner.index = id.index ↔ id = owner := by
    cases id
    cases owner
    simp [eq_comm]
  simp only [modifyMembers, get, Array.getElem?_modify, hindex]
  split
  · cases r.types[id.index]? <;> rfl
  · rfl

theorem size_modifyMembers (r : Registry) (owner : TypeId) (change : Members → Members) :
    (r.modifyMembers owner change).size = r.size := Array.size_modify

theorem members?_mapMembers (change : Members → Members) (t : Ty) :
    (t.mapMembers change).members? = t.members?.map change := by
  cases t <;> rfl

theorem isObject_mapMembers (change : Members → Members) (t : Ty) :
    (t.mapMembers change).isObject = t.isObject := by
  cases t <;> rfl

theorem isObject_modifyMembers (r : Registry) (owner : TypeId) (change : Members → Members)
    (id : TypeId) : (r.modifyMembers owner change).isObject id = r.isObject id := by
  rw [isObject, get_modifyMembers, isObject]
  split
  · exact isObject_mapMembers change _
  · rfl

/-- An array or reference type is new or was known before. -/
theorem intern_cases (r : Registry) (known : Option TypeId) (component : TypeId) (t : Ty)
    (h : t.components = [component]) :
    (r.intern known component t h).2 = r ∨
      ∃ hc, (r.intern known component t h).2 = (r.add t hc).2 := by
  unfold intern
  split
  · exact .inl rfl
  · split
    · rename_i hc
      exact .inr ⟨by simpa [h] using hc, rfl⟩
    · exact .inl rfl

theorem keepsShape_modifyMembers (r : Registry) (owner : TypeId) (change : Members → Members) :
    KeepsShape r (r.modifyMembers owner change) where
  size_le := Nat.le_of_eq (r.size_modifyMembers owner change).symm
  get id known := by
    rw [get_modifyMembers]
    split
    · exact ⟨change, rfl⟩
    · exact ⟨fun m => m, (mapMembers_id _).symm⟩

structure Widens (r r' : Registry) : Prop where
  grows : Grows r r'
  members : ∀ id, (r'.get id).members? = (r.get id).members?

namespace Widens

theorem refl (r : Registry) : Widens r r := ⟨.refl r, fun _ => rfl⟩

theorem add (r : Registry) {t : Ty} (known : ∀ c ∈ t.components, c.index < r.size)
    (bare : t.members? = none) : Widens r (r.add t known).2 := by
  refine ⟨grows_add r t known, fun id => ?_⟩
  rw [get_add]
  split
  · rename_i fresh
    have absent : r.types[id.index]? = none := Array.getElem?_eq_none (Nat.le_of_eq fresh.symm)
    rw [bare, get, absent]
    rfl
  · rfl

theorem intern (r : Registry) (known : Option TypeId) {component : TypeId} {t : Ty}
    (h : t.components = [component]) (bare : t.members? = none) :
    Widens r (r.intern known component t h).2 := by
  rcases intern_cases r known component t h with same | ⟨hc, same⟩
  · rw [same]
    exact .refl r
  · rw [same]
    exact .add r hc bare

theorem arrayOf (r : Registry) (element : TypeId) : Widens r (r.arrayOf element).2 :=
  .intern r _ rfl rfl

theorem referenceTo (r : Registry) (referent : TypeId) : Widens r (r.referenceTo referent).2 :=
  .intern r _ rfl rfl

end Widens

end ObjectLang.Registry
