set_option autoImplicit false

/-!
# Maps from names

Entries are kept in the order of their names, by code point, so listing a map is deterministic.
-/

namespace ObjectLang

structure NameMap (α : Type) where
  entries : List (String × α) := []

namespace NameMap

variable {α : Type}

def empty : NameMap α := ⟨[]⟩

instance : Inhabited (NameMap α) := ⟨empty⟩

def insertEntry (name : String) (value : α) : List (String × α) → List (String × α)
  | [] => [(name, value)]
  | (key, old) :: rest =>
    if key = name then (name, value) :: rest
    else if name < key then (name, value) :: (key, old) :: rest
    else (key, old) :: insertEntry name value rest

def insert (m : NameMap α) (name : String) (value : α) : NameMap α :=
  ⟨insertEntry name value m.entries⟩

def find? (m : NameMap α) (name : String) : Option α := m.entries.lookup name

def contains (m : NameMap α) (name : String) : Bool := (m.find? name).isSome

def ofList (entries : List (String × α)) : NameMap α :=
  entries.foldl (fun m entry => m.insert entry.1 entry.2) empty

def names (m : NameMap α) : List String := m.entries.map (·.1)

def values (m : NameMap α) : List α := m.entries.map (·.2)

theorem find?_empty (name : String) : (empty : NameMap α).find? name = none := rfl

theorem lookup_insertEntry_self (name : String) (value : α) (es : List (String × α)) :
    (insertEntry name value es).lookup name = some value := by
  induction es with
  | nil => simp [insertEntry]
  | cons e es ih =>
    obtain ⟨key, old⟩ := e
    by_cases h : key = name
    · simp [insertEntry, h]
    · by_cases hlt : name < key
      · simp [insertEntry, h, hlt]
      · have hb : (name == key) = false := by simpa using fun heq => h heq.symm
        simp [insertEntry, h, hlt, List.lookup_cons, hb, ih]

theorem lookup_insertEntry_of_ne {name other : String} (h : other ≠ name) (value : α)
    (es : List (String × α)) : (insertEntry name value es).lookup other = es.lookup other := by
  have hb : (other == name) = false := by simpa using h
  induction es with
  | nil => simp [insertEntry, List.lookup_cons, hb]
  | cons e es ih =>
    obtain ⟨key, old⟩ := e
    by_cases hk : key = name
    · subst hk
      simp [insertEntry, List.lookup_cons, hb]
    · by_cases hlt : name < key
      · simp [insertEntry, hk, hlt, List.lookup_cons, hb]
      · simp only [insertEntry, hk, hlt, if_false, List.lookup_cons, ih]

theorem find?_insert_self (m : NameMap α) (name : String) (value : α) :
    (m.insert name value).find? name = some value :=
  lookup_insertEntry_self name value m.entries

theorem find?_insert_of_ne (m : NameMap α) {name other : String} (h : other ≠ name) (value : α) :
    (m.insert name value).find? other = m.find? other :=
  lookup_insertEntry_of_ne h value m.entries

theorem perm_insertEntry {name : String} {es : List (String × α)} (fresh : es.lookup name = none)
    (value : α) : (insertEntry name value es).Perm ((name, value) :: es) := by
  induction es with
  | nil => exact .refl _
  | cons e es ih =>
    obtain ⟨key, old⟩ := e
    have hne : key ≠ name := by
      rintro rfl
      simp at fresh
    have hb : (name == key) = false := by simpa using fun heq => hne heq.symm
    simp only [List.lookup_cons, hb] at fresh
    by_cases hlt : name < key
    · simp [insertEntry, hne, hlt]
    · simp only [insertEntry, hne, hlt, if_false]
      exact ((ih fresh).cons _).trans (.swap _ _ _)

theorem nodup_names_insert {m : NameMap α} (h : m.names.Nodup) {name : String}
    (fresh : m.find? name = none) {value : α} : (m.insert name value).names.Nodup := by
  have unused : name ∉ m.names := by
    intro hmem
    obtain ⟨e, he, rfl⟩ := List.mem_map.1 hmem
    have := List.lookup_eq_none_iff.1 fresh e he
    simp at this
  exact ((perm_insertEntry fresh value).map _).nodup_iff.2 (List.nodup_cons.2 ⟨unused, h⟩)

theorem find?_foldl_insert {es : List (String × α)} (distinct : (es.map Prod.fst).Nodup)
    (m : NameMap α) (name : String) :
    (es.foldl (fun m e => m.insert e.1 e.2) m).find? name = (es.lookup name).or (m.find? name) := by
  induction es generalizing m with
  | nil => rfl
  | cons e es ih =>
    obtain ⟨key, value⟩ := e
    obtain ⟨unused, distinct⟩ := List.nodup_cons.1 distinct
    rw [List.foldl_cons, ih distinct, List.lookup_cons]
    by_cases same : name = key
    · have none : es.lookup name = none := by
        refine List.lookup_eq_none_iff.2 fun e he => ?_
        have ne : name ≠ e.1 := fun heq =>
          unused (List.mem_map.2 ⟨e, he, heq.symm.trans same⟩)
        simpa using ne
      rw [none, same, find?_insert_self]
      simp
    · have hb : (name == key) = false := by simpa using same
      rw [find?_insert_of_ne _ same, hb]

theorem find?_ofList {es : List (String × α)} (distinct : (es.map Prod.fst).Nodup)
    (name : String) : (ofList es).find? name = es.lookup name := by
  rw [ofList, find?_foldl_insert distinct, find?_empty, Option.or_none]

end NameMap
end ObjectLang
