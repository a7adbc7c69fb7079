import Mathlib.Data.List.Nodup
import ObjectLang.Proofs.Program.Closed
set_option autoImplicit false

/-!
# Layouts

The fields of a type are told in two ways. A layout lists them from the root of the ancestry down and
puts each in place of inherited ones of the same name; a lookup goes from the type up and takes the
first one. Both agree where no type declares a field twice, and this is so because the members of a
type are kept in the order of their names.
-/

namespace ObjectLang

namespace NameMap

variable {α : Type}

/-- The entries are in the order of their names. -/
def Ordered (m : NameMap α) : Prop := m.entries.Pairwise fun x y => x.1 < y.1

theorem ordered_empty : (empty : NameMap α).Ordered := .nil

theorem lt_of_not_lt {a b : String} (ne : b ≠ a) (h : ¬a < b) : b < a := by
  apply Decidable.byContradiction
  intro h'
  exact ne (String.le_antisymm (String.not_lt.1 h) (String.not_lt.1 h'))

theorem Ordered.insert {m : NameMap α} (h : m.Ordered) (name : String) (value : α) :
    (m.insert name value).Ordered := by
  obtain ⟨es⟩ := m
  simp only [Ordered, NameMap.insert] at h ⊢
  induction es with
  | nil => exact List.pairwise_singleton _ _
  | cons e rest ih =>
    obtain ⟨key, old⟩ := e
    obtain ⟨first, tail⟩ := List.pairwise_cons.1 h
    rw [insertEntry]
    split
    · rename_i same
      exact List.pairwise_cons.2 ⟨same ▸ first, tail⟩
    · rename_i ne
      split
      · rename_i lt
        refine List.pairwise_cons.2 ⟨fun x hx => ?_, h⟩
        rcases List.mem_cons.1 hx with rfl | hx
        · exact lt
        · exact String.lt_trans lt (first x hx)
      · rename_i notLt
        refine List.pairwise_cons.2 ⟨fun x hx => ?_, ih tail⟩
        rcases mem_insert (m := ⟨rest⟩) hx with rfl | hx
        · exact lt_of_not_lt ne notLt
        · exact first x hx

theorem Ordered.foldl_insert {m : NameMap α} (h : m.Ordered) (es : List (String × α)) :
    (es.foldl (fun m e => m.insert e.1 e.2) m).Ordered := by
  induction es generalizing m with
  | nil => exact h
  | cons e rest ih => exact ih (h.insert e.1 e.2)

theorem ordered_ofList (es : List (String × α)) : (ofList es).Ordered :=
  ordered_empty.foldl_insert es

theorem Ordered.nodup_names {m : NameMap α} (h : m.Ordered) : m.names.Nodup := by
  refine List.pairwise_map.2 (List.Pairwise.imp ?_ h)
  intro x y lt same
  exact String.lt_irrefl _ (same ▸ lt)

end NameMap

section Lookup

variable {α : Type} {es : List (String × α)}

theorem isSome_lookup {name : String} : (es.lookup name).isSome ↔ name ∈ es.map Prod.fst := by
  induction es with
  | nil => simp
  | cons e rest ih =>
    rw [List.lookup_cons, List.map_cons, List.mem_cons, ← ih]
    by_cases same : name = e.1
    · simp [same]
    · simp [same, beq_eq_false_iff_ne.2 same]

theorem lookup_eq_some_of_mem (distinct : (es.map Prod.fst).Nodup) {name : String} {value : α}
    (h : (name, value) ∈ es) : es.lookup name = some value := by
  induction es with
  | nil => cases h
  | cons e rest ih =>
    obtain ⟨fresh, distinct⟩ := List.nodup_cons.1 distinct
    rw [List.lookup_cons]
    rcases List.mem_cons.1 h with rfl | h
    · simp
    · have ne : (name == e.1) = false := by
        refine beq_eq_false_iff_ne.2 fun same => fresh (same ▸ ?_)
        exact List.mem_map.2 ⟨_, h, rfl⟩
      rw [ne]
      exact ih distinct h

theorem mem_iff_lookup (distinct : (es.map Prod.fst).Nodup) {name : String} {value : α} :
    (name, value) ∈ es ↔ es.lookup name = some value := by
  refine ⟨lookup_eq_some_of_mem distinct, fun h => ?_⟩
  obtain ⟨front, behind, rfl, -⟩ := List.lookup_eq_some_iff.1 h
  exact List.mem_append_right _ List.mem_cons_self

theorem lookup_filter_ne (es : List (String × α)) (other name : String) :
    (es.filter fun e => e.1 != other).lookup name =
      if name = other then none else es.lookup name := by
  induction es with
  | nil => simp
  | cons e rest ih =>
    rw [List.filter_cons]
    by_cases drop : e.1 = other
    · rw [if_neg (by simpa using drop), ih, List.lookup_cons]
      by_cases same : name = other
      · rw [if_pos same, if_pos same]
      · have ne : (name == e.1) = false := beq_eq_false_iff_ne.2 fun h => same (h.trans drop)
        rw [if_neg same, if_neg same, ne]
    · rw [if_pos (by simpa using drop), List.lookup_cons, List.lookup_cons, ih]
      by_cases here : name = e.1
      · simp only [beq_iff_eq.2 here, if_neg fun h => drop (here.symm.trans h)]
      · rw [beq_eq_false_iff_ne.2 here]

end Lookup

namespace NameMap

variable {α : Type}

theorem mem_names {m : NameMap α} {name : String} : name ∈ m.names ↔ (m.find? name).isSome :=
  isSome_lookup.symm

end NameMap

namespace Registry

theorem nodup_shadow {inherited : List (String × TypeId)}
    (distinct : (inherited.map Prod.fst).Nodup) (own : List (String × TypeId)) :
    ((shadow inherited own).map Prod.fst).Nodup := by
  induction own generalizing inherited with
  | nil => exact distinct
  | cons f rest ih =>
    refine ih ?_
    rw [List.map_append, List.map_singleton, List.nodup_append]
    refine ⟨distinct.sublist (List.filter_sublist.map _), List.nodup_singleton _, ?_⟩
    intro name kept other last
    obtain ⟨g, hg, rfl⟩ := List.mem_map.1 kept
    rw [List.mem_singleton.1 last]
    simpa using (List.mem_filter.1 hg).2

theorem mem_shadow_names {inherited own : List (String × TypeId)} {name : String} :
    name ∈ (shadow inherited own).map Prod.fst ↔
      name ∈ inherited.map Prod.fst ∨ name ∈ own.map Prod.fst := by
  induction own generalizing inherited with
  | nil => simp [shadow]
  | cons f rest ih =>
    rw [show shadow inherited (f :: rest) =
        shadow (inherited.filter (fun g => g.1 != f.1) ++ [f]) rest from rfl, ih]
    simp only [List.map_append, List.mem_append, List.map_cons, List.map_nil, List.mem_cons,
      List.not_mem_nil, or_false, ← isSome_lookup, lookup_filter_ne]
    by_cases same : name = f.1 <;> simp [same]

theorem lookup_shadow {own : List (String × TypeId)} (distinct : (own.map Prod.fst).Nodup)
    (inherited : List (String × TypeId)) (name : String) :
    (shadow inherited own).lookup name = (own.lookup name).or (inherited.lookup name) := by
  induction own generalizing inherited with
  | nil => rfl
  | cons f rest ih =>
    obtain ⟨key, type⟩ := f
    obtain ⟨fresh, distinct⟩ := List.nodup_cons.1 distinct
    rw [show shadow inherited ((key, type) :: rest) =
        shadow (inherited.filter (fun g => g.1 != key) ++ [(key, type)]) rest from rfl,
      ih distinct, List.lookup_append, lookup_filter_ne, List.lookup_cons, List.lookup_cons]
    by_cases same : name = key
    · have absent : rest.lookup name = none := by
        rw [← Option.not_isSome_iff_eq_none, isSome_lookup, same]
        exact fresh
      rw [absent, if_pos same, beq_iff_eq.2 same]
      rfl
    · rw [if_neg same, beq_eq_false_iff_ne.2 same, List.lookup_nil, Option.or_none]

theorem lookup_ownFields (r : Registry) (id : TypeId) (name : String) :
    (r.ownFields id).lookup name = (r.get id).ownField? name := by
  rw [ownFields, Ty.ownField?]
  cases (r.get id).members? <;> rfl

/-- The fields of every type are in the order of their names. -/
def Ordered (r : Registry) : Prop := ∀ id, ∀ m ∈ (r.get id).members?, m.fields.Ordered

variable {r : Registry}

theorem Ordered.nodup_ownFields (h : r.Ordered) (id : TypeId) :
    ((r.ownFields id).map Prod.fst).Nodup := by
  rw [ownFields]
  cases has : (r.get id).members? with
  | none => exact .nil
  | some m => exact (h id m has).nodup_names

/-- A layout lists no name twice. -/
theorem nodup_fields (r : Registry) (id : TypeId) : ((r.fields id).map Prod.fst).Nodup := by
  unfold fields
  induction r.ancestry id with
  | nil => exact .nil
  | cons t rest ih => exact nodup_shadow ih _

theorem mem_names_fields {id : TypeId} {name : String} :
    name ∈ (r.fields id).map Prod.fst ↔ (r.fieldType? id name).isSome := by
  unfold fields fieldType?
  induction r.ancestry id with
  | nil => simp
  | cons t rest ih =>
    rw [List.foldr_cons, mem_shadow_names, ih, ← isSome_lookup, lookup_ownFields,
      List.findSome?_cons]
    cases (r.get t).ownField? name <;> simp

/-- What a layout has under a name is what a lookup finds. -/
theorem Ordered.lookup_fields (h : r.Ordered) (id : TypeId) (name : String) :
    (r.fields id).lookup name = r.fieldType? id name := by
  unfold fields fieldType?
  induction r.ancestry id with
  | nil => rfl
  | cons t rest ih =>
    rw [List.foldr_cons, lookup_shadow (h.nodup_ownFields t), ih, lookup_ownFields,
      List.findSome?_cons]
    cases (r.get t).ownField? name <;> rfl

theorem Ordered.mem_fields (h : r.Ordered) {id type : TypeId} {name : String} :
    (name, type) ∈ r.fields id ↔ r.fieldType? id name = some type := by
  rw [mem_iff_lookup (r.nodup_fields id), h.lookup_fields]

theorem get_initial (id : TypeId) :
    (∃ p, initial.get id = .primitive p) ∨ initial.get id = .object "Object" none {} := by
  rw [get]
  cases stored : initial.types[id.index]? with
  | none => exact .inl ⟨.void, rfl⟩
  | some t =>
    have mem : t ∈ initial.types.toList := Array.mem_toList_iff.2 (Array.mem_of_getElem? stored)
    simp only [initial, Primitive.all, List.map_cons, List.map_nil, List.cons_append,
      List.nil_append, List.mem_cons, List.not_mem_nil, or_false] at mem
    rcases mem with rfl | rfl | rfl | rfl | rfl | rfl <;> simp

theorem ordered_initial : initial.Ordered := by
  intro id m hm
  rcases get_initial id with ⟨p, stored⟩ | stored <;> rw [stored] at hm <;> cases hm
  exact NameMap.ordered_empty

theorem Ordered.add (h : r.Ordered) {t : Ty} (known : ∀ c ∈ t.components, c.index < r.size)
    (ordered : ∀ m ∈ t.members?, m.fields.Ordered) : (r.add t known).2.Ordered := by
  intro id m hm
  rw [get_add] at hm
  split at hm
  · exact ordered m hm
  · exact h id m hm

theorem Ordered.declare (h : r.Ordered) (name : String) (parent : Option TypeId) :
    (r.declare name parent).2.Ordered := by
  unfold Registry.declare
  refine h.add _ fun m hm => ?_
  cases hm
  exact NameMap.ordered_empty

theorem Ordered.intern (h : r.Ordered) (known : Option TypeId) {component : TypeId} {t : Ty}
    (built : t.components = [component]) (ordered : ∀ m ∈ t.members?, m.fields.Ordered) :
    (r.intern known component t built).2.Ordered := by
  rcases intern_cases r known component t built with same | ⟨hc, same⟩
  · rw [same]
    exact h
  · rw [same]
    exact h.add hc ordered

theorem Ordered.modifyMembers (h : r.Ordered) (owner : TypeId) {change : Members → Members}
    (keeps : ∀ m : Members, m.fields.Ordered → (change m).fields.Ordered) :
    (r.modifyMembers owner change).Ordered := by
  intro id m hm
  rw [get_modifyMembers] at hm
  split at hm
  · rw [members?_mapMembers] at hm
    obtain ⟨m', has, rfl⟩ := Option.map_eq_some_iff.1 hm
    exact keeps m' (h id m' has)
  · exact h id m hm

end Registry
end ObjectLang
