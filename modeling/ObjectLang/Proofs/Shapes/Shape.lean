import ObjectLang.Proofs.Calls.Accepted
set_option autoImplicit false

/-!
# Shapes

What a place of a type is meant to hold, as far as arrays are concerned: arrays of which depth, or
objects with which fields. Places of the base of all objects hold anything, except that slots of
arrays are then meant for anything but arrays.
-/

namespace ObjectLang

inductive Shape
  | any
  /-- Anything but arrays. -/
  | plain
  /-- Objects of the type, or of one that derives from it. -/
  | object (type : TypeId)
  /-- Arrays whose slots all have the given shape. -/
  | array (slots : Shape)
  deriving DecidableEq, Repr

namespace Shape

/-- What slots are meant to hold if values of the shape are stored in them. -/
def asSlot : Shape → Shape
  | any => plain
  | s => s

theorem asSlot_asSlot (s : Shape) : s.asSlot.asSlot = s.asSlot := by
  cases s <;> rfl

theorem asSlot_ne_any (s : Shape) : s.asSlot ≠ .any := by
  intro same
  cases s <;> cases same

def isArray : Shape → Bool
  | array _ => true
  | _ => false

def isObject : Shape → Bool
  | object _ => true
  | _ => false

def depth : Shape → Nat
  | array slots => slots.depth + 1
  | _ => 0

end Shape

namespace Registry

variable {r : Registry}

/-- What places of a type are meant to hold. -/
def shape (r : Registry) (id : TypeId) : Shape :=
  match _h : r.get id with
  | .primitive _ => .plain
  | .object .. | .list .. => if id = .object then .any else .object id
  | .array element => .array (r.shape element).asSlot
  | .reference referent => r.shape referent
termination_by id.index
decreasing_by
  all_goals exact r.components_get_lt id (by simp [_h, Ty.components])

theorem shape_array {id element : TypeId} (h : r.get id = .array element) :
    r.shape id = .array (r.shape element).asSlot := by
  rw [shape]
  split <;> simp_all

theorem shape_reference {id referent : TypeId} (h : r.get id = .reference referent) :
    r.shape id = r.shape referent := by
  rw [shape]
  split <;> simp_all

theorem shape_dereference (r : Registry) (id : TypeId) : r.shape (r.dereference id) = r.shape id := by
  unfold dereference
  split
  · rename_i referent h
    exact (shape_reference h).symm
  · rfl

theorem shape_of_isObject {id : TypeId} (h : r.isObject id = true) (ne : id ≠ .object) :
    r.shape id = .object id := by
  rw [shape]
  split <;> simp_all [isObject, Ty.isObject, Ty.members?]

/-- What is of a derived type passes for an ancestor, and everything passes for anything. -/
def passes (r : Registry) : Shape → Shape → Bool
  | _, .any => true
  | .plain, .plain => true
  | .object _, .plain => true
  | .object derived, .object type => r.derivesFrom derived type
  | .array given, .array slots => given == slots
  | _, _ => false

theorem passes_any (r : Registry) (s : Shape) : r.passes s .any = true := by
  cases s <;> rfl

theorem passes_refl (r : Registry) (s : Shape) : r.passes s s = true := by
  cases s with
  | object type => exact derivesFrom_self type
  | array slots => exact beq_self_eq_true slots
  | _ => rfl

theorem passes_trans {a b c : Shape} (h : r.passes a b = true) (h' : r.passes b c = true) :
    r.passes a c = true := by
  cases c with
  | any => exact passes_any r a
  | plain =>
    cases b with
    | plain => exact h
    | object => cases a with
      | object => rfl
      | _ => cases h
    | _ => cases h'
  | object type =>
    cases b with
    | object => cases a with
      | object => exact derivesFrom_trans h h'
      | _ => cases h
    | _ => cases h'
  | array slots =>
    cases b with
    | array =>
      rw [← beq_iff_eq.1 h']
      exact h
    | _ => cases h'

/-- Arrays pass for what their slots pass for only as a whole. -/
theorem passes_array {slots : Shape} {s : Shape} (h : r.passes (.array slots) s = true) :
    s = .any ∨ s = .array slots := by
  cases s with
  | any => exact .inl rfl
  | array => exact .inr (congrArg _ (beq_iff_eq.1 h).symm)
  | _ => cases h

theorem passes_asSlot (r : Registry) (s : Shape) : r.passes s.asSlot s = true := by
  cases s with
  | any => rfl
  | _ => exact passes_refl r _

theorem exists_ownField {type field : TypeId} {name : String}
    (h : r.fieldType? type name = some field) :
    ∃ owner, r.derivesFrom type owner = true ∧ (name, field) ∈ r.ownFields owner := by
  obtain ⟨owner, nearest⟩ := (nearest?_eq_some_iff (·.ownField? name)).1 h
  obtain ⟨members, has, found⟩ := Option.bind_eq_some_iff.1 nearest.declared
  obtain ⟨front, behind, split, -⟩ := List.lookup_eq_some_iff.1 found
  refine ⟨owner, nearest.derivesFrom, ?_⟩
  rw [ownFields, has, Option.map_some, Option.getD_some, split]
  exact List.mem_append_right _ List.mem_cons_self

theorem mem_of_mem_shadow {inherited own : List (String × TypeId)} {x : String × TypeId}
    (h : x ∈ shadow inherited own) : x ∈ inherited ∨ x ∈ own := by
  induction own generalizing inherited with
  | nil => exact .inl h
  | cons f rest ih =>
    rcases ih h with earlier | later
    · rcases List.mem_append.1 earlier with kept | last
      · exact .inl (List.mem_filter.1 kept).1
      · exact .inr (List.mem_singleton.1 last ▸ List.mem_cons_self)
    · exact .inr (List.mem_cons_of_mem _ later)

theorem exists_of_mem_fields {type : TypeId} {x : String × TypeId} (h : x ∈ r.fields type) :
    ∃ owner, r.derivesFrom type owner = true ∧ x ∈ r.ownFields owner := by
  suffices ∃ owner ∈ r.ancestry type, x ∈ r.ownFields owner by
    obtain ⟨owner, ancestor, own⟩ := this
    exact ⟨owner, List.contains_iff_mem.2 ancestor, own⟩
  unfold fields at h
  generalize r.ancestry type = ancestors at h ⊢
  induction ancestors with
  | nil => cases h
  | cons t rest ih =>
    rcases mem_of_mem_shadow h with inherited | own
    · obtain ⟨owner, mem, own⟩ := ih inherited
      exact ⟨owner, List.mem_cons_of_mem _ mem, own⟩
    · exact ⟨t, List.mem_cons_self, own⟩

end Registry
end ObjectLang
