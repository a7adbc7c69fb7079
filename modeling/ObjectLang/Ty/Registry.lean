import ObjectLang.Ty.Basic
set_option autoImplicit false

/-!
# The registry of types

Types are numbered in the order of their registration, and each is built from earlier ones only, so
everything that follows components or parents comes to an end. Arrays, references and lists are
interned: the same components always give the same handle. Every declaration of an object type
gives a new one.
-/

namespace ObjectLang

structure Registry where
  types : Array Ty
  /-- Components are registered before what is built from them. -/
  components_lt : ∀ (i : Nat) (t : Ty), types[i]? = some t → ∀ c ∈ t.components, c.index < i

namespace Registry

def initial : Registry where
  types := (Primitive.all.map Ty.primitive ++ [Ty.object "Object" none {}]).toArray
  components_lt := by
    intro i t h c hc
    have ht : t ∈ Primitive.all.map Ty.primitive ++ [Ty.object "Object" none {}] := by
      simpa using Array.mem_of_getElem? h
    simp only [Primitive.all, List.map_cons, List.map_nil, List.cons_append, List.nil_append,
      List.mem_cons, List.not_mem_nil, or_false] at ht
    rcases ht with rfl | rfl | rfl | rfl | rfl | rfl <;> simp [Ty.components] at hc

instance : Inhabited Registry := ⟨initial⟩

def size (r : Registry) : Nat := r.types.size

/-- The type of a handle. A handle that was never given out stands for `Void`. -/
def get (r : Registry) (id : TypeId) : Ty := r.types[id.index]?.getD (.primitive .void)

theorem components_get_lt (r : Registry) (id : TypeId) {c : TypeId}
    (h : c ∈ (r.get id).components) : c.index < id.index := by
  unfold get at h
  cases ht : r.types[id.index]? with
  | none => simp [ht, Ty.components] at h
  | some t => exact r.components_lt id.index t ht c (by simpa [ht] using h)

def add (r : Registry) (t : Ty) (known : ∀ c ∈ t.components, c.index < r.size) :
    TypeId × Registry :=
  (⟨r.size⟩,
    { types := r.types.push t
      components_lt := by
        intro i u h c hc
        rw [Array.getElem?_push] at h
        split at h
        · rename_i hi
          cases h
          exact hi ▸ known c hc
        · exact r.components_lt i u h c hc })

def find? (r : Registry) (p : Ty → Bool) : Option TypeId := (r.types.findIdx? p).map TypeId.mk

def isArrayOf (element : TypeId) : Ty → Bool
  | .array e => e == element
  | _ => false

def isReferenceTo (referent : TypeId) : Ty → Bool
  | .reference e => e == referent
  | _ => false

def isListOf (element : TypeId) : Ty → Bool
  | .list e _ => e == element
  | _ => false

def findArray? (r : Registry) (element : TypeId) : Option TypeId := r.find? (isArrayOf element)

def findReference? (r : Registry) (referent : TypeId) : Option TypeId :=
  r.find? (isReferenceTo referent)

def findList? (r : Registry) (element : TypeId) : Option TypeId := r.find? (isListOf element)

/-- Registers a type built from one component, unless it is registered already. An unknown
    component has no types built from it and stands for itself. -/
def intern (r : Registry) (known : Option TypeId) (component : TypeId) (t : Ty)
    (h : t.components = [component]) : TypeId × Registry :=
  match known with
  | some id => (id, r)
  | none =>
    if hc : component.index < r.size then
      r.add t (by simpa [h] using hc)
    else (component, r)

def arrayOf (r : Registry) (element : TypeId) : TypeId × Registry :=
  r.intern (r.findArray? element) element (.array element) rfl

def referenceTo (r : Registry) (referent : TypeId) : TypeId × Registry :=
  r.intern (r.findReference? referent) referent (.reference referent) rfl

def addList (r : Registry) (element : TypeId) (members : Members) : TypeId × Registry :=
  r.intern none element (.list element members) rfl

/-- Declares a new object type. A parent that is not known is dropped. -/
def declare (r : Registry) (name : String) (parent : Option TypeId) : TypeId × Registry :=
  r.add (.object name (parent.filter fun p => p.index < r.size) {}) (by
    intro c hc
    simp only [Ty.components, Option.mem_toList, Option.filter_eq_some_iff] at hc
    simpa using hc.2)

def modifyMembers (r : Registry) (id : TypeId) (change : Members → Members) : Registry where
  types := r.types.modify id.index (Ty.mapMembers change)
  components_lt := by
    intro i t h c hc
    rw [Array.getElem?_modify] at h
    split at h
    · cases hi : r.types[i]? with
      | none => simp [hi] at h
      | some u =>
        simp only [hi, Option.map_some, Option.some.injEq] at h
        subst h
        rw [Ty.components_mapMembers] at hc
        exact r.components_lt i u hi c hc
    · exact r.components_lt i t h c hc

def addField (r : Registry) (owner : TypeId) (name : String) (type : TypeId) : Registry :=
  r.modifyMembers owner fun m => { m with fields := m.fields.insert name type }

def addMethod (r : Registry) (owner : TypeId) (name : String) (method : FunctionId) : Registry :=
  r.modifyMembers owner fun m => { m with methods := m.methods.insert name method }

def isObject (r : Registry) (id : TypeId) : Bool := (r.get id).isObject

def element? (r : Registry) (id : TypeId) : Option TypeId :=
  match r.get id with
  | .array element => some element
  | _ => none

def parent? (r : Registry) (id : TypeId) : Option TypeId := (r.get id).parent?

theorem parent?_lt (r : Registry) {id parent : TypeId} (h : r.parent? id = some parent) :
    parent.index < id.index :=
  r.components_get_lt id (Ty.parent?_mem_components h)

def dereference (r : Registry) (id : TypeId) : TypeId :=
  match r.get id with
  | .reference referent => referent
  | _ => id

def name (r : Registry) (id : TypeId) : String :=
  match _h : r.get id with
  | .primitive p => p.name
  | .object name _ _ => name
  | .array element => "<" ++ r.name element ++ ">"
  | .reference referent => "&" ++ r.name referent
  | .list element _ => "[" ++ r.name element ++ "]"
termination_by id.index
decreasing_by
  all_goals exact r.components_get_lt id (by simp [_h, Ty.components])

/-- Equality of types. The base of all objects equals every type, also as a component of arrays and
    references. -/
def equals (r : Registry) (a b : TypeId) : Bool :=
  if a == b || a == .object || b == .object then true
  else
    match _h : r.get a, r.get b with
    | .array x, .array y => r.equals x y
    | .reference x, .reference y => r.equals x y
    | _, _ => false
termination_by a.index
decreasing_by
  all_goals exact r.components_get_lt a (by simp [_h, Ty.components])

def ancestry (r : Registry) (id : TypeId) : List TypeId :=
  match _h : r.parent? id with
  | none => [id]
  | some parent => id :: r.ancestry parent
termination_by id.index
decreasing_by exact r.parent?_lt _h

def derivesFrom (r : Registry) (id ancestor : TypeId) : Bool := (r.ancestry id).contains ancestor

def fieldType? (r : Registry) (id : TypeId) (name : String) : Option TypeId :=
  (r.ancestry id).findSome? fun t => (r.get t).ownField? name

def findMethod? (r : Registry) (id : TypeId) (name : String) : Option FunctionId :=
  (r.ancestry id).findSome? fun t => (r.get t).ownMethod? name

/-- Adds fields behind others, in place of others of the same names. -/
def shadow (inherited own : List (String × TypeId)) : List (String × TypeId) :=
  own.foldl (fun fields f => fields.filter (fun g => g.1 != f.1) ++ [f]) inherited

def ownFields (r : Registry) (id : TypeId) : List (String × TypeId) :=
  ((r.get id).members?.map fun m => m.fields.entries).getD []

/-- All fields of an object type, those of its ancestors first. -/
def fields (r : Registry) (id : TypeId) : List (String × TypeId) :=
  (r.ancestry id).foldr (fun t inherited => shadow inherited (r.ownFields t)) []

def ownMethods (r : Registry) (id : TypeId) : List FunctionId :=
  ((r.get id).members?.map fun m => m.methods.values).getD []

def builtin? (name : String) : Option TypeId :=
  if name = "Object" then some .object else (Primitive.named? name).map Primitive.id

end Registry
end ObjectLang
