import ObjectLang.Machine.Value
import ObjectLang.Ty.Registry
set_option autoImplicit false

/-!
# The heap

Objects know their type and hold fields by name; arrays hold slots. Both are numbered in the order
of their allocation and are never freed.
-/

namespace ObjectLang

structure ObjectCell where
  /-- The type that the object was allocated with. -/
  type : TypeId
  fields : NameMap Value
  deriving Inhabited

/-- More slots no host can give an array: each takes at least eight of less than two to the power of
    63 bytes. -/
def Heap.addressable : Nat := 1152921504606846976

theorem Heap.le_addressable : 4294967296 ≤ Heap.addressable := by decide

structure Heap where
  objects : Array ObjectCell := #[]
  arrays : Array (Array Value) := #[]
  /-- The most slots that the host gives an array. -/
  room : Nat := 4294967296
  room_le : room ≤ Heap.addressable := by exact Heap.le_addressable

instance : Inhabited Heap := ⟨{}⟩

namespace Heap

def object (h : Heap) (ref : ObjectRef) : ObjectCell :=
  h.objects[ref.index]?.getD ⟨.object, .empty⟩

def array (h : Heap) (ref : ArrayRef) : Array Value := h.arrays[ref.index]?.getD #[]

def newObject (h : Heap) (cell : ObjectCell) : Value × Heap :=
  (.object ⟨h.objects.size⟩, { h with objects := h.objects.push cell })

def newArray (h : Heap) (items : Array Value) : Value × Heap :=
  (.array ⟨h.arrays.size⟩, { h with arrays := h.arrays.push items })

/-- Stores a value in a field, also in one that the object did not have. -/
def setField (h : Heap) (ref : ObjectRef) (name : String) (value : Value) : Heap :=
  { h with
    objects := h.objects.modify ref.index fun cell =>
      { cell with fields := cell.fields.insert name value } }

def setSlot (h : Heap) (ref : ArrayRef) (place : Nat) (value : Value) : Heap :=
  { h with arrays := h.arrays.modify ref.index fun items => items.setIfInBounds place value }

def copySlots (h : Heap) (dest src : ArrayRef) (count : Nat) : Heap :=
  let first := (h.array src).extract 0 count
  { h with
    arrays := h.arrays.modify dest.index fun items => first ++ items.extract count items.size }

/-- The value that fields and slots of a type begin with. An array is empty and new. -/
def default (h : Heap) (types : Registry) (type : TypeId) : Value × Heap :=
  if type = .int then (.int 0, h)
  else if type = .float then (.float 0.0, h)
  else if type = .bool then (.bool false, h)
  else if type = .char then (.char "", h)
  else if (types.element? type).isSome then h.newArray #[]
  else (.void, h)

def defaults (h : Heap) (types : Registry) :
    List (String × TypeId) → List (String × Value) × Heap
  | [] => ([], h)
  | (name, type) :: rest =>
    let (value, h) := h.default types type
    let (more, h) := h.defaults types rest
    ((name, value) :: more, h)

def instantiate (h : Heap) (types : Registry) (type : TypeId) : Value × Heap :=
  let (fields, h) := h.defaults types (types.fields type)
  h.newObject ⟨type, .ofList fields⟩

def fill (h : Heap) (element : Value) (size : Nat) : Except Fault.Cause (Value × Heap) :=
  if size ≤ h.room then .ok (h.newArray (.replicate size element))
  else .error (.allocationFailed size)

theorem object_newObject (h : Heap) (cell : ObjectCell) :
    (h.newObject cell).2.object ⟨h.objects.size⟩ = cell := by
  simp [newObject, object]

theorem array_newArray (h : Heap) (items : Array Value) :
    (h.newArray items).2.array ⟨h.arrays.size⟩ = items := by
  simp [newArray, array]

theorem room_default (h : Heap) (types : Registry) (type : TypeId) :
    (h.default types type).2.room = h.room := by
  unfold default newArray
  grind

theorem room_defaults (h : Heap) (types : Registry) (layout : List (String × TypeId)) :
    (h.defaults types layout).2.room = h.room := by
  induction layout generalizing h with
  | nil => rfl
  | cons x rest ih => exact (ih _).trans (room_default h types x.2)

/-- Allocation takes nothing from the room that the host gives single arrays. -/
theorem room_instantiate (h : Heap) (types : Registry) (type : TypeId) :
    (h.instantiate types type).2.room = h.room := room_defaults h types _

end Heap
end ObjectLang
