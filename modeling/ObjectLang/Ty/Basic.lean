import ObjectLang.Handle
import ObjectLang.NameMap
set_option autoImplicit false

/-!
# Types

Types are primitive, declared by name with an optional parent, or built from other types: arrays,
references and lists. A list is an object too, with fields and methods of its own.
-/

namespace ObjectLang

inductive Primitive
  | int | float | bool | char | void
  deriving DecidableEq, Repr, Inhabited

namespace Primitive

def all : List Primitive := [int, float, bool, char, void]

def name : Primitive → String
  | int => "Int"
  | float => "Float"
  | bool => "Bool"
  | char => "Char"
  | void => "Void"

def id : Primitive → TypeId
  | int => .int
  | float => .float
  | bool => .bool
  | char => .char
  | void => .void

def named? (name : String) : Option Primitive := all.find? fun p => p.name == name

end Primitive

structure Members where
  fields : NameMap TypeId := .empty
  methods : NameMap FunctionId := .empty
  deriving Inhabited

inductive Ty
  | primitive (p : Primitive)
  | object (name : String) (parent : Option TypeId) (members : Members)
  | array (element : TypeId)
  | reference (referent : TypeId)
  | list (element : TypeId) (members : Members)
  deriving Inhabited

namespace Ty

def components : Ty → List TypeId
  | primitive _ => []
  | object _ parent _ => parent.toList
  | array element => [element]
  | reference referent => [referent]
  | list element _ => [element]

def members? : Ty → Option Members
  | object _ _ members => some members
  | list _ members => some members
  | _ => none

def isObject (t : Ty) : Bool := t.members?.isSome

def parent? : Ty → Option TypeId
  | object _ parent _ => parent
  | _ => none

def ownField? (t : Ty) (name : String) : Option TypeId :=
  t.members?.bind fun m => m.fields.find? name

def ownMethod? (t : Ty) (name : String) : Option FunctionId :=
  t.members?.bind fun m => m.methods.find? name

def mapMembers (change : Members → Members) : Ty → Ty
  | object name parent members => object name parent (change members)
  | list element members => list element (change members)
  | t => t

theorem components_mapMembers (change : Members → Members) (t : Ty) :
    (t.mapMembers change).components = t.components := by
  cases t <;> rfl

theorem parent?_mem_components {t : Ty} {parent : TypeId} (h : t.parent? = some parent) :
    parent ∈ t.components := by
  cases t <;> simp_all [parent?, components]

end Ty
end ObjectLang
