import ObjectLang.Machine.Fault
import ObjectLang.Syntax.Expr
set_option autoImplicit false

/-!
# Values

Objects and arrays live on a heap, and values refer to them by handle: every copy of a value sees
writes through any other.
-/

namespace ObjectLang

structure ObjectRef where
  index : Nat
  deriving DecidableEq, Repr, Inhabited

structure ArrayRef where
  index : Nat
  deriving DecidableEq, Repr, Inhabited

inductive Value
  | int (value : Word)
  | float (value : Float)
  | char (value : String)
  | bool (value : Bool)
  | object (ref : ObjectRef)
  | array (ref : ArrayRef)
  /-- No value: `None`, the result of a `Void` call, and slots not filled yet. -/
  | void
  deriving Repr, Inhabited

namespace Value

def ofLiteral : Literal → Value
  | .int value => int value
  | .float value => float value
  | .bool value => bool value
  | .char value => char value
  | .none => void

def kind : Value → String
  | int _ => "Int"
  | float _ => "Float"
  | char _ => "Char"
  | bool _ => "Bool"
  | object _ => "Object"
  | array _ => "Array"
  | void => "Void"

/-- Equality of values. Objects and arrays are equal only to themselves. -/
def equals : Value → Value → Bool
  | int a, int b => a == b
  | float a, float b => a == b
  | char a, char b => a == b
  | bool a, bool b => a == b
  | object a, object b => a == b
  | array a, array b => a == b
  | void, void => true
  | _, _ => false

def asBool : Value → Except Fault.Cause Bool
  | bool value => .ok value
  | _ => .error .expectedBoolean

def asInt : Value → Except Fault.Cause Word
  | int value => .ok value
  | _ => .error .expectedInteger

def asArray : Value → Except Fault.Cause ArrayRef
  | array ref => .ok ref
  | _ => .error .expectedArray

def asObject : Value → Except Fault.Cause ObjectRef
  | object ref => .ok ref
  | _ => .error .expectedObject

end Value
end ObjectLang
