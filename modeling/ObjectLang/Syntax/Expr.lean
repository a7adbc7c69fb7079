import ObjectLang.Handle
import ObjectLang.Syntax.Operator
import ObjectLang.Word
set_option autoImplicit false

/-!
# Expressions

Every node knows its line. Variables, fields and calls have places for what is found out about them
after reading: their type, or the function that is called.
-/

namespace ObjectLang

inductive Literal
  | int (value : Word)
  | float (value : Float)
  | bool (value : Bool)
  | char (value : String)
  | none
  deriving Repr, Inhabited

def Literal.type : Literal → TypeId
  | int _ => .int
  | float _ => .float
  | bool _ => .bool
  | char _ => .char
  | none => .object

inductive Expr
  | binary (op : BinaryOperator) (lhs rhs : Expr) (line : Nat)
  | literal (value : Literal) (line : Nat)
  | var (name : String) (type : Option TypeId) (line : Nat)
  | field (base : Expr) (name : String) (type : Option TypeId) (line : Nat)
  /-- A fresh object with default fields. -/
  | new (type : TypeId) (line : Nat)
  /-- A fresh array of default elements. -/
  | allocate (element : TypeId) (size : Expr) (line : Nat)
  /-- A fresh array of given elements. -/
  | array (element : TypeId) (items : List Expr) (line : Nat)
  | index (array index : Expr) (line : Nat)
  | reference (expr : Expr) (line : Nat)
  | cast (expr : Expr) (type : TypeId) (line : Nat)
  /-- A call by name. A call through a value has that value also as its first argument once the
      receiver is injected. -/
  | call (callee : Expr) (arguments : List Expr) (target : Option FunctionId)
      (receiverInjected : Bool) (line : Nat)
  deriving Repr, Inhabited

namespace Expr

def line : Expr → Nat
  | binary _ _ _ line | literal _ line | var _ _ line | field _ _ _ line | new _ line
  | allocate _ _ line | array _ _ line | index _ _ line | reference _ line | cast _ _ line
  | call _ _ _ _ line => line

def isPlace : Expr → Bool
  | var .. | field .. | index .. => true
  | _ => false

def isLiteral : Expr → Bool
  | literal .. => true
  | _ => false

def isName : Expr → Bool
  | var .. | field .. => true
  | _ => false

def calledName : Expr → String
  | var name .. => name
  | field _ name .. => name
  | _ => "<expression>"

end Expr
end ObjectLang
