set_option autoImplicit false

/-!
# Errors of types

What checking can find wrong, and its wording.
-/

namespace ObjectLang

inductive TypeError
  | unknownType (name : String)
  | operandMismatch (lhs rhs : String)
  | fieldOfNonObject (type : String)
  | unknownField (type field : String)
  | undeclaredVariable (name : String)
  | typeUsedAsValue (name : String)
  | redeclaration (name : String)
  | assignmentMismatch (found expected : String)
  | voidAssignment (name : String)
  | notAnArray (type : String)
  | nonIntegerIndex (type : String)
  | nonIntegerSize (type : String)
  | arrayElementMismatch (found expected : String)
  | invalidDeclaration
  | referenceOfNonVariable
  | conditionNotBool (type : String)
  | returnVoid
  | returnMismatch (found expected : String)
  | unknownFunction (name arguments : String)
  | unknownMethod (type name : String)
  | arityMismatch (name : String) (expected found : Nat)
  | argumentMismatch (found expected : String)
  | notCallable
  /-- A member was queued where no list is being walked. -/
  | noOwningBlock
  deriving DecidableEq, Repr

namespace TypeError

def message : TypeError → String
  | unknownType name => "no primitive type named " ++ name
  | operandMismatch lhs rhs => "binary operand types mismatch: " ++ lhs ++ " and " ++ rhs
  | fieldOfNonObject type => "cannot access a field of a non-object type " ++ type
  | unknownField type field => type ++ " has no field named " ++ field
  | undeclaredVariable name => "variable not declared " ++ name
  | typeUsedAsValue name => name ++ " is a type, not a value"
  | redeclaration name => "redeclaration of local variable " ++ name
  | assignmentMismatch found expected =>
    "expression type " ++ found ++ " does not equal specified type " ++ expected
  | voidAssignment name => "cannot assign a Void value to " ++ name
  | notAnArray type => "cannot index non array type " ++ type
  | nonIntegerIndex type => "cannot index with non integer type " ++ type
  | nonIntegerSize type => "array size must be Int, found " ++ type
  | arrayElementMismatch found expected =>
    "array element of type " ++ found ++ " does not equal element type " ++ expected
  | invalidDeclaration => "only variables can be declared"
  | referenceOfNonVariable => "cannot take reference from non-variable"
  | conditionNotBool type => "condition must be Bool, found " ++ type
  | returnVoid => "cannot return void"
  | returnMismatch found expected => found ++ " is not same as " ++ expected
  | unknownFunction name arguments =>
    "no function named " ++ name ++ " with arguments: " ++ arguments
  | unknownMethod type name => type ++ " has no method named " ++ name
  | arityMismatch name expected found =>
    "function " ++ name ++ " expects " ++ toString expected ++ " arguments, but " ++
      toString found ++ " were provided"
  | argumentMismatch found expected => found ++ " does not equal expected " ++ expected
  | notCallable => "expression is not callable"
  | noOwningBlock => "cannot insert a statement without an owning block"

end TypeError
end ObjectLang
