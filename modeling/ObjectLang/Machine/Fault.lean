import ObjectLang.Decimal.Positional
set_option autoImplicit false

/-!
# Faults

What can go wrong while a program runs, with the line it is blamed on.
-/

namespace ObjectLang

namespace Fault

inductive Cause
  | unknownVariable (name : String)
  | unknownField (name : String)
  /-- A call that was never bound to a function. -/
  | unresolvedCall (name : String)
  /-- A function that the host does not provide. -/
  | missingNative (name : String)
  | typeViolation (operation lhs rhs : String)
  | expectedBoolean
  | expectedInteger
  | expectedArray
  | expectedObject
  | argumentCount (name : String) (expected found : Nat)
  | indexOutOfBounds (length : Nat) (found : Int)
  | negativeSize (size : Int)
  | allocationFailed (size : Nat)
  | divisionByZero
  | overflow
  | panic (message : String)
  | streamFailure (details : String)
  /-- A line was asked for that has not come yet. -/
  | inputPending
  deriving DecidableEq, Repr

def Cause.message : Cause → String
  | .unknownVariable name => "Unknown variable '" ++ name ++ "'."
  | .unknownField name => "Unknown field '" ++ name ++ "'."
  | .unresolvedCall name => "Call to '" ++ name ++ "' was never resolved."
  | .missingNative name => "No native implementation for '" ++ name ++ "'."
  | .typeViolation operation lhs rhs =>
    "Type violation: cannot apply '" ++ operation ++ "' to " ++ lhs ++ " and " ++ rhs ++ "."
  | .expectedBoolean => "Expected boolean."
  | .expectedInteger => "Expected integer."
  | .expectedArray => "Expected array."
  | .expectedObject => "Expected object."
  | .argumentCount name expected found =>
    "'" ++ name ++ "' expects " ++ toString expected ++ " arguments, but " ++ toString found ++
      " were provided."
  | .indexOutOfBounds length found =>
    "index out of range for array. Length is " ++ toString length ++ ", but found " ++
      Decimal.intText found ++ "."
  | .negativeSize size => "Size must not be negative, found " ++ Decimal.intText size ++ "."
  | .allocationFailed size =>
    "Could not allocate an array of " ++ toString size ++ " elements."
  | .divisionByZero => "Division by zero."
  | .overflow => "Integer overflow while trying to compute result."
  | .panic message => "panic: " ++ message
  | .streamFailure details => "I/O failure: " ++ details ++ "."
  | .inputPending => "Input has not come yet."

end Fault

inductive Fault
  | at (line : Nat) (cause : Fault.Cause)
  /-- There is no module to start from. -/
  | noEntry
  deriving DecidableEq, Repr

def Fault.message : Fault → String
  | .at line cause => "Error on line " ++ toString line ++ ": " ++ cause.message
  | .noEntry => "no module was generated for execution"

end ObjectLang
