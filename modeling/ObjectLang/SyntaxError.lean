set_option autoImplicit false

/-!
# Errors of reading

What can be wrong with the tokens of a file or with the declarations they spell, each with the line
it is reported at.
-/

namespace ObjectLang

namespace SyntaxError

inductive Cause
  | invalidToken (text : String)
  /-- The tokens ran out in the middle of a construct. -/
  | unexpectedEndOfTokens
  /-- The tokens ran out in the middle of the named construct. -/
  | unexpectedEndOf (construct : String)
  | unexpectedToken (found expected : String)
  | unclosedScope (closing : String)
  /-- Tokens that cannot begin a statement. They have been skipped. -/
  | invalidStatement (tokens : String)
  | invalidExpression (token : String)
  | missingLeftOperand
  | missingAssignment
  | missingSemicolon (construct : String)
  | invalidCallee
  | invalidAssignmentTarget
  | invalidForInitializer
  | unknownType (name : String)
  | duplicateType (name : String)
  | unknownTrait (name : String)
  | invalidSignature (token : String)
  | voidParameter (name : String)
  | voidField (name : String)
  | voidElement
  | castToVoid
  | emptyListLiteral
  | untypedListLiteral
  | emptyArrayInitializer
  | arrayInitializerNotLiteral
  | literalTooLarge (text : String)
  | duplicateField (owner field : String)
  | duplicateFunction (name : String)
  | duplicateMethod (owner name : String)
  | invalidOverride (owner name : String)
  | nonObjectParent (name : String)
  | unknownMarker (name : String)
  | unknownModule (name : String)
  | unknownImport (item module : String)
  | privateImport (name : String)
  deriving DecidableEq, Repr

def Cause.message : Cause → String
  | .invalidToken text => "could not tokenize '" ++ text ++ "'"
  | .unexpectedEndOfTokens => "unexpected end of tokens"
  | .unexpectedEndOf construct => "Unexpected end of " ++ construct
  | .unexpectedToken found expected => found ++ " does not equal expected " ++ expected
  | .unclosedScope closing => "expected end of scope operator '" ++ closing ++ "'"
  | .invalidStatement tokens => tokens ++ " is not a valid statement"
  | .invalidExpression token => token ++ " is not a valid expression"
  | .missingLeftOperand => "missing left hand side of binary operation"
  | .missingAssignment => "missing assignment operator or brackets"
  | .missingSemicolon construct => "no semi colon at the end of " ++ construct
  | .invalidCallee => "only variables and fields can be called"
  | .invalidAssignmentTarget => "cannot assign to this expression"
  | .invalidForInitializer => "for loop initializer must be an assignment"
  | .unknownType name => "no type named " ++ name
  | .duplicateType name => "redeclaration of type " ++ name
  | .unknownTrait name => "unknown trait " ++ name
  | .invalidSignature token => token ++ " is not a valid function signature"
  | .voidParameter name => "parameter " ++ name ++ " cannot be of type Void"
  | .voidField name => "field " ++ name ++ " cannot be of type Void"
  | .voidElement => "elements cannot be of type Void"
  | .castToVoid => "cannot cast to Void"
  | .emptyListLiteral => "cannot infer the element type of an empty list literal"
  | .untypedListLiteral => "the first element of a list literal must be a literal value"
  | .emptyArrayInitializer => "array initializer cannot be empty"
  | .arrayInitializerNotLiteral => "array initializer can only be literal value"
  | .literalTooLarge text => "literal " ++ text ++ " is too large"
  | .duplicateField owner field => owner ++ " already has a field named " ++ field
  | .duplicateFunction name => "redeclaration of function " ++ name
  | .duplicateMethod owner name => owner ++ " already has method named " ++ name
  | .invalidOverride owner name =>
    owner ++ "." ++ name ++ " does not override a virtual method with a matching signature"
  | .nonObjectParent name => "Cannot derive from non-object type " ++ name
  | .unknownMarker name => "no valid annotation named " ++ name
  | .unknownModule name => "no module named " ++ name
  | .unknownImport item module => "no function or object named " ++ item ++ " in module " ++ module
  | .privateImport name => "cannot use function " ++ name ++ " because it is private"

end SyntaxError

structure SyntaxError where
  cause : SyntaxError.Cause
  line : Nat
  deriving DecidableEq, Repr

namespace SyntaxError

def message (e : SyntaxError) : String := e.cause.message

def within (e : SyntaxError) (construct : String) : SyntaxError :=
  match e.cause with
  | .unexpectedEndOfTokens => { e with cause := .unexpectedEndOf construct }
  | _ => e

def isEndOfTokens (e : SyntaxError) : Bool :=
  match e.cause with
  | .unexpectedEndOfTokens | .unexpectedEndOf _ => true
  | _ => false

def hasRecovered (e : SyntaxError) : Bool :=
  match e.cause with
  | .invalidStatement _ => true
  | _ => false

end SyntaxError
end ObjectLang
