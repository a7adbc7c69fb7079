import ObjectLang.Token.Kind
set_option autoImplicit false

/-!
# Operators

The operators between two expressions. Exactly the tokens of the operator class spell one.
-/

namespace ObjectLang

inductive BinaryOperator
  | add | subtract | multiply | divide
  | equal | notEqual | less | lessEqual | greater | greaterEqual
  | and | or
  deriving DecidableEq, Repr, Inhabited

namespace BinaryOperator

/-- Comparisons and logical operators yield `Bool` whatever their operands. -/
def isBoolean : BinaryOperator → Bool
  | add | subtract | multiply | divide => false
  | _ => true

def symbol : BinaryOperator → String
  | add => "+"
  | subtract => "-"
  | multiply => "*"
  | divide => "/"
  | equal => "=="
  | notEqual => "!="
  | less => "<"
  | lessEqual => "<="
  | greater => ">"
  | greaterEqual => ">="
  | and => "and"
  | or => "or"

def all : List BinaryOperator :=
  [add, subtract, multiply, divide, equal, notEqual, less, lessEqual, greater, greaterEqual, and,
    or]

def ofToken? : TokenKind → Option BinaryOperator
  | .plus => some add
  | .minus => some subtract
  | .times => some multiply
  | .divide => some divide
  | .same => some equal
  | .different => some notEqual
  | .less => some less
  | .lessEqual => some lessEqual
  | .greater => some greater
  | .greaterEqual => some greaterEqual
  | .andWord => some and
  | .orWord => some or
  | _ => none

theorem isSome_ofToken? (kind : TokenKind) : (ofToken? kind).isSome = kind.isBinaryOperator := by
  cases kind <;> rfl

end BinaryOperator
end ObjectLang
