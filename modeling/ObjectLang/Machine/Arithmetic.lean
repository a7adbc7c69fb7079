import ObjectLang.Machine.Value
set_option autoImplicit false

/-!
# Arithmetic

Integers are computed exactly or not at all, floats as the hardware does. Texts are joined by `+`
and ordered by length; on truth values `+` and `or` are the same, and so are `*` and `and`.
-/

namespace ObjectLang

def Value.exact (result : Option Word) : Except Fault.Cause Value :=
  match result with
  | some value => .ok (.int value)
  | none => .error .overflow

namespace BinaryOperator

def applyInt (op : BinaryOperator) (a b : Word) : Option (Except Fault.Cause Value) :=
  match op with
  | add => some (Value.exact (Word.add? a b))
  | subtract => some (Value.exact (Word.sub? a b))
  | multiply => some (Value.exact (Word.mul? a b))
  | divide =>
    some (if b = 0 then .error .divisionByZero else Value.exact (Word.div? a b))
  | less => some (.ok (.bool (a < b)))
  | lessEqual => some (.ok (.bool (a ≤ b)))
  | greater => some (.ok (.bool (b < a)))
  | greaterEqual => some (.ok (.bool (b ≤ a)))
  | equal | notEqual | and | or => none

def applyFloat (op : BinaryOperator) (a b : Float) : Option Value :=
  match op with
  | add => some (.float (a + b))
  | subtract => some (.float (a - b))
  | multiply => some (.float (a * b))
  | divide => some (.float (a / b))
  | less => some (.bool (a < b))
  | lessEqual => some (.bool (a ≤ b))
  | greater => some (.bool (b < a))
  | greaterEqual => some (.bool (b ≤ a))
  | equal | notEqual | and | or => none

def applyChar (op : BinaryOperator) (a b : String) : Option Value :=
  match op with
  | add => some (.char (a ++ b))
  | less => some (.bool (a.length < b.length))
  | lessEqual => some (.bool (a.length ≤ b.length))
  | greater => some (.bool (b.length < a.length))
  | greaterEqual => some (.bool (b.length ≤ a.length))
  | subtract | multiply | divide | equal | notEqual | and | or => none

def applyBool (op : BinaryOperator) (a b : Bool) : Option Value :=
  match op with
  | add | or => some (.bool (a || b))
  | multiply | and => some (.bool (a && b))
  | subtract | divide | less | lessEqual | greater | greaterEqual | equal | notEqual => none

def applyKnown (op : BinaryOperator) : Value → Value → Option (Except Fault.Cause Value)
  | .int a, .int b => op.applyInt a b
  | .float a, .float b => (op.applyFloat a b).map .ok
  | .char a, .char b => (op.applyChar a b).map .ok
  | .bool a, .bool b => (op.applyBool a b).map .ok
  | _, _ => none

/-- Applies an operator to two values. Any two values can be compared for equality. -/
def apply (op : BinaryOperator) (a b : Value) : Except Fault.Cause Value :=
  match op with
  | equal => .ok (.bool (a.equals b))
  | notEqual => .ok (.bool (!a.equals b))
  | op => (op.applyKnown a b).getD (.error (.typeViolation op.symbol a.kind b.kind))

end BinaryOperator

namespace Value

/-- Converts between numbers. Other values stay as they are, whatever the type. -/
def cast (value : Value) (type : TypeId) : Except Fault.Cause Value :=
  match value with
  | int i =>
    if type = .float then
      match Word.toFloat? i with
      | some x => .ok (float x)
      | none => .error .overflow
    else .ok (int i)
  | float x => if type = .int then exact (Word.ofFloat? x) else .ok (float x)
  | value => .ok value

def place (index : Word) (length : Nat) : Except Fault.Cause Nat :=
  match Word.place? index length with
  | some i => .ok i
  | none => .error (.indexOutOfBounds length index.toInt)

def count (size : Word) : Except Fault.Cause Nat :=
  match Word.count? size with
  | some n => .ok n
  | none => .error (.negativeSize size.toInt)

end Value
end ObjectLang
