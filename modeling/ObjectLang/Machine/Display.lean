import ObjectLang.Machine.Heap
set_option autoImplicit false

/-!
# Values as text

Arrays show their slots in angle brackets. The text comes in the parts in which it is written. An
array that contains itself has no text.
-/

namespace ObjectLang.Heap

def separate : List (List String) → List String
  | [] => []
  | [parts] => parts
  | parts :: rest => parts ++ ", " :: separate rest

def partsWithin (h : Heap) : Nat → Value → Option (List String)
  | _, .int value => some (Decimal.intParts value.toInt)
  | _, .float value => some (Decimal.floatParts value)
  | _, .char value => some [value]
  | _, .bool true => some ["True"]
  | _, .bool false => some ["False"]
  | _, .object _ => some ["<object>"]
  | _, .void => some ["None"]
  | 0, .array _ => none
  | depth + 1, .array ref =>
    ((h.array ref).toList.mapM (h.partsWithin depth)).map fun slots =>
      "<" :: separate slots ++ [">"]

/-- The parts of a value. Arrays that are nested deeper than there are arrays contain
    themselves. -/
def parts? (h : Heap) (value : Value) : Option (List String) := h.partsWithin h.arrays.size value

def text? (h : Heap) (value : Value) : Option String := (h.parts? value).map String.join

end ObjectLang.Heap
