set_option autoImplicit false

/-!
# Words

The integers of the language are words of 64 bits with a sign. Arithmetic is that of the unbounded
integers, with no answer where the exact value is no word; division goes toward zero.
-/

namespace ObjectLang

abbrev Word := Int64

namespace Word

/-- The word with the exact value `i`, if there is one. The bounds are two to the power of 63. -/
def ofInt? (i : Int) : Option Word :=
  if -9223372036854775808 ≤ i ∧ i < 9223372036854775808 then some (Int64.ofInt i) else none

def add? (a b : Word) : Option Word := ofInt? (a.toInt + b.toInt)

def sub? (a b : Word) : Option Word := ofInt? (a.toInt - b.toInt)

def mul? (a b : Word) : Option Word := ofInt? (a.toInt * b.toInt)

/-- The quotient rounded toward zero, for a divisor other than zero. -/
def div? (a b : Word) : Option Word := ofInt? (a.toInt.tdiv b.toInt)

def place? (i : Word) (length : Nat) : Option Nat :=
  if 0 ≤ i.toInt ∧ i.toInt < length then some i.toInt.toNat else none

def count? (i : Word) : Option Nat :=
  if 0 ≤ i.toInt then some i.toInt.toNat else none

/-- The greatest magnitude up to which every integer and its neighbours are floats: one less than
    two to the power of 53. -/
def greatestExact : Nat := 9007199254740991

/-- The float of the same value, within the range where all integers are floats. -/
def toFloat? (i : Word) : Option Float :=
  if i.toInt.natAbs ≤ greatestExact then some (Float.ofInt i.toInt) else none

def ofFloat? (x : Float) : Option Word :=
  if -9223372036854775808.0 ≤ x && x < 9223372036854775808.0 then some x.toInt64 else none

theorem toInt_ofInt? {i : Int} {w : Word} (h : ofInt? i = some w) : w.toInt = i := by
  unfold ofInt? at h
  split at h
  · rename_i hi
    cases h
    exact Int64.toInt_ofInt_of_le (by omega) (by omega)
  · cases h

end Word
end ObjectLang
