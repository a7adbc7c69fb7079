set_option autoImplicit false

/-!
# The shortest decimal of a binary number

A finite float other than zero has the magnitude `mantissa * 2 ^ exponent`. All reals that are
nearer to it than to any other float form an interval around it, and every decimal in that interval
reads back as the same float. Among these decimals the shortest is chosen, and of the shortest the
one nearest to the float; an exact tie goes away from zero. Everything is computed on natural
numbers: the float and the ends of its interval are brought to one denominator.
-/

namespace ObjectLang.Decimal

/-- A positive binary magnitude. The spacing of floats halves below a power of two. -/
structure Binary where
  mantissa : Nat
  exponent : Int
  halvesBelow : Bool

structure Scientific where
  digits : Nat
  exponent : Int
  deriving DecidableEq, Repr

/-- A magnitude and its interval over one denominator. -/
structure Interval where
  value : Nat
  low : Nat
  high : Nat
  denominator : Nat
  /-- Whether the ends themselves belong to the interval. -/
  closed : Bool

/-- Half a unit above the value, and half or a quarter of one below it. -/
def Binary.interval (b : Binary) : Interval :=
  let exponent := b.exponent - 2
  let up := Nat.pow 2 exponent.toNat
  { value := 4 * b.mantissa * up
    low := (4 * b.mantissa - if b.halvesBelow then 1 else 2) * up
    high := (4 * b.mantissa + 2) * up
    denominator := Nat.pow 2 (-exponent).toNat
    closed := b.mantissa % 2 == 0 }

def Interval.contains (i : Interval) (n : Nat) : Bool :=
  if i.closed then i.low ≤ n && n ≤ i.high else i.low < n && n < i.high

/-- Multiplies all numerators and the denominator so that one unit in the last of the decimal
    places `10 ^ exponent` becomes a natural number of denominators. -/
def Interval.scaled (i : Interval) (exponent : Int) : Interval :=
  let up := Nat.pow 10 (-exponent).toNat
  { i with
    value := i.value * up
    low := i.low * up
    high := i.high * up
    denominator := i.denominator * Nat.pow 10 exponent.toNat }

def digitCount (n : Nat) : Nat := (Nat.toDigits 10 n).length

/-- The least `k` such that the value is below `10 ^ k`. The shift exceeds the number of zeros that
    follow the decimal point of any float. -/
def Interval.magnitude (i : Interval) : Int :=
  let shift : Nat := 400
  (digitCount (i.value * Nat.pow 10 shift / i.denominator) : Int) - shift

/-- The nearer of the two multiples of `10 ^ exponent` around the value that lie in the interval. -/
def Interval.onGrid (i : Interval) (exponent : Int) : Option Nat :=
  let s := i.scaled exponent
  let below := s.value / s.denominator
  let above := below + 1
  match s.contains (below * s.denominator), s.contains (above * s.denominator) with
  | false, false => none
  | true, false => some below
  | false, true => some above
  | true, true =>
    if s.value - below * s.denominator < above * s.denominator - s.value then some below
    else some above

/-- Tries grids of `count`, `count + 1`, … digits, at most `fuel` of them. -/
def Interval.search (i : Interval) (magnitude : Int) : Nat → Nat → Scientific
  | 0, count => ⟨i.value * Nat.pow 10 count / i.denominator, -count⟩
  | fuel + 1, count =>
    let exponent := magnitude - count
    match i.onGrid exponent with
    | some digits => ⟨digits, exponent⟩
    | none => i.search magnitude fuel (count + 1)

def Scientific.normalize (d : Scientific) : Scientific :=
  if h : d.digits ≠ 0 ∧ d.digits % 10 = 0 then
    normalize ⟨d.digits / 10, d.exponent + 1⟩
  else d
termination_by d.digits
decreasing_by omega

/-- Seventeen digits tell all floats apart. -/
def Binary.shortest (b : Binary) : Scientific :=
  let i := b.interval
  (i.search i.magnitude 17 1).normalize

end ObjectLang.Decimal
