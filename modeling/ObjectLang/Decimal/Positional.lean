import ObjectLang.Decimal.Shortest
set_option autoImplicit false

/-!
# Floats as text

A float is written with the fewest digits that read back, always positionally and never with an
exponent; a whole number has no decimal point. The text is built from parts, in the order in which
a writer emits them.
-/

namespace ObjectLang.Decimal

def zeroRun : Nat := 64

def zeros (n : Nat) : List String :=
  List.replicate (n / zeroRun) (String.ofList (List.replicate zeroRun '0')) ++
    if n % zeroRun = 0 then [] else [String.ofList (List.replicate (n % zeroRun) '0')]

def Scientific.positional (d : Scientific) : List String :=
  let digits := Nat.toDigits 10 d.digits
  /- the place of the decimal point, counted from the first digit -/
  let point : Int := d.exponent + digits.length
  if point ≤ 0 then
    "0." :: zeros (-point).toNat ++ [String.ofList digits]
  else if point < digits.length then
    [String.ofList (digits.take point.toNat), ".", String.ofList (digits.drop point.toNat)]
  else
    String.ofList digits :: zeros (point - digits.length).toNat

inductive FloatClass
  | nan
  | infinite (negative : Bool)
  | zero (negative : Bool)
  | finite (negative : Bool) (magnitude : Binary)

def classify (x : Float) : FloatClass :=
  let bits : Nat := x.toBits.toNat
  let negative := bits / Nat.pow 2 63 == 1
  let exponent : Nat := bits / Nat.pow 2 52 % Nat.pow 2 11
  let fraction : Nat := bits % Nat.pow 2 52
  if exponent = 2047 then
    if fraction = 0 then .infinite negative else .nan
  else if exponent = 0 then
    if fraction = 0 then .zero negative else .finite negative ⟨fraction, -1074, false⟩
  else
    .finite negative ⟨Nat.pow 2 52 + fraction, (exponent : Int) - 1075,
      fraction == 0 && 1 < exponent⟩

def signed (negative : Bool) (parts : List String) : List String :=
  if negative then "-" :: parts else parts

def floatParts (x : Float) : List String :=
  match classify x with
  | .nan => ["NaN"]
  | .infinite negative => signed negative ["inf"]
  | .zero negative => signed negative ["0"]
  | .finite negative magnitude => signed negative magnitude.shortest.positional

def floatText (x : Float) : String := String.join (floatParts x)

def intParts (i : Int) : List String :=
  signed (i < 0) [String.ofList (Nat.toDigits 10 i.natAbs)]

def intText (i : Int) : String := String.join (intParts i)

/-- The value of decimal digits. Other characters count as zero. -/
def natOfDigits (cs : List Char) : Nat :=
  cs.foldl (fun n c => 10 * n + (c.toNat - '0'.toNat)) 0

/-- The float nearest to a number written as digits, a point and more digits. -/
def readFloat (cs : List Char) : Float :=
  let whole := cs.takeWhile (· ≠ '.')
  let fraction := (cs.dropWhile (· ≠ '.')).drop 1
  Float.ofScientific (natOfDigits (whole ++ fraction)) true fraction.length

end ObjectLang.Decimal
