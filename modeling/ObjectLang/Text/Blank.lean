set_option autoImplicit false

/-!
# Blank characters

The characters of Unicode's `White_Space` property, and the removal of such a class of characters
from the ends of a text.
-/

namespace ObjectLang.Text

def isBlank (c : Char) : Bool :=
  let n := c.toNat
  (9 ≤ n && n ≤ 13) || n == 0x20 || n == 0x85 || n == 0xA0 || n == 0x1680 ||
    (0x2000 ≤ n && n ≤ 0x200A) || n == 0x2028 || n == 0x2029 || n == 0x202F ||
    n == 0x205F || n == 0x3000

variable {α : Type}

def dropEndWhile (p : α → Bool) (xs : List α) : List α :=
  (xs.reverse.dropWhile p).reverse

def stripWhile (p : α → Bool) (xs : List α) : List α :=
  dropEndWhile p (xs.dropWhile p)

def trim (cs : List Char) : List Char := stripWhile isBlank cs

def trimEnd (cs : List Char) : List Char := dropEndWhile isBlank cs

end ObjectLang.Text
