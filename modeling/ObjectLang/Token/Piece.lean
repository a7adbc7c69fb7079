import ObjectLang.Token.Kind
set_option autoImplicit false

/-!
# Cutting a text into pieces

A text is cut from left to right into pieces, each the longest that its first character allows: the
text of a token, a run of skipped characters, or characters that belong to no token. The pieces in
a row are the text again. No piece but a line feed itself contains a line feed.
-/

namespace ObjectLang

/-- A part of a text. Characters that belong to no token have no kind. -/
structure Piece where
  kind : Option TokenKind
  text : List Char
  deriving DecidableEq, Repr

namespace Piece

def isWordStart (c : Char) : Bool := c.isAlpha || c == '_'

def isWordPart (c : Char) : Bool := c.isAlphanum || c == '_'

def isDigit (c : Char) : Bool := c.isDigit

def isSpace (c : Char) : Bool := c == ' ' || c == '\t' || c == '\r' || c == '\x0c'

def run (p : Char → Bool) (cs : List Char) : Nat := (cs.takeWhile p).length

/-- Reads the rest of a string after its opening quote: whether it is closed on its line, and how
    many characters it takes. A backslash joins the character after it to the string. -/
def stringRest : List Char → Bool × Nat
  | [] => (false, 0)
  | '"' :: _ => (true, 1)
  | '\n' :: _ => (false, 0)
  | ['\\'] => (false, 1)
  | '\\' :: '\n' :: _ => (false, 1)
  | '\\' :: _ :: cs => let (closed, n) := stringRest cs; (closed, n + 2)
  | _ :: cs => let (closed, n) := stringRest cs; (closed, n + 1)

/-- A number with a point may begin with zeros; one without a point is a lone zero or begins with
    another digit. -/
def numberRest (c : Char) (cs : List Char) : TokenKind × Nat :=
  let whole := run isDigit cs
  match cs.drop whole with
  | '.' :: fraction => (.rational, whole + 1 + run isDigit fraction)
  | _ => (.integer, if c = '0' then 0 else whole)

/-- A symbol of two characters goes before one of one character. -/
def symbolRest (c : Char) (cs : List Char) : Option TokenKind × Nat :=
  match cs.head?.bind fun d => TokenKind.pairs.lookup (c, d) with
  | some kind => (some kind, 1)
  | none => (TokenKind.symbols.lookup c, 0)

/-- The kind of the piece that begins with `c`, and how many of the characters after `c` it
    takes. -/
def lead (c : Char) (cs : List Char) : Option TokenKind × Nat :=
  if c = '\n' then (some .whitespace, 0)
  else if isSpace c then (some .whitespace, run isSpace cs)
  else if c = '/' ∧ cs.head? = some '/' then
    (some .whitespace, run (fun d => d != '\n' && d != '\r') cs)
  else if isWordStart c then
    let rest := run isWordPart cs
    (some (.ofWord (String.ofList (c :: cs.take rest))), rest)
  else if isDigit c then
    let (kind, rest) := numberRest c cs
    (some kind, rest)
  else if c = '"' then
    let (closed, rest) := stringRest cs
    (if closed then some .string else none, rest)
  else if c = '@' then
    let rest := run Char.isLower cs
    (if rest = 0 then none else some .marker, rest)
  else symbolRest c cs

def cut : List Char → List Piece
  | [] => []
  | c :: cs =>
    let (kind, rest) := lead c cs
    ⟨kind, c :: cs.take rest⟩ :: cut (cs.drop rest)
termination_by cs => cs.length
decreasing_by simp only [List.length_cons, List.length_drop]; omega

theorem cut_nil : cut [] = [] := by rw [cut]

theorem cut_cons (c : Char) (cs : List Char) :
    cut (c :: cs) =
      ⟨(lead c cs).1, c :: cs.take (lead c cs).2⟩ :: cut (cs.drop (lead c cs).2) := by
  rw [cut]

/-- Cutting loses nothing and changes no order. -/
theorem flatMap_text_cut (cs : List Char) : (cut cs).flatMap Piece.text = cs := by
  induction cs using cut.induct with
  | case1 => simp [cut_nil]
  | case2 c cs kind rest h ih =>
    have hr : (lead c cs).2 = rest := by rw [h]
    rw [cut_cons, List.flatMap_cons, hr, ih, List.cons_append, List.take_append_drop]

end Piece
end ObjectLang
