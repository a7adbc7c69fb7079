import ObjectLang.SyntaxError
import ObjectLang.Token.Basic
set_option autoImplicit false

/-!
# Cursors

The tokens that are still to be read, with the line of the token read last. The tokens of a file
end with the token that closes it; those cut out of a pair of brackets do not.
-/

namespace ObjectLang

structure Cursor where
  tokens : List Token
  file : String
  /-- The line of the token that was read last. -/
  line : Nat
  deriving Repr, Inhabited

namespace Cursor

def ofTokens (file : String) (tokens : List Token) : Cursor :=
  ⟨tokens, file, (tokens.head?.map Token.line).getD 1⟩

def size (c : Cursor) : Nat := c.tokens.length

def isEmpty (c : Cursor) : Bool := c.tokens.isEmpty

def front? (c : Cursor) : Option Token := c.tokens.head?

def peek (c : Cursor) : Option TokenKind := c.front?.map Token.kind

def check (c : Cursor) (kind : TokenKind) : Bool := c.peek == some kind

/-- Whether at most the token that closes the file is left. -/
def atEnd (c : Cursor) : Bool :=
  match c.peek with
  | none | some .endOfFile => true
  | some _ => false

def advance (c : Cursor) : Cursor :=
  match c.tokens with
  | [] => c
  | t :: rest => { c with tokens := rest, line := t.line }

def endError (c : Cursor) : SyntaxError := ⟨.unexpectedEndOfTokens, c.line⟩

def look (c : Cursor) : Except SyntaxError Token :=
  match c.tokens with
  | [] => .error c.endError
  | t :: _ => .ok t

def demand (kind : TokenKind) (t : Token) : Except SyntaxError Token :=
  if t.kind = kind then .ok t else .error ⟨.unexpectedToken t.describe kind.describe, t.line⟩

def advanceIf (c : Cursor) (kind : TokenKind) : Bool × Cursor :=
  if c.check kind then (true, c.advance) else (false, c)

def skipTokens (stop : Token → Bool) (line : Nat) : List Token → List Token × Nat
  | [] => ([], line)
  | t :: rest => if stop t then (t :: rest, line) else skipTokens stop t.line rest

def skipTo (c : Cursor) (stop : Token → Bool) : Cursor :=
  let (tokens, line) := skipTokens (fun t => stop t || t.kind == .endOfFile) c.line c.tokens
  { c with tokens, line }

def skipUntil (c : Cursor) (kinds : List TokenKind) : Cursor :=
  c.skipTo fun t => kinds.contains t.kind

theorem size_advance_le (c : Cursor) : c.advance.size ≤ c.size := by
  unfold advance size
  split <;> simp_all

theorem length_skipTokens_le (stop : Token → Bool) (line : Nat) (ts : List Token) :
    (skipTokens stop line ts).1.length ≤ ts.length := by
  induction ts generalizing line with
  | nil => simp [skipTokens]
  | cons t rest ih =>
    simp only [skipTokens]
    split
    · simp
    · exact Nat.le_succ_of_le (ih t.line)

theorem size_skipTo_le (c : Cursor) (stop : Token → Bool) : (c.skipTo stop).size ≤ c.size :=
  length_skipTokens_le _ c.line c.tokens

theorem size_skipUntil_le (c : Cursor) (kinds : List TokenKind) :
    (c.skipUntil kinds).size ≤ c.size :=
  c.size_skipTo_le _

theorem size_advanceIf_le (c : Cursor) (kind : TokenKind) :
    (c.advanceIf kind).2.size ≤ c.size := by
  unfold advanceIf
  split
  · exact c.size_advance_le
  · exact Nat.le_refl _

end Cursor
end ObjectLang
