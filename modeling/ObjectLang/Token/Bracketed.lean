import ObjectLang.Token.Cursor
set_option autoImplicit false

/-!
# Bracketed tokens

The tokens from an opening bracket to the closing bracket that balances it can be cut out of a
cursor and read on their own. Brackets of other kinds inside are not looked at. Nothing is cut
beyond the token that closes a file.
-/

namespace ObjectLang

/-- Tokens split at a closing bracket, or the tokens left where that bracket is missing. -/
inductive Balance
  | closed (inside : List Token) (bracket : Token) (rest : List Token)
  | unclosed (rest : List Token)
  deriving DecidableEq, Repr

namespace Balance

def cons (t : Token) : Balance → Balance
  | closed inside bracket rest => closed (t :: inside) bracket rest
  | unclosed rest => unclosed rest

/-- Splits tokens at the bracket that closes the outermost of `depth + 1` open ones. -/
def find (opening closing : TokenKind) : Nat → List Token → Balance
  | _, [] => unclosed []
  | depth, t :: rest =>
    if t.kind = .endOfFile then unclosed rest
    else if t.kind = opening then (find opening closing (depth + 1) rest).cons t
    else if t.kind = closing then
      match depth with
      | 0 => closed [] t rest
      | depth + 1 => (find opening closing depth rest).cons t
    else (find opening closing depth rest).cons t

def size : Balance → Nat
  | closed inside _ rest => max inside.length rest.length
  | unclosed rest => rest.length

theorem size_cons_le (t : Token) (b : Balance) : (b.cons t).size ≤ b.size + 1 := by
  cases b <;> simp only [cons, size, List.length_cons] <;> omega

theorem size_find_le (opening closing : TokenKind) (depth : Nat) (ts : List Token) :
    (find opening closing depth ts).size ≤ ts.length := by
  induction ts generalizing depth with
  | nil => simp [find, size]
  | cons t rest ih =>
    have step (d : Nat) : ((find opening closing d rest).cons t).size ≤ rest.length + 1 :=
      Nat.le_trans (size_cons_le t _) (Nat.succ_le_succ (ih d))
    simp only [find, List.length_cons]
    split
    · simp [size]
    · split
      · exact step _
      · split
        · cases depth with
          | zero => simp [size]
          | succ depth => exact step _
        · exact step _

end Balance

namespace Cursor

/-- Cuts the bracketed tokens at the front of a cursor, brackets included. The line of the cursor
    itself stays. -/
def cutBracketed (c : Cursor) (opening closing : TokenKind) :
    Except SyntaxError Cursor × Cursor :=
  match c.tokens with
  | [] => (.error c.endError, c)
  | first :: rest =>
    if first.kind = opening then
      match Balance.find opening closing 0 rest with
      | .closed inside bracket rest =>
        (.ok ⟨first :: inside ++ [bracket], c.file, first.line⟩, { c with tokens := rest })
      | .unclosed rest =>
        (.error ⟨.unclosedScope closing.describe, first.line⟩, { c with tokens := rest })
    else (.error ⟨.unexpectedToken first.describe opening.describe, first.line⟩, c)

/-- Removes the brackets around cut tokens. The opening one counts as read. -/
def dropBrackets (c : Cursor) : Cursor :=
  { c.advance with tokens := c.advance.tokens.dropLast }

def cutInside (c : Cursor) (opening closing : TokenKind) : Except SyntaxError Cursor × Cursor :=
  let (cut, rest) := c.cutBracketed opening closing
  (cut.map dropBrackets, rest)

theorem size_cutInside {c : Cursor} {first : Token} {rest : List Token}
    (h : c.tokens = first :: rest) (closing : TokenKind) :
    (c.cutInside first.kind closing).2.size ≤ rest.length ∧
      ∀ inner, (c.cutInside first.kind closing).1 = .ok inner → inner.size ≤ rest.length := by
  have hsize := Balance.size_find_le first.kind closing 0 rest
  simp only [cutInside, cutBracketed, h, if_true]
  cases hb : Balance.find first.kind closing 0 rest with
  | closed inside bracket behind =>
    simp only [hb, Balance.size] at hsize
    refine ⟨by simp only [size]; omega, fun inner hi => ?_⟩
    simp only [Except.map, Except.ok.injEq] at hi
    subst hi
    simp only [dropBrackets, advance, size, List.cons_append, List.dropLast_concat]
    omega
  | unclosed behind =>
    simp only [hb, Balance.size] at hsize
    refine ⟨hsize, fun inner hi => ?_⟩
    simp [Except.map] at hi

end Cursor
end ObjectLang
