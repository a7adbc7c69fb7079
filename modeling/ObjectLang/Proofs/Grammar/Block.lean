import ObjectLang.Proofs.Grammar.Apart
import ObjectLang.Proofs.Token.Bracketed
set_option autoImplicit false

/-!
# Errors inside a block stay inside it

The tokens between balanced braces are cut out before they are read. So however broken they are, they
make up one block with the statements that they spell on their own, and what stands behind the closing
brace is read as if nothing had been wrong in front of it.
-/

namespace ObjectLang

/-- Balanced tokens are cut out with the brackets around them. -/
theorem Cursor.cutInside_balanced {opening close : TokenKind} (differ : opening ≠ close)
    (closes : close ≠ .endOfFile) {first last : Token} {inside : List Token}
    (notEnd : ∀ t ∈ inside, t.kind ≠ .endOfFile) (balanced : Balanced opening close inside)
    (opens : first.kind = opening) (ends : last.kind = close) {c : Cursor} {rest : List Token}
    (front : c.tokens = first :: (inside ++ last :: rest)) :
    c.cutInside opening close =
      (.ok ⟨inside, c.file, first.line⟩, { c with tokens := rest }) := by
  have found := Balance.find_balanced differ closes notEnd balanced ends rest
  rw [cutInside, cutBracketed, front]
  dsimp only
  rw [if_pos opens, found]
  simp only [Except.map, dropBrackets, advance, List.cons_append, List.dropLast_concat]

namespace Grammar

theorem statementAt_block {s : State} (k : Taken s) (opens : k.token.kind = .braceOpen) :
    statementAt k =
      (k.inside .braceClose fun t _ => statements t).map fun body => .block body k.token.line := by
  rw [statementAt.eq_def]
  dsimp only
  rw [opens]

/-- Where braces are cut out, the statements between them are those that they spell on their own, and
    reading goes on behind the braces. -/
theorem Reading.block {s t : State} {inside whole rest : List Token} {body : List Statement}
    {errors : List Diagnostic} (read : Reading s inside body errors t) {line : Nat}
    (k : Taken (s.facing whole)) (opens : k.token.kind = .braceOpen)
    (cut : (s.facing whole).cursor.cutInside k.token.kind .braceClose =
      (.ok ⟨inside, s.cursor.file, k.token.line⟩, ⟨rest, s.cursor.file, line⟩)) :
    (statementAt k).outcome =
      (.ok (.block body k.token.line), (t.facing rest).atLine line) := by
  have closed := inside_closed k .braceClose (fun t _ => statements t) (congrArg Prod.fst cut)
  rw [cut] at closed
  -- Between the braces, the cursor behind them waits.
  let behind : Cursor := ⟨rest, s.cursor.file, line⟩
  obtain ⟨line', alone⟩ := read.outcome_atLine k.token.line
  have within := (statements_outer _ (behind :: s.outer)).outcome alone
  have left : { t with cursor := behind, outer := s.outer } = (t.facing rest).atLine line :=
    congrArg₂ (fun file outer => ({ t with cursor := ⟨rest, file, line⟩, outer } : State))
      read.file.symm read.outer.symm
  have inner : (k.inside .braceClose fun t _ => statements t).outcome =
      (.ok body, (t.facing rest).atLine line) := by
    refine closed.trans (.trans ?_ (congrArg (Prod.mk _) left))
    exact congrArg (fun x : Except SyntaxError (List Statement) × State =>
      (x.1, x.2.leave (s.facing whole) behind)) within
  rw [statementAt_block k opens]
  exact Step.outcome_map inner _

/-- Balanced tokens between braces are read as one block of the statements that they spell on their own,
    and the tokens behind the closing brace as what they spell on their own where the former tokens have
    been read. The errors of the former come first, and there are no others. -/
theorem block_contained (s : State) {opening closing : Token} {inside : List Token}
    (rest : List Token) (opens : opening.kind = .braceOpen) (closes : closing.kind = .braceClose)
    (notEnd : ∀ t ∈ inside, t.kind ≠ .endOfFile)
    (balanced : Balanced .braceOpen .braceClose inside) :
    ∃ body errors t after later u line,
      Reading s inside body errors t ∧ Reading t rest after later u ∧
      Reading s (opening :: (inside ++ closing :: rest)) (.block body opening.line :: after)
        (errors ++ later) (u.atLine line) := by
  obtain ⟨body, errors, t, read⟩ := Reading.total s inside
  obtain ⟨after, later, u, goesOn⟩ := Reading.total t rest
  let whole := s.facing (opening :: (inside ++ closing :: rest))
  let k : Taken whole := ⟨opening, whole.seek (inside ++ closing :: rest) opening.line, rfl⟩
  have cut : whole.cursor.cutInside opening.kind .braceClose =
      (.ok ⟨inside, s.cursor.file, opening.line⟩, ⟨rest, s.cursor.file, opening.line⟩) := by
    rw [opens]
    exact Cursor.cutInside_balanced (by decide) (by decide) notEnd balanced opens closes rfl
  have block : (statementAt k).outcome =
      (.ok (.block body opening.line), (t.facing rest).atLine opening.line) :=
    read.block k opens cut
  have more : opening.kind ≠ .endOfFile := opens ▸ by decide
  have whole := statements_cons (s := whole) (State.take?_cons rfl) more block
  obtain ⟨line, outcome⟩ := goesOn.outcome_atLine opening.line
  obtain ⟨result, state⟩ := Prod.mk.inj outcome
  rw [result, state] at whole
  exact ⟨body, errors, t, after, later, u, line, read, goesOn, read.append goesOn whole⟩

/-- The case of a block with a condition that is no expression, and with a brace and a parenthesis that
    do not fit. -/
theorem block_contained_broken :
    let s : State := .start [] "m" (.ofTokens "m.kv" []) {} {}
    let inside := [TokenKind.ifWord, .braceOpen, .parenOpen, .braceClose, .equals].map (.fixed · 1)
    let rest := [.fixed .letWord 2, .name "x" 2, .fixed .semicolon 2]
    Balanced .braceOpen .braceClose inside ∧
      ∃ body errors t after later u line,
        Reading s inside body errors t ∧ Reading t rest after later u ∧
        Reading s (.fixed .braceOpen 1 :: (inside ++ .fixed .braceClose 2 :: rest))
          (.block body 1 :: after) (errors ++ later) (u.atLine line) := by
  have balanced : Balanced .braceOpen .braceClose
      ([TokenKind.ifWord, .braceOpen, .parenOpen, .braceClose, .equals].map (.fixed · 1)) := by
    decide
  exact ⟨balanced, block_contained _ _ rfl rfl (by decide) balanced⟩

end Grammar
end ObjectLang
