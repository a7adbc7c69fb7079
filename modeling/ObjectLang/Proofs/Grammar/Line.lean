import ObjectLang.Proofs.Grammar.Progress
import ObjectLang.Proofs.Printing.Token
import ObjectLang.Proofs.Token.Lexed
set_option autoImplicit false

/-!
# The line of a position

A missing semicolon, and tokens that run out, are reported at the line of the cursor, which is that of
the token read last. What is cut out with brackets is not read by the cursor it is cut out of. So behind
brackets that span lines such an error is reported on the line in front of them, and only there is it on
another line than the last token in front of it.
-/

namespace ObjectLang

def Ascending (ts : List Token) : Prop := ts.Pairwise fun t u => t.line ≤ u.line

def firstLine (ts : List Token) : Nat := (ts.head?.map Token.line).getD 1

namespace Ascending

variable {line : Nat} {xs ys : List Token}

theorem firstLine_le (h : Ascending xs) : ∀ t ∈ xs, firstLine xs ≤ t.line := by
  intro t mem
  cases h with
  | nil => cases mem
  | cons first _ =>
    rcases List.mem_cons.1 mem with rfl | later
    · exact Nat.le_refl _
    · exact first t later

theorem lineBehind_le (h : Ascending (xs ++ ys)) (low : ∀ t ∈ xs ++ ys, line ≤ t.line) :
    ∀ t ∈ ys, lineBehind line xs ≤ t.line := by
  intro t mem
  induction xs using List.reverseRecOn with
  | nil => exact low t mem
  | append_singleton xs x _ =>
    rw [lineBehind_concat]
    exact (List.pairwise_append.1 h).2.2 x (by simp) t mem

theorem le_lineBehind (low : ∀ t ∈ ys, line ≤ t.line) : line ≤ lineBehind line ys := by
  induction ys using List.reverseRecOn with
  | nil => exact Nat.le_refl _
  | append_singleton ys y _ =>
    rw [lineBehind_concat]
    exact low y (by simp)

theorem lineBehind_eq_iff (h : Ascending ys) (low : ∀ t ∈ ys, line ≤ t.line) :
    lineBehind line ys = line ↔ ∀ t ∈ ys, t.line = line := by
  induction ys using List.reverseRecOn with
  | nil => simp
  | append_singleton ys y _ =>
    rw [lineBehind_concat]
    constructor
    · rintro rfl t mem
      have high : t.line ≤ y.line := by
        rcases List.mem_append.1 mem with front | last
        · exact (List.pairwise_append.1 h).2.2 t front y (by simp)
        · rw [List.mem_singleton.1 last]
      exact Nat.le_antisymm high (low t mem)
    · intro same
      exact same y (by simp)

end Ascending

theorem Lexed.ascending_tokensFrom (file : String) (line : Nat) (ps : List Piece) :
    Ascending (tokensFrom file line ps) := by
  induction ps generalizing line with
  | nil => exact List.pairwise_singleton _ _
  | cons p ps ih =>
    rw [tokensFrom_cons]
    refine List.pairwise_append.2 ⟨?_, ih _, fun t here u later => ?_⟩
    · cases p.token? line <;> simp
    · have same := (Piece.token?_eq_some (Option.mem_toList.1 here)).2.2
      have below := line_of_mem_tokensFrom later
      omega

theorem Lexed.ascending_ofText (file text : String) : Ascending (ofText file text).tokens :=
  ascending_tokensFrom file 1 _

namespace Cursor

variable {c cut inner : Cursor} {opening closing : TokenKind}

/-- What is cut out is a cursor of its own, at the first token of a piece. -/
theorem exists_of_cutBracketed (h : (c.cutBracketed opening closing).1 = .ok cut) :
    ∃ first inside bracket, first :: inside ++ [bracket] <:+: c.tokens ∧
      cut = .ofTokens c.file (first :: inside ++ [bracket]) := by
  unfold cutBracketed at h
  split at h
  · cases h
  · rename_i first rest front
    split at h
    · split at h
      · rename_i inside bracket behind found
        cases h
        refine ⟨first, inside, bracket, ⟨[], behind, ?_⟩, rfl⟩
        rw [front, Balance.eq_of_find_closed found]
        simp
      · cases h
    · cases h

/-- Inside brackets, the opening one counts as read. -/
theorem exists_of_cutInside (h : (c.cutInside opening closing).1 = .ok inner) :
    ∃ piece, piece <:+: c.tokens ∧ inner = (ofTokens c.file piece).run [.next] := by
  change (c.cutBracketed opening closing).1.map dropBrackets = .ok inner at h
  cases whole : (c.cutBracketed opening closing).1 with
  | error e =>
    rw [whole] at h
    cases h
  | ok cut =>
    obtain ⟨first, inside, bracket, piece, rfl⟩ := exists_of_cutBracketed whole
    rw [whole] at h
    cases h
    refine ⟨first :: inside, (List.prefix_append _ _).isInfix.trans piece, ?_⟩
    change (⟨(inside ++ [bracket]).dropLast, c.file, first.line⟩ : Cursor) = ⟨inside, c.file, first.line⟩
    rw [List.dropLast_concat]

/-- A cursor that started on a piece of the tokens and came to where it is by moves. -/
def OnPiece (file : String) (ts : List Token) (c : Cursor) : Prop :=
  ∃ piece moves, piece <:+: ts ∧ c = (ofTokens file piece).run moves

namespace OnPiece

variable {file : String} {ts : List Token}

theorem run (h : OnPiece file ts c) (later : List Move) : OnPiece file ts (c.run later) := by
  obtain ⟨piece, moves, part, rfl⟩ := h
  exact ⟨piece, moves ++ later, part, (run_append _ _ _).symm⟩

theorem inside (h : OnPiece file ts c) (cut : (c.cutInside opening closing).1 = .ok inner) :
    OnPiece file ts inner := by
  obtain ⟨piece, moves, part, rfl⟩ := h
  obtain ⟨smaller, part', rfl⟩ := exists_of_cutInside cut
  have left := (ofTokens file piece).leaves_run moves
  have suffix : ((ofTokens file piece).run moves).tokens <:+ piece := ⟨_, left.tokens⟩
  exact ⟨smaller, [.next], (part'.trans suffix.isInfix).trans part, by rw [left.file]; rfl⟩

end OnPiece
end Cursor

namespace Grammar

theorem state_semicolon_of_missing (s : State) (construct : String)
    (missing : s.cursor.check .semicolon = false) :
    (s.semicolon construct).state = s.record ⟨.missingSemicolon construct, s.cursor.line⟩ := by
  have stays : s.cursor.advanceIf .semicolon = (false, s.cursor) := by
    rw [Cursor.advanceIf, missing]
    rfl
  simp only [State.semicolon, State.accept, stays]
  rfl

theorem result_next_of_nil (s : State) (empty : s.cursor.tokens = []) :
    s.next.result = .error ⟨.unexpectedEndOfTokens, s.cursor.line⟩ := by
  rw [State.next, State.take?_nil empty]
  rfl

/-- What the line of a cursor says about what has left it, and about errors that are found there. -/
structure KnowsLine (file : String) (ts : List Token) (gone : Trail) (c : Cursor) : Prop where
  /-- No token is lost. -/
  split : gone.tokens ++ c.tokens = ts
  /-- The line is that of the token read last, or of the first token before any is read. -/
  read : c.line = lineBehind (firstLine ts) gone.read
  /-- It is that of the last token that has left exactly if the last one that was cut out since a token
      was read stands on it. -/
  knows : c.line = lineBehind (firstLine ts) gone.tokens ↔
    ∀ t ∈ gone.cutSince.getLast?, t.line = c.line
  /-- In a text it is never further down, and it is the same exactly if all that was cut out since a
      token was read stands on one line. -/
  text : ∀ text, ts <:+: (Lexed.ofText file text).tokens →
    c.line ≤ lineBehind (firstLine ts) gone.tokens ∧
      (c.line = lineBehind (firstLine ts) gone.tokens ↔ ∀ t ∈ gone.cutSince, t.line = c.line)
  semicolon : ∀ (s : State) (construct : String), s.cursor = c → c.check .semicolon = false →
    (s.semicolon construct).state =
      s.record ⟨.missingSemicolon construct, lineBehind (firstLine ts) gone.read⟩
  ended : ∀ s : State, s.cursor = c → c.tokens = [] →
    s.next.result = .error ⟨.unexpectedEndOfTokens, lineBehind (firstLine ts) gone.read⟩

theorem knowsLine_run (file : String) (ts : List Token) (moves : List Move) :
    KnowsLine file ts ((Cursor.ofTokens file ts).trail moves) ((Cursor.ofTokens file ts).run moves) := by
  have leaves := (Cursor.ofTokens file ts).leaves_run moves
  generalize (Cursor.ofTokens file ts).trail moves = gone at leaves
  generalize (Cursor.ofTokens file ts).run moves = c at leaves
  have split : gone.tokens ++ c.tokens = ts := leaves.tokens
  have line : c.line = lineBehind (firstLine ts) gone.read := leaves.line
  have last : lineBehind (firstLine ts) gone.tokens = lineBehind c.line gone.cutSince := by
    rw [line, gone.lineBehind_tokens]
  refine ⟨split, line, ?_, fun text part => ?_, ?_, ?_⟩
  · rw [last, eq_comm, lineBehind_eq_iff]
  · have ascending : Ascending ts := (Lexed.ascending_ofText file text).sublist part.sublist
    have low := ascending.firstLine_le
    have parts : ts = gone.upToRead ++ (gone.cutSince ++ c.tokens) := by
      rw [← List.append_assoc, Trail.upToRead_append_cutSince, split]
    have since : Ascending gone.cutSince := ascending.sublist (by rw [parts]; simp)
    have below : ∀ t ∈ gone.cutSince, c.line ≤ t.line := by
      intro t mem
      rw [line, Trail.lineBehind_read]
      rw [parts] at ascending low
      rw [parts]
      exact ascending.lineBehind_le low t (List.mem_append_left _ mem)
    rw [last, eq_comm]
    exact ⟨Ascending.le_lineBehind below, since.lineBehind_eq_iff below⟩
  · rintro s construct rfl missing
    rw [state_semicolon_of_missing s construct missing, line]
  · rintro s rfl empty
    rw [result_next_of_nil s empty, line]

/-- The positions of reading: calls of functions of the grammar one behind the other, inside brackets
    and behind them. What does not touch the cursors stays at its position. -/
inductive Arrives (earlier : List Module) (start : State) : State → Prop
  | start : Arrives earlier start start
  | stay {s t : State} (h : Arrives earlier start s) (cursor : t.cursor = s.cursor)
    (outer : t.outer = s.outer) : Arrives earlier start t
  | call {s t : State} (h : Arrives earlier start s) (call : Call earlier s t) :
    Arrives earlier start t
  | enter {s : State} {opening closing : TokenKind} {inner : Cursor} (h : Arrives earlier start s)
    (cut : (s.cursor.cutInside opening closing).1 = .ok inner) :
    Arrives earlier start (s.enter inner (s.cursor.cutInside opening closing).2)
  | leave {s : State} (h : Arrives earlier start s) : Arrives earlier start s.pop

/-- At every position each open cursor came by moves from the first of a piece of the tokens. -/
theorem Arrives.onPiece {earlier : List Module} {start s : State} {file : String}
    {ts : List Token} (h : Arrives earlier start s)
    (begins : ∀ c ∈ start.cursor :: start.outer, c.OnPiece file ts) :
    ∀ c ∈ s.cursor :: s.outer, c.OnPiece file ts := by
  induction h with
  | start => exact begins
  | stay _ cursor outer ih => rwa [cursor, outer]
  | call _ call ih =>
    obtain ⟨⟨moves, same⟩, outer⟩ := call.moves
    rw [same, outer]
    obtain ⟨here, behind⟩ := List.forall_mem_cons.1 ih
    exact List.forall_mem_cons.2 ⟨here.run moves, behind⟩
  | @enter s opening closing inner _ cut ih =>
    obtain ⟨here, behind⟩ := List.forall_mem_cons.1 ih
    have left : Cursor.OnPiece file ts (s.cursor.cutInside opening closing).2 :=
      here.run [.cut opening closing]
    exact List.forall_mem_cons.2 ⟨here.inside cut, List.forall_mem_cons.2 ⟨left, behind⟩⟩
  | @leave s _ ih =>
    unfold State.pop
    split
    · exact ih
    · rename_i behind rest outer
      rw [outer] at ih
      exact (List.forall_mem_cons.1 ih).2

/-- The line of a cursor is that of the token read last, whatever moves led to it, and so at every
    position of reading. -/
theorem line_of_last_read (file : String) (ts : List Token) :
    (∀ moves, KnowsLine file ts ((Cursor.ofTokens file ts).trail moves)
      ((Cursor.ofTokens file ts).run moves)) ∧
    ∀ earlier name program diagnostics s,
      Arrives earlier (.start earlier name (.ofTokens file ts) program diagnostics) s →
      ∀ c ∈ s.cursor :: s.outer, ∃ piece moves, piece <:+: ts ∧
        c = (Cursor.ofTokens file piece).run moves ∧
        KnowsLine file piece ((Cursor.ofTokens file piece).trail moves) c := by
  refine ⟨knowsLine_run file ts, fun earlier name program diagnostics s arrives c mem => ?_⟩
  have begins : ∀ c ∈ [Cursor.ofTokens file ts], c.OnPiece file ts :=
    fun c mem => ⟨ts, [], List.infix_refl _, List.mem_singleton.1 mem⟩
  obtain ⟨piece, moves, part, rfl⟩ := arrives.onPiece begins c mem
  exact ⟨piece, moves, part, rfl, knowsLine_run file piece moves⟩

/-- A call on three lines and its semicolon: in the brackets, where the opening one was read last, and
    behind the semicolon. -/
theorem line_of_last_read_call :
    let ts : List Token := [⟨.identifier, "f", 1⟩, ⟨.parenOpen, "(", 1⟩, ⟨.integer, "1", 2⟩,
      ⟨.parenClose, ")", 3⟩, ⟨.semicolon, ";", 3⟩]
    let moves : List Move := [.next, .cut .parenOpen .parenClose, .acceptIf .semicolon]
    let start : State := .start [] "m" (.ofTokens "m.kv" ts) {} {}
    let s := start.next.state
    let inner : Cursor := ⟨[⟨.integer, "1", 2⟩], "m.kv", 1⟩
    ((Cursor.ofTokens "m.kv" ts).run moves).line =
        lineBehind 1 ((Cursor.ofTokens "m.kv" ts).trail moves).tokens ∧
      (s.cursor.cutInside .parenOpen .parenClose).1 = .ok inner ∧
      Arrives [] start (s.enter inner (s.cursor.cutInside .parenOpen .parenClose).2) ∧
      ∃ piece moves, piece <:+: ts ∧ inner = (Cursor.ofTokens "m.kv" piece).run moves ∧
        KnowsLine "m.kv" piece ((Cursor.ofTokens "m.kv" piece).trail moves) inner := by
  intro ts moves start s inner
  have cut : (s.cursor.cutInside .parenOpen .parenClose).1 = .ok inner := rfl
  have arrives : Arrives [] start (s.enter inner (s.cursor.cutInside .parenOpen .parenClose).2) :=
    .enter (.call .start (.next start)) cut
  obtain ⟨runs, positions⟩ := line_of_last_read "m.kv" ts
  exact ⟨(runs moves).knows.2 (by decide), cut, arrives,
    positions [] "m" {} {} _ arrives inner List.mem_cons_self⟩

/-- The same call without its semicolon. The last token in front of the missing one stands on the third
    line, and the error is reported on the first. -/
theorem line_before_brackets :
    let ts := (Lexed.ofText "m.kv" "printf(\n\"a\"\n)\nret 2;").tokens
    let start := Cursor.ofTokens "m.kv" ts
    let moves : List Move := [.next, .cut .parenOpen .parenClose]
    (start.trail moves).tokens.map Token.text = ["printf", "(", "\"a\"", ")"] ∧
      lineBehind (firstLine ts) (start.trail moves).tokens = 3 ∧
      (start.run moves).line ≠ lineBehind (firstLine ts) (start.trail moves).tokens ∧
      ∀ s : State, s.cursor = start.run moves → (s.semicolon "function call").state =
        s.record ⟨.missingSemicolon "function call", 1⟩ := by
  intro ts start moves
  have missing : (start.run moves).check .semicolon = false := by decide +kernel
  have line : (start.run moves).line = 1 := by decide +kernel
  refine ⟨by decide +kernel, by decide +kernel, by decide +kernel, ?_⟩
  rintro s same
  rw [state_semicolon_of_missing s _ (same ▸ missing), same, line]

end Grammar
end ObjectLang
