import ObjectLang.Proofs.Grammar.Log
import ObjectLang.Proofs.Grammar.Taking
set_option autoImplicit false

/-!
# Reading tokens on their own

What statements are read from tokens, and what is recorded, depends on the tokens and on what has been
declared before. The cursors behind open brackets, the log and the line that the cursor starts on do
not matter. So a part of some tokens can be read on its own.
-/

namespace ObjectLang.Grammar

namespace State

def atLine (s : State) (line : Nat) : State := { s with cursor := { s.cursor with line } }

def facing (s : State) (tokens : List Token) : State :=
  { s with cursor := .ofTokens s.cursor.file tokens }

def cleared (s : State) : State := { s with diagnostics := s.diagnostics.cleared }

end State

/-- Where tokens are read from `s`, the statements are `read`, the log gets `entries`, as it does if it
    was empty before, and reading ends in `t`. -/
structure Reading (s : State) (tokens : List Token) (read : List Statement)
    (entries : List Diagnostic) (t : State) : Prop where
  outcome : (statements (s.facing tokens)).outcome = (.ok read, t)
  recorded : t.diagnostics.entries.toList = s.diagnostics.entries.toList ++ entries
  alone : (statements (s.cleared.facing tokens)).state.diagnostics.entries.toList = entries

def State.skip (t : State) (e : SyntaxError) : State :=
  if e.hasRecovered then t.record e else (t.record e).recover

section Rounds

variable {s t : State}

theorem size_skip_le (t : State) (e : SyntaxError) : (t.skip e).size ≤ t.size := by
  unfold State.skip
  split
  · exact Nat.le_refl t.size
  · exact (t.record e).size_recover_le

theorem size_lt_of_statementAt {k : Taken s} {result : Except SyntaxError Statement}
    (read : (statementAt k).outcome = (result, t)) : t.size < s.size := by
  obtain ⟨-, rfl⟩ := Prod.mk.inj read
  exact k.lt_of_le (Step.size_state_le _)

theorem statements_none (h : s.take? = none) : (statements s).outcome = (.ok [], s) := by
  rw [statements, h]
  rfl

theorem statements_end {k : Taken s} (taken : s.take? = some k)
    (isEnd : k.token.kind = .endOfFile) : (statements s).outcome = (.ok [], s) := by
  rw [statements, taken]
  dsimp only
  rw [if_pos isEnd]
  rfl

theorem statements_cons {k : Taken s} (taken : s.take? = some k) (more : k.token.kind ≠ .endOfFile)
    {statement : Statement} (read : (statementAt k).outcome = (.ok statement, t)) :
    (statements s).outcome =
      ((statements t).result.map fun rest => statement :: rest, (statements t).state) := by
  obtain ⟨le, read⟩ := Step.eq_ok read
  rw [statements, taken]
  dsimp only
  rw [if_neg more, read]
  dsimp only
  rw [Step.outcome_widen]
  cases statements t <;> rfl

theorem statements_broken {k : Taken s} (taken : s.take? = some k)
    (more : k.token.kind ≠ .endOfFile) {e : SyntaxError}
    (read : (statementAt k).outcome = (.error e, t)) :
    (statements s).outcome =
      if e.isEndOfTokens then (.ok [], t.record e) else (statements (t.skip e)).outcome := by
  cases h : statementAt k <;> rw [h] at read <;> cases read
  rw [statements, taken]
  dsimp only
  rw [if_neg more, h]
  unfold State.skip
  dsimp only
  split
  · rfl
  · by_cases recovered : e.hasRecovered = true
    · rw [if_pos recovered, if_pos recovered, Step.outcome_widen]
      rfl
    · rw [if_neg recovered, if_neg recovered, Step.outcome_widen]
      rfl

/-- Statements are read whatever the tokens are. -/
theorem statements_ok (s : State) : ∃ read, (statements s).result = .ok read := by
  cases taken : s.take? with
  | none => exact ⟨[], congrArg Prod.fst (statements_none taken)⟩
  | some k =>
    by_cases more : k.token.kind = .endOfFile
    · exact ⟨[], congrArg Prod.fst (statements_end taken more)⟩
    cases read : (statementAt k).outcome with | mk result t =>
    have lt := size_lt_of_statementAt read
    cases result with
    | ok statement =>
      obtain ⟨rest, later⟩ := statements_ok t
      refine ⟨statement :: rest, (congrArg Prod.fst (statements_cons taken more read)).trans ?_⟩
      rw [later]
      rfl
    | error e =>
      have round := statements_broken taken more read
      have le := size_skip_le t e
      split at round
      · exact ⟨[], congrArg Prod.fst round⟩
      · obtain ⟨rest, later⟩ := statements_ok (t.skip e)
        exact ⟨rest, (congrArg Prod.fst round).trans later⟩
termination_by s.size

end Rounds

def Surroundings.inside (outer : List Cursor) : Surroundings where
  outer := outer
  log d := d
  file _ _ := rfl
  errorAt _ _ _ := rfl
  warnAt _ _ _ := rfl

theorem statements_outer (s : State) (outer : List Cursor) :
    (statements s).Mirrors ({ · with outer }) (statements { s with outer }) := by
  let base : State := { s with outer := [] }
  have kept : (statements base).state.outer = [] := (steady_moves.statements base).outer
  have within (outer : List Cursor) : (statements { s with outer }).outcome =
      ((statements base).result, { (statements base).state with outer }) := by
    refine (abides_statements (.inside outer) base).trans (congrArg (Prod.mk _) ?_)
    unfold Surroundings.around
    rw [kept]
    rfl
  obtain ⟨result, state⟩ := Prod.mk.inj (within s.outer)
  unfold Step.Mirrors
  rw [within, result, state]

/-- What was in the log already stays in front. -/
theorem statements_cleared (s : State) :
    (statements s.cleared).Mirrors
      (fun t => { t with diagnostics.entries := s.diagnostics.entries ++ t.diagnostics.entries })
      (statements s) := by
  have same : (Surroundings.logged s.diagnostics.entries).around s.cleared = s := by
    unfold Surroundings.around State.cleared
    dsimp only
    rw [logged_cleared]
    exact congrArg (fun outer => { s with outer }) (List.append_nil s.outer)
  have read := abides_statements (.logged s.diagnostics.entries) s.cleared
  rw [same] at read
  refine read.trans (congrArg (Prod.mk _) ?_)
  exact congrArg (fun outer => { (statements s.cleared).state with
    diagnostics.entries := s.diagnostics.entries ++ (statements s.cleared).state.diagnostics.entries
    outer }) (List.append_nil _)

section Lines

variable {α : Type} {n m : Nat}

/-- Both steps come to the same, but the cursor may be on another line. -/
def Step.Shifts (x : Step α n) (y : Step α m) : Prop := ∃ line, x.Mirrors (·.atLine line) y

theorem Step.Shifts.refl (x : Step α n) : x.Shifts x := ⟨x.state.cursor.line, rfl⟩

theorem Step.Shifts.map {β : Type} {x : Step α n} {y : Step α m} (h : x.Shifts y) (f : α → β) :
    (x.map f).Shifts (y.map f) := by
  obtain ⟨line, same⟩ := h
  exact ⟨line, same.map f⟩

theorem skipTokens_line (stop : Token → Bool) (line line' : Nat) (ts : List Token) :
    (Cursor.skipTokens stop line ts).1 = (Cursor.skipTokens stop line' ts).1 := by
  cases ts with
  | nil => rfl
  | cons t rest =>
    rw [Cursor.skipTokens, Cursor.skipTokens]
    split <;> rfl

theorem advanceIf_line (c : Cursor) (line : Nat) (kind : TokenKind) :
    ∃ line', (({ c with line } : Cursor).advanceIf kind).2 =
      { (c.advanceIf kind).2 with line := line' } := by
  obtain ⟨tokens, file, old⟩ := c
  cases tokens with
  | nil => exact ⟨line, rfl⟩
  | cons t rest =>
    unfold Cursor.advanceIf
    split
    · rw [if_pos ‹_›]
      exact ⟨t.line, rfl⟩
    · rw [if_neg ‹_›]
      exact ⟨line, rfl⟩

theorem recover_atLine (s : State) (line : Nat) :
    ∃ line', (s.atLine line).recover = s.recover.atLine line' := by
  let stops : List TokenKind := [.semicolon, .braceClose]
  have skipped : ({ s.cursor with line } : Cursor).skipUntil stops =
      { s.cursor.skipUntil stops with
        line := (({ s.cursor with line } : Cursor).skipUntil stops).line } :=
    congrArg (fun tokens => (⟨tokens, s.cursor.file, _⟩ : Cursor)) (skipTokens_line _ _ _ _)
  obtain ⟨line', same⟩ := advanceIf_line (s.cursor.skipUntil stops) _ .semicolon
  refine ⟨line', congrArg (fun cursor => { s with cursor }) ?_⟩
  change ((({ s.cursor with line } : Cursor).skipUntil stops).advanceIf .semicolon).2 = _
  rw [skipped]
  exact same

theorem cutInside_line {c : Cursor} {first : Token} {rest : List Token} (line : Nat)
    (front : c.tokens = first :: rest) (opening close : TokenKind) :
    ({ c with line } : Cursor).cutInside opening close =
      ((c.cutInside opening close).1, { (c.cutInside opening close).2 with line }) := by
  obtain ⟨tokens, file, old⟩ := c
  cases front
  unfold Cursor.cutInside Cursor.cutBracketed
  dsimp only
  split
  · split <;> rfl
  · rfl

theorem inside_atLine {s : State} {line : Nat} (k : Taken s) (k' : Taken (s.atLine line))
    (token : k'.token = k.token) :
    (k.inside .braceClose fun t _ => statements t).Shifts
      (k'.inside .braceClose fun t _ => statements t) := by
  have cuts : (s.atLine line).cursor.cutInside k'.token.kind .braceClose =
      ((s.cursor.cutInside k.token.kind .braceClose).1,
        { (s.cursor.cutInside k.token.kind .braceClose).2 with line }) :=
    token ▸ cutInside_line line k.tokens_eq k.token.kind .braceClose
  refine ⟨line, ?_⟩
  cases cut : (s.cursor.cutInside k.token.kind .braceClose).1 with
  | error e =>
    have here := inside_unclosed k .braceClose (fun t _ => statements t) cut
    have there := inside_unclosed k' .braceClose (fun t _ => statements t)
      ((congrArg Prod.fst cuts).trans cut)
    refine .of_outcome here (there.trans (congrArg (Prod.mk _) ?_))
    rw [cuts]
    rfl
  | ok inner =>
    have here := inside_closed k .braceClose (fun t _ => statements t) cut
    have there := inside_closed k' .braceClose (fun t _ => statements t)
      ((congrArg Prod.fst cuts).trans cut)
    have read := statements_outer (s.enter inner (s.cursor.cutInside k.token.kind .braceClose).2)
      (((s.atLine line).cursor.cutInside k'.token.kind .braceClose).2 :: s.outer)
    refine .of_outcome here (there.trans ?_)
    refine (congrArg (fun x : Except SyntaxError (List Statement) × State =>
      (x.1, x.2.leave (s.atLine line) _)) read).trans ?_
    rw [cuts]
    rfl

theorem statementAt_atLine {s : State} {line : Nat} (k : Taken s) (k' : Taken (s.atLine line))
    (token : k'.token = k.token) (behind : k'.behind = k.behind) :
    (statementAt k).Shifts (statementAt k') := by
  have inside := inside_atLine k k' token
  obtain ⟨t, u, front⟩ := k
  obtain ⟨t', u', front'⟩ := k'
  cases token
  cases behind
  rw [statementAt.eq_def, statementAt.eq_def]
  dsimp only
  have invalid : invalidStatement ⟨t, u, front⟩ = invalidStatement ⟨t, u, front'⟩ := by
    unfold invalidStatement
    dsimp only
    split
    · rfl
    · cases rejected u <;> rfl
  cases t.kind with
  | braceOpen => exact inside.map _
  | retWord | letWord | identifier | ifWord | whileWord | forWord => exact .refl _
  | _ => exact invalid ▸ .refl (invalidStatement ⟨t, u, front⟩)

theorem skip_atLine (t : State) (line : Nat) (e : SyntaxError) :
    ∃ line', (t.atLine line).skip e = (t.skip e).atLine line' := by
  unfold State.skip
  split
  · exact ⟨line, rfl⟩
  · exact recover_atLine (t.record e) line

/-- The first token sets the line, so the one in front of it does not matter. -/
theorem statements_atLine (s : State) (line : Nat) :
    (statements s).Shifts (statements (s.atLine line)) := by
  cases front : s.cursor.tokens with
  | nil =>
    exact ⟨line, .of_outcome (statements_none (State.take?_nil front))
      (statements_none (State.take?_nil (s := s.atLine line) front))⟩
  | cons first rest =>
    have taken := State.take?_cons front
    have taken' := State.take?_cons (s := s.atLine line) front
    by_cases more : first.kind = .endOfFile
    · exact ⟨line, .of_outcome (statements_end taken more) (statements_end taken' more)⟩
    let k : Taken s := ⟨first, s.seek rest first.line, front⟩
    let k' : Taken (s.atLine line) := ⟨first, s.seek rest first.line, front⟩
    obtain ⟨moved, same⟩ := statementAt_atLine k k' rfl rfl
    cases read : (statementAt k).outcome with | mk result t =>
    have lt := size_lt_of_statementAt read
    have read' := same.outcome read
    cases result with
    | ok statement =>
      obtain ⟨line', later⟩ := statements_atLine t moved
      refine ⟨line', .of_outcome (statements_cons taken more read)
        ((statements_cons taken' more read').trans ?_)⟩
      exact congrArg (fun x : Except SyntaxError (List Statement) × State =>
        (x.1.map fun rest => statement :: rest, x.2)) later
    | error e =>
      have le := size_skip_le t e
      have here := statements_broken taken more read
      have there := statements_broken taken' more read'
      split at here
      · rw [if_pos ‹_›] at there
        exact ⟨moved, .of_outcome here there⟩
      · rw [if_neg ‹_›] at there
        obtain ⟨line', skipped⟩ := skip_atLine t moved e
        obtain ⟨line'', later⟩ := statements_atLine (t.skip e) line'
        exact ⟨line'', .of_outcome here (there.trans (skipped ▸ later))⟩
termination_by s.size

end Lines

namespace Reading

variable {s t : State} {tokens : List Token} {read : List Statement} {entries : List Diagnostic}

theorem of_recorded (outcome : (statements (s.facing tokens)).outcome = (.ok read, t))
    (recorded : t.diagnostics.entries.toList = s.diagnostics.entries.toList ++ entries) :
    Reading s tokens read entries t := by
  refine ⟨outcome, recorded, ?_⟩
  have added := congrArg (fun x => x.2.diagnostics.entries.toList)
    (outcome.symm.trans (statements_cleared (s.facing tokens)))
  exact List.append_cancel_left ((added.trans Array.toList_append).symm.trans recorded)

theorem of_outcome (outcome : (statements (s.facing tokens)).outcome = (.ok read, t)) :
    ∃ entries, Reading s tokens read entries t := by
  have added := congrArg (fun x => x.2.diagnostics.entries.toList)
    (outcome.symm.trans (statements_cleared (s.facing tokens)))
  exact ⟨_, .of_recorded outcome (added.trans Array.toList_append)⟩

/-- Any tokens can be read. -/
theorem total (s : State) (tokens : List Token) : ∃ read entries t, Reading s tokens read entries t := by
  obtain ⟨read, result⟩ := statements_ok (s.facing tokens)
  obtain ⟨entries, reading⟩ := of_outcome (congrArg (fun r => (r, _)) result)
  exact ⟨read, entries, _, reading⟩

theorem unique (h : Reading s tokens read entries t) {read' : List Statement}
    {entries' : List Diagnostic} {t' : State} (h' : Reading s tokens read' entries' t') :
    read = read' ∧ entries = entries' ∧ t = t' := by
  obtain ⟨result, state⟩ := Prod.mk.inj (h.outcome.symm.trans h'.outcome)
  exact ⟨Except.ok.inj result, h.alone.symm.trans h'.alone, state⟩

theorem outcome_atLine (h : Reading s tokens read entries t) (line : Nat) :
    ∃ line', (statements ((s.facing tokens).atLine line)).outcome = (.ok read, t.atLine line') := by
  obtain ⟨line', same⟩ := statements_atLine (s.facing tokens) line
  exact ⟨line', same.outcome h.outcome⟩

/-- Where other tokens are read behind them, the log gets the entries of both. -/
theorem append {u : State} {tokens' whole : List Token} {later all : List Statement}
    {more : List Diagnostic} (h : Reading s tokens read entries t)
    (h' : Reading t tokens' later more u) {line : Nat}
    (outcome : (statements (s.facing whole)).outcome = (.ok all, u.atLine line)) :
    Reading s whole all (entries ++ more) (u.atLine line) := by
  refine .of_recorded outcome (h'.recorded.trans ?_)
  rw [h.recorded, List.append_assoc]

theorem outer (h : Reading s tokens read entries t) : t.outer = s.outer :=
  (congrArg (fun x => x.2.outer) h.outcome).symm.trans
    (steady_moves.statements (s.facing tokens)).outer

theorem file (h : Reading s tokens read entries t) : t.cursor.file = s.cursor.file :=
  (congrArg (fun x => x.2.cursor.file) h.outcome).symm.trans
    (steady_moves.statements (s.facing tokens)).takes.cursor.file

end Reading

end ObjectLang.Grammar
