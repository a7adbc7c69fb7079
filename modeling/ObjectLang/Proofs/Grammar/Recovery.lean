import ObjectLang.Proofs.Grammar.Apart
import ObjectLang.Proofs.Grammar.Progress
import ObjectLang.Proofs.Grammar.Terminated
set_option autoImplicit false

/-!
# What is skipped of a broken statement

Tokens that end with their only semicolon are read as what they spell on their own, and so is what
stands behind them, unless a statement is refused at the semicolon. There the semicolon has been taken
before the rest of the statement is skipped, so that the next statement is skipped with its semicolon.
-/

namespace ObjectLang

def TokenKind.stopsSkipping (kind : TokenKind) : Bool :=
  [semicolon, braceClose].contains kind || kind == endOfFile

theorem TokenKind.stopsSkipping_of_isSimple {kind : TokenKind} (simple : kind.isSimple = true) :
    kind.stopsSkipping = false := by
  revert simple
  cases kind <;> decide

theorem Cursor.skipTokens_terminated {ts : List Token} (h : Terminated ts) (line : Nat) :
    ∃ last line', last.kind = .semicolon ∧ ∀ more,
      skipTokens (·.kind.stopsSkipping) line (ts ++ more) = (last :: more, line') := by
  induction h generalizing line with
  | @last t ends =>
    have stops : t.kind.stopsSkipping = true := ends ▸ rfl
    exact ⟨t, line, ends, fun more => if_pos stops⟩
  | @cons t ts simple behind ih =>
    have goesOn : ¬t.kind.stopsSkipping = true := by
      rw [TokenKind.stopsSkipping_of_isSimple simple]
      exact Bool.false_ne_true
    obtain ⟨last, line', ends, skipped⟩ := ih t.line
    exact ⟨last, line', ends, fun more => (if_neg goesOn).trans (skipped more)⟩

namespace Grammar

variable {s t u v : State} {more : List Token}

/-- Skipping stops behind the semicolon, whatever stands there. -/
theorem recover_terminated (h : Terminated s.cursor.tokens) :
    s.recover.cursor.tokens = [] ∧ ∀ more, (s.followed more).recover = s.recover.followed more := by
  obtain ⟨last, line, ends, skipped⟩ := Cursor.skipTokens_terminated h s.cursor.line
  have recovered (more : List Token) :
      (s.followed more).recover = { s with cursor := ⟨more, s.cursor.file, last.line⟩ } := by
    have there : (s.followed more).cursor.skipUntil [.semicolon, .braceClose] =
        ⟨last :: more, s.cursor.file, line⟩ :=
      congrArg (fun x : List Token × Nat => (⟨x.1, s.cursor.file, x.2⟩ : Cursor)) (skipped more)
    have semicolon : (⟨last :: more, s.cursor.file, line⟩ : Cursor).check .semicolon = true :=
      beq_iff_eq.2 (congrArg some ends)
    unfold State.recover Cursor.advanceIf
    rw [there, if_pos semicolon]
    rfl
  have alone : s.followed [] = s :=
    congrArg (fun tokens => ({ s with cursor.tokens := tokens } : State)) (List.append_nil _)
  have here := recovered []
  rw [alone] at here
  rw [here]
  exact ⟨rfl, recovered⟩

theorem recover_none (none : s.cursor.tokens = []) : s.recover = s := by
  obtain ⟨⟨tokens, file, line⟩, _, _, _, _, _⟩ := s
  cases none
  rfl

theorem recover_tokens (same : s.cursor.tokens = t.cursor.tokens)
    (file : s.cursor.file = t.cursor.file) :
    s.recover.cursor.tokens = t.recover.cursor.tokens := by
  obtain ⟨line, moved⟩ := recover_atLine t s.cursor.line
  have cursor : s.cursor = (t.atLine s.cursor.line).cursor := by
    change s.cursor = ⟨t.cursor.tokens, t.cursor.file, s.cursor.line⟩
    rw [← same, ← file]
  have left : s.recover.cursor = (t.atLine s.cursor.line).recover.cursor :=
    congrArg (fun c : Cursor => ((c.skipUntil [.semicolon, .braceClose]).advanceIf .semicolon).2)
      cursor
  rw [left, moved]
  rfl

/-- Among the statements that are read, one is refused at the semicolon: it fails where no token is
    left for skipping. -/
inductive Refused : State → Prop
  | here {s t : State} {k : Taken s} {e : SyntaxError} (taken : s.take? = some k)
    (read : (statementAt k).outcome = (.error e, t)) (unskipped : e.hasRecovered = false)
    (none : t.cursor.tokens = []) : Refused s
  | behind {s t : State} (round : statementRound s = .next t) (later : Refused t) : Refused s

theorem not_refused_of_none (none : s.take? = none) : ¬Refused s := by
  intro refused
  cases refused with
  | here taken => cases none.symm.trans taken
  | behind round =>
    rw [statementRound, none] at round
    cases round

theorem refused_iff {k : Taken s} (taken : s.take? = some k)
    (fine : ∀ e u, (statementAt k).outcome = (.error e, u) → e.hasRecovered = false →
      u.cursor.tokens ≠ []) (round : statementRound s = .next t) : Refused s ↔ Refused t := by
  refine ⟨fun refused => ?_, .behind round⟩
  cases refused with
  | here taken' read unskipped none =>
    cases taken.symm.trans taken'
    exact absurd none (fine _ _ read unskipped)
  | behind round' later =>
    cases round.symm.trans round'
    exact later

/-- From `s`, the statements `read` are read and then those that are read from `t`. -/
def Yields (s : State) (read : List Statement) (t : State) : Prop :=
  ∀ later u, (statements t).outcome = (.ok later, u) →
    (statements s).outcome = (.ok (read ++ later), u)

theorem Yields.refl (s : State) : Yields s [] s := fun _ _ h => h

theorem Yields.trans {read later : List Statement} (h : Yields s read t) (h' : Yields t later u) :
    Yields s (read ++ later) u := by
  intro rest v outcome
  rw [List.append_assoc]
  exact h _ v (h' rest v outcome)

theorem Yields.outcome {read : List Statement} (h : Yields s read t) (none : t.cursor.tokens = []) :
    (statements s).outcome = (.ok read, t) := by
  have ended := h [] t (statements_none (State.take?_nil none))
  rwa [List.append_nil] at ended

section Round

variable {k : Taken s} {statement : Statement} {e : SyntaxError}

theorem yields_of_read (taken : s.take? = some k) (more : k.token.kind ≠ .endOfFile)
    (read : (statementAt k).outcome = (.ok statement, t)) : Yields s [statement] t := by
  intro later u outcome
  obtain ⟨result, state⟩ := Prod.mk.inj outcome
  rw [statements_cons taken more read, result, state]
  rfl

theorem yields_of_broken (taken : s.take? = some k) (more : k.token.kind ≠ .endOfFile)
    (read : (statementAt k).outcome = (.error e, t)) (within : e.isEndOfTokens = false) :
    Yields s [] (t.skip e) := by
  intro later u outcome
  rw [statements_broken taken more read, within]
  exact outcome

theorem round_of_read (taken : s.take? = some k) (more : k.token.kind ≠ .endOfFile)
    (read : (statementAt k).outcome = (.ok statement, t)) : statementRound s = .next t := by
  obtain ⟨le, read⟩ := Step.eq_ok read
  rw [statementRound, taken]
  dsimp only
  rw [if_neg more, read]

theorem round_of_broken (taken : s.take? = some k) (more : k.token.kind ≠ .endOfFile)
    (read : (statementAt k).outcome = (.error e, t)) (within : e.isEndOfTokens = false) :
    statementRound s = .next (t.skip e) := by
  cases h : statementAt k <;> rw [h] at read <;> cases read
  rw [statementRound, taken]
  dsimp only
  rw [if_neg more, h]
  dsimp only
  rw [within, State.skip]
  by_cases recovered : e.hasRecovered = true
  · rw [if_pos recovered, if_pos recovered]
    rfl
  · rw [if_neg recovered, if_neg recovered]
    rfl

end Round

/-- Unless the semicolon is gone, skipping ends behind it. -/
theorem skip_followed {e : SyntaxError} (closed : Closed t.cursor.tokens)
    (fine : e.hasRecovered = false → t.cursor.tokens ≠ []) :
    Closed (t.skip e).cursor.tokens ∧ ∀ more, (t.followed more).skip e = (t.skip e).followed more := by
  unfold State.skip
  cases recovered : e.hasRecovered with
  | true => exact ⟨closed, fun _ => rfl⟩
  | false =>
    obtain behind | none := closed
    · obtain ⟨none, followed⟩ := recover_terminated (s := t.record e) behind
      exact ⟨.inr none, followed⟩
    · exact absurd none (fine recovered)

/-- One statement of tokens with a semicolon at their end is read alike where more tokens follow, or it
    is refused. -/
theorem round_followed (notElse : ∀ t ∈ more.head?, t.kind ≠ .elseWord)
    (h : Terminated s.cursor.tokens) :
    ∃ read t, Yields s read t ∧ Closed t.cursor.tokens ∧ t.size < s.size ∧
      ((Refused s ↔ Refused t) ∧ Yields (s.followed more) read (t.followed more) ∨
        Refused s ∧ t.cursor.tokens = [] ∧
          Yields (s.followed more) read (t.followed more).recover) := by
  obtain ⟨k, taken, fronts⟩ := take_terminated h
  have taken' := take?_followed taken more
  have notEnd : k.token.kind ≠ .endOfFile := fronts.ne rfl (by decide)
  have follows := closes_statementAt notElse k fronts
  cases read : (statementAt k).outcome with | mk result t =>
  have lt := size_lt_of_statementAt read
  have read' := follows.mirrors.outcome read
  cases result with
  | ok statement =>
    have same := refused_iff taken (fun e u failed => absurd (read.symm.trans failed) nofun)
      (round_of_read taken notEnd read)
    exact ⟨[statement], t, yields_of_read taken notEnd read, follows.value _ t read, lt,
      .inl ⟨same, yields_of_read taken' notEnd read'⟩⟩
  | error e =>
    obtain ⟨within, closed⟩ := follows.error e t read
    have yields := yields_of_broken taken notEnd read within
    have yields' := yields_of_broken taken' notEnd read' within
    have less := Nat.lt_of_le_of_lt (size_skip_le t e) lt
    by_cases fine : e.hasRecovered = false → t.cursor.tokens ≠ []
    · obtain ⟨closed, followed⟩ := skip_followed closed fine
      have same := refused_iff taken (fun e' u failed => by
        cases read.symm.trans failed
        exact fine) (round_of_broken taken notEnd read within)
      exact ⟨[], _, yields, closed, less, .inl ⟨same, followed more ▸ yields'⟩⟩
    · obtain ⟨unskipped, some⟩ := Classical.not_imp.1 fine
      have none : t.cursor.tokens = [] := Classical.not_not.1 some
      have skip (t : State) : t.skip e = (t.record e).recover := if_neg (unskipped ▸ nofun)
      rw [skip, recover_none (s := t.record e) none] at yields
      rw [skip] at yields'
      exact ⟨[], t.record e, yields, .inr none, lt,
        .inr ⟨.here taken read unskipped none, none, yields'⟩⟩

/-- Such tokens are read alike where more tokens follow. What follows is read as it stands, or from where
    skipping ends if a statement is refused. -/
theorem statements_followed (notElse : ∀ t ∈ more.head?, t.kind ≠ .elseWord) (s : State)
    (h : Closed s.cursor.tokens) :
    ∃ read t, Yields s read t ∧ t.cursor.tokens = [] ∧
      (¬Refused s ∧ Yields (s.followed more) read (t.followed more) ∨
        Refused s ∧ Yields (s.followed more) read (t.followed more).recover) := by
  obtain terminated | none := h
  · obtain ⟨read, t, yields, closed, lt, ⟨same, goesOn⟩ | ⟨refused, none, skipped⟩⟩ :=
      round_followed notElse terminated
    · obtain ⟨later, u, yields', none, ⟨fine, followed⟩ | ⟨refused, followed⟩⟩ :=
        statements_followed notElse t closed
      · exact ⟨read ++ later, u, yields.trans yields', none,
          .inl ⟨mt same.1 fine, goesOn.trans followed⟩⟩
      · exact ⟨read ++ later, u, yields.trans yields', none,
          .inr ⟨same.2 refused, goesOn.trans followed⟩⟩
    · exact ⟨read, t, yields, none, .inr ⟨refused, skipped⟩⟩
  · exact ⟨[], s, .refl s, none, .inl ⟨not_refused_of_none (State.take?_nil none), .refl _⟩⟩
termination_by s.size

/-- From `s`, the tokens `first` and `rest` are read as what `first` spells on its own and what `resumed`
    then spells on its own, and nothing else is recorded. -/
def Parts (s : State) (first rest resumed : List Token) : Prop :=
  ∃ read errors t later more u line, Reading s first read errors t ∧
    Reading t resumed later more u ∧
    Reading s (first ++ rest) (read ++ later) (errors ++ more) (u.atLine line)

theorem Reading.parts {first rest : List Token} {read : List Statement}
    {errors : List Diagnostic} (reading : Reading s first read errors t)
    (yields : Yields (s.facing (first ++ rest)) read v) (same : v.facing = t.facing) :
    Parts s first rest v.cursor.tokens := by
  obtain ⟨later, more, u, goesOn⟩ := Reading.total t v.cursor.tokens
  obtain ⟨line, outcome⟩ := goesOn.outcome_atLine v.cursor.line
  have here : (t.facing v.cursor.tokens).atLine v.cursor.line = v := same ▸ rfl
  rw [here] at outcome
  exact ⟨read, errors, t, later, more, u, line, reading, goesOn,
    reading.append goesOn (yields later _ outcome)⟩

theorem recover_facing (s : State) : s.recover.facing = s.facing := by
  funext tokens
  exact congrArg (fun file => ({ s with cursor := .ofTokens file tokens } : State))
    (Moves.recover s).takes.cursor.file

theorem facing_append {first : List Token} (h : Terminated first) (rest : List Token) :
    (s.facing first).followed rest = s.facing (first ++ rest) := by
  cases h <;> rfl

theorem parts_of_terminated {first rest : List Token} (h : Terminated first)
    (notElse : ∀ t ∈ rest.head?, t.kind ≠ .elseWord) :
    ¬Refused (s.facing first) ∧ Parts s first rest rest ∨
      Refused (s.facing first) ∧ Parts s first rest (s.facing rest).recover.cursor.tokens := by
  obtain ⟨read, t, yields, none, resumed⟩ :=
    statements_followed notElse (s.facing first) (.inl h)
  obtain ⟨errors, reading⟩ := Reading.of_outcome (yields.outcome none)
  have tokens : (t.followed rest).cursor.tokens = rest := congrArg (· ++ rest) none
  rw [facing_append h] at resumed
  obtain ⟨fine, yields⟩ | ⟨refused, yields⟩ := resumed
  · have parts := reading.parts yields rfl
    rw [tokens] at parts
    exact .inl ⟨fine, parts⟩
  · have left := recover_tokens (s := t.followed rest) (t := s.facing rest) tokens reading.file
    have parts := reading.parts yields (recover_facing (t.followed rest))
    rw [left] at parts
    exact .inr ⟨refused, parts⟩

theorem statementAt_semicolon {k : Taken s} (ends : k.token.kind = .semicolon) :
    (statementAt k).outcome =
      (.error ⟨.invalidStatement (" ".intercalate []), k.token.line⟩, k.behind) := by
  rw [statementAt.eq_def, ends]
  unfold invalidStatement
  dsimp only
  rw [if_pos ends]
  rfl

theorem Reading.semicolon {last : Token} (ends : last.kind = .semicolon) {read : List Statement}
    {entries : List Diagnostic} (h : Reading s [last] read entries t) : entries ≠ [] := by
  let k : Taken (s.facing [last]) := ⟨last, (s.facing [last]).seek [] last.line, rfl⟩
  have notEnd : last.kind ≠ .endOfFile := ends ▸ by decide
  have yields := yields_of_broken (k := k) (State.take?_cons rfl) notEnd
    (statementAt_semicolon ends) rfl
  cases h.outcome.symm.trans (yields.outcome rfl)
  have recorded : (s.diagnostics.entries.push _).toList = s.diagnostics.entries.toList ++ entries :=
    h.recorded
  rw [Array.toList_push] at recorded
  exact List.append_cancel_left recorded ▸ List.cons_ne_nil _ _

/-- A token behind the semicolon at which a statement is refused is not read. -/
theorem not_parts_of_refused {first : List Token} {last : Token} (ends : last.kind = .semicolon)
    (h : Parts s first [last] []) : ¬Parts s first [last] [last] := by
  rintro ⟨read, errors, t, later, more, u, line, reading, semicolon, both⟩
  obtain ⟨read', errors', t', later', more', u', line', reading', none, both'⟩ := h
  obtain ⟨rfl, rfl, rfl⟩ := reading.unique reading'
  obtain ⟨-, same, -⟩ := both.unique both'
  have recorded : more' = [] := by
    have ended := statements_none (s := t.facing []) (State.take?_nil rfl)
    obtain ⟨-, empty, -⟩ := none.unique (.of_recorded ended (List.append_nil _).symm)
    exact empty
  exact semicolon.semicolon ends ((List.append_cancel_left same).trans recorded)

/-- Unless a statement is refused at the semicolon, what stands behind it is read as if nothing had been
    wrong in front of it. Otherwise it is read from behind its own next semicolon, or from its next
    closing brace. -/
theorem parts_iff_not_refused (s : State) {front : List Token} {last : Token}
    (simple : ∀ t ∈ front, t.kind.isSimple = true) (ends : last.kind = .semicolon) :
    let first := front ++ [last]
    (¬Refused (s.facing first) ↔
      ∀ rest, (∀ t ∈ rest.head?, t.kind ≠ .elseWord) → Parts s first rest rest) ∧
      (Refused (s.facing first) → ∀ rest, (∀ t ∈ rest.head?, t.kind ≠ .elseWord) →
        Parts s first rest (s.facing rest).recover.cursor.tokens) := by
  intro first
  have terminated : Terminated first := .of_append simple ends
  have resumes : Refused (s.facing first) → ∀ rest, (∀ t ∈ rest.head?, t.kind ≠ .elseWord) →
      Parts s first rest (s.facing rest).recover.cursor.tokens := by
    intro refused rest notElse
    obtain ⟨fine, -⟩ | ⟨-, parts⟩ := parts_of_terminated (s := s) terminated notElse
    · exact absurd refused fine
    · exact parts
  refine ⟨⟨fun fine rest notElse => ?_, fun apart refused => ?_⟩, resumes⟩
  · obtain ⟨-, parts⟩ | ⟨refused, -⟩ := parts_of_terminated (s := s) terminated notElse
    · exact parts
    · exact absurd refused fine
  · -- One more semicolon is a broken statement on its own, but it is skipped here.
    have notElse : ∀ t ∈ [last].head?, t.kind ≠ .elseWord := by
      rintro t ⟨rfl⟩
      exact ends ▸ by decide
    have skipped : (s.facing [last]).recover.cursor.tokens = [] :=
      (recover_terminated (s := s.facing [last]) (.last ends)).1
    have parts := resumes refused [last] notElse
    rw [skipped] at parts
    exact not_parts_of_refused ends parts (apart [last] notElse)

/-- The case of a declaration without a name. -/
theorem parts_iff_not_refused_nameless :
    let s : State := .start [] "m" (.ofTokens "m.kv" []) {} {}
    let front : List Token := [.fixed .letWord 1, .fixed .equals 1, .fixed .noneWord 1]
    let first := front ++ [.fixed .semicolon 1]
    (∀ t ∈ front, t.kind.isSimple = true) ∧
      (¬Refused (s.facing first) ↔
        ∀ rest, (∀ t ∈ rest.head?, t.kind ≠ .elseWord) → Parts s first rest rest) ∧
      (Refused (s.facing first) → ∀ rest, (∀ t ∈ rest.head?, t.kind ≠ .elseWord) →
        Parts s first rest (s.facing rest).recover.cursor.tokens) := by
  have simple : ∀ t ∈ [Token.fixed .letWord 1, .fixed .equals 1, .fixed .noneWord 1],
      t.kind.isSimple = true := by decide
  exact ⟨simple, parts_iff_not_refused _ simple rfl⟩

/-- A declaration that ends with its name hides that the next one has no name. -/
theorem broken_statement_hidden :
    let s : State := .start [] "m" (.ofTokens "m.kv" []) {} {}
    let first : List Token := [.fixed .letWord 1, .name "x" 1, .fixed .semicolon 1]
    let rest : List Token := [.fixed .letWord 2, .fixed .equals 2, .fixed .semicolon 2]
    ¬Parts s first rest rest := by
  intro s first rest
  rintro ⟨read, errors, t, later, more, u, line, reading, goesOn, both⟩
  have behind : (statements (s.facing first)).state = t := congrArg Prod.snd reading.outcome
  have apart : (statements (t.facing rest)).state = u := congrArg Prod.snd goesOn.outcome
  have together : (statements (s.facing (first ++ rest))).state = u.atLine line :=
    congrArg Prod.snd both.outcome
  have same : (statements (s.facing (first ++ rest))).state.diagnostics.entries.size =
      (statements ((statements (s.facing first)).state.facing rest)).state.diagnostics.entries.size := by
    rw [behind, apart, together]
    rfl
  exact absurd same (by decide +kernel)

end Grammar
end ObjectLang
