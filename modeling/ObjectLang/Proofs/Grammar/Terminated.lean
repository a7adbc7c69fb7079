import ObjectLang.Grammar.Statement
import ObjectLang.Proofs.Grammar.Mirror
set_option autoImplicit false

/-!
# Reading up to a semicolon

Where tokens without brackets end with their only semicolon, a statement is read without a look at what
stands behind the semicolon, except for an `else`. Where it fails, the tokens have not run out, but the
semicolon may have been taken already. There is one lemma for each function that can be reached.
-/

namespace ObjectLang

/-- Neither a semicolon nor a bracket or angle, nor the word of the loop whose head has semicolons, nor
    the end of a file. -/
def TokenKind.isSimple : TokenKind → Bool
  | semicolon | parenOpen | parenClose | braceOpen | braceClose | bracketOpen | bracketClose | less
  | greater | forWord | endOfFile => false
  | _ => true

inductive Terminated : List Token → Prop
  | last {t : Token} (ends : t.kind = .semicolon) : Terminated [t]
  | cons {t : Token} {ts : List Token} (simple : t.kind.isSimple = true) (behind : Terminated ts) :
    Terminated (t :: ts)

theorem Terminated.of_append {front : List Token} {last : Token}
    (simple : ∀ t ∈ front, t.kind.isSimple = true) (ends : last.kind = .semicolon) :
    Terminated (front ++ [last]) := by
  induction front with
  | nil => exact .last ends
  | cons t rest ih =>
    obtain ⟨first, others⟩ := List.forall_mem_cons.1 simple
    exact .cons first (ih others)

/-- What a statement leaves of such tokens: some with the semicolon, or none. -/
def Closed (left : List Token) : Prop := Terminated left ∨ left = []

namespace Grammar

variable {α β : Type} {n m n' m' : Nat}

def State.followed (s : State) (more : List Token) : State :=
  { s with cursor.tokens := s.cursor.tokens ++ more }

def Taken.followed {s : State} (k : Taken s) (more : List Token) : Taken (s.followed more) :=
  ⟨k.token, k.behind.followed more, congrArg (· ++ more) k.tokens_eq⟩

/-- With more tokens behind, the step is the same. A value leaves what `stops` says; an error is none of
    running out of tokens, and may leave no token. -/
structure Step.Follows (more : List Token) (stops : α → List Token → Prop) (x : Step α n)
    (y : Step α m) : Prop where
  mirrors : x.Mirrors (·.followed more) y
  value : ∀ v t, x.outcome = (.ok v, t) → stops v t.cursor.tokens
  error : ∀ e t, x.outcome = (.error e, t) → e.isEndOfTokens = false ∧ Closed t.cursor.tokens

namespace Step.Follows

variable {more : List Token} {stops : α → List Token → Prop} {stops' : β → List Token → Prop}
  {x : Step α n} {y : Step α m} {s t : State}

theorem of_ok {v : α} (hx : x.outcome = (.ok v, t)) (hy : y.outcome = (.ok v, t.followed more))
    (stopped : stops v t.cursor.tokens) : x.Follows more stops y := by
  refine ⟨.of_outcome hx hy, fun w u h => ?_, fun e u h => ?_⟩ <;> cases hx.symm.trans h
  exact stopped

theorem of_error {e : SyntaxError} (hx : x.outcome = (.error e, t))
    (hy : y.outcome = (.error e, t.followed more)) (within : e.isEndOfTokens = false)
    (closed : Closed t.cursor.tokens) : x.Follows more stops y := by
  refine ⟨.of_outcome hx hy, fun w u h => ?_, fun e u h => ?_⟩ <;> cases hx.symm.trans h
  exact ⟨within, closed⟩

theorem pure {v : α} (stopped : stops v s.cursor.tokens) :
    (Step.pure v s).Follows more stops (Step.pure v (s.followed more)) :=
  of_ok rfl rfl stopped

theorem fail {e : SyntaxError} (within : e.isEndOfTokens = false) (closed : Closed s.cursor.tokens) :
    (Step.fail e s : Step α s.size).Follows more stops (Step.fail e (s.followed more)) :=
  of_error rfl rfl within closed

theorem widen (h : x.Follows more stops y) (le : n ≤ n') (le' : m ≤ m') :
    (x.widen le).Follows more stops (y.widen le') := by
  refine ⟨h.mirrors.widen le le', ?_, ?_⟩ <;> rw [outcome_widen]
  · exact h.value
  · exact h.error

theorem map (h : x.Follows more stops y) {f : α → β} (hf : ∀ v ts, stops v ts → stops' (f v) ts) :
    (x.map f).Follows more stops' (y.map f) := by
  cases x with
  | ok v t le => exact of_ok rfl (h.mirrors.map f) (hf v _ (h.value v t rfl))
  | error e t le =>
    obtain ⟨within, closed⟩ := h.error e t rfl
    exact of_error rfl (h.mirrors.map f) within closed

theorem andThen (h : x.Follows more stops y)
    {f : α → (t : State) → t.size ≤ n → Step β t.size}
    {g : α → (t : State) → t.size ≤ m → Step β t.size}
    (hf : ∀ v t le le', stops v t.cursor.tokens →
      (f v t le).Follows more stops' (g v (t.followed more) le')) :
    (x.andThen f).Follows more stops' (y.andThen g) := by
  cases x with
  | ok v t le =>
    obtain ⟨le', rfl⟩ := h.mirrors.eq_ok
    exact (hf v t le le' (h.value v t rfl)).widen le le'
  | error e t le =>
    obtain ⟨le', rfl⟩ := h.mirrors.eq_error
    obtain ⟨within, closed⟩ := h.error e t rfl
    exact of_error rfl rfl within closed

theorem ite {c : Prop} [Decidable c] {x' : Step α n} {y' : Step α m}
    (h : c → x.Follows more stops y) (h' : ¬c → x'.Follows more stops y') :
    (if c then x else x').Follows more stops (if c then y else y') := by
  split
  · exact h ‹_›
  · exact h' ‹_›

end Step.Follows

abbrev Step.Pauses (more : List Token) (x : Step α n) (y : Step α m) : Prop :=
  x.Follows more (fun _ => Terminated) y

/-- The step may go on behind the semicolon, where no token is left. -/
abbrev Step.Closes (more : List Token) (x : Step α n) (y : Step α m) : Prop :=
  x.Follows more (fun _ => Closed) y

variable {more : List Token} {s : State}

/-- The token just taken is a simple one, or it is the semicolon. -/
def Fronts (k : Taken s) : Prop :=
  k.token.kind.isSimple = true ∧ Terminated k.behind.cursor.tokens ∨
    k.token.kind = .semicolon ∧ k.behind.cursor.tokens = []

theorem Fronts.closed {k : Taken s} (h : Fronts k) : Closed k.behind.cursor.tokens :=
  h.imp And.right And.right

theorem Fronts.terminated {k : Taken s} (h : Fronts k) {kind : TokenKind} (found : k.token.kind = kind)
    (needed : kind ≠ .semicolon) : Terminated k.behind.cursor.tokens := by
  obtain ⟨-, behind⟩ | ⟨semicolon, -⟩ := h
  · exact behind
  · exact absurd (found.symm.trans semicolon) needed

theorem Fronts.ne {k : Taken s} (h : Fronts k) {kind : TokenKind} (no : kind.isSimple = false)
    (needed : kind ≠ .semicolon) : k.token.kind ≠ kind := by
  rintro rfl
  obtain ⟨simple, -⟩ | ⟨semicolon, -⟩ := h
  · exact Bool.false_ne_true (no.symm.trans simple)
  · exact needed semicolon

theorem take_terminated (h : Terminated s.cursor.tokens) :
    ∃ k : Taken s, s.take? = some k ∧ Fronts k := by
  cases front : s.cursor.tokens with
  | nil =>
    rw [front] at h
    cases h
  | cons t rest =>
    rw [front] at h
    refine ⟨_, State.take?_cons front, ?_⟩
    cases h with
    | last ends => exact .inr ⟨ends, rfl⟩
    | cons simple behind => exact .inl ⟨simple, behind⟩

theorem take?_followed {k : Taken s} (taken : s.take? = some k) (more : List Token) :
    (s.followed more).take? = some (k.followed more) := by
  have here := State.take?_cons k.tokens_eq
  have there := State.take?_cons (s := s.followed more) (congrArg (· ++ more) k.tokens_eq)
  have same := Option.some.inj (taken.symm.trans here)
  rw [there, same]
  rfl

theorem outcome_expect {k : Taken s} (taken : s.take? = some k) (kind : TokenKind) :
    (s.expect kind).outcome = (Cursor.demand kind k.token, k.behind) := by
  have next : s.next.outcome = (.ok k.token, k.behind) := by
    rw [State.next, taken]
    exact Step.outcome_widen (Step.pure k.token k.behind) k.le
  rw [State.expect, Step.outcome_andThen next]
  cases Cursor.demand kind k.token <;> rfl

theorem outcome_accept {k : Taken s} (taken : s.take? = some k) (kind : TokenKind) :
    (s.accept kind).outcome =
      if k.token.kind = kind then (.ok true, k.behind) else (.ok false, s) := by
  have same := Option.some.inj (taken.symm.trans (State.take?_cons k.tokens_eq))
  split
  · rename_i found
    rw [State.accept_cons kind k.tokens_eq found]
    exact congrArg (fun k : Taken s => (Except.ok true, k.behind)) same.symm
  · rename_i other
    refine State.accept_other fun t front => ?_
    rw [k.tokens_eq] at front
    exact Option.some.inj front ▸ other

theorem pauses_expect (h : Terminated s.cursor.tokens) {kind : TokenKind}
    (needed : kind ≠ .semicolon) : (s.expect kind).Pauses more ((s.followed more).expect kind) := by
  obtain ⟨k, taken, fronts⟩ := take_terminated h
  have here := outcome_expect taken kind
  have there : ((s.followed more).expect kind).outcome =
      (Cursor.demand kind k.token, k.behind.followed more) :=
    outcome_expect (take?_followed taken more) kind
  rw [Cursor.demand] at here there
  by_cases same : k.token.kind = kind
  · rw [if_pos same] at here there
    exact .of_ok here there (fronts.terminated same needed)
  · rw [if_neg same] at here there
    exact .of_error here there rfl fronts.closed

theorem pauses_accept (h : Terminated s.cursor.tokens) {kind : TokenKind}
    (needed : kind ≠ .semicolon) : (s.accept kind).Pauses more ((s.followed more).accept kind) := by
  obtain ⟨k, taken, fronts⟩ := take_terminated h
  have here := outcome_accept taken kind
  have there : ((s.followed more).accept kind).outcome =
      if k.token.kind = kind then (.ok true, k.behind.followed more)
      else (.ok false, s.followed more) :=
    outcome_accept (take?_followed taken more) kind
  by_cases same : k.token.kind = kind
  · rw [if_pos same] at here there
    exact .of_ok here there (fronts.terminated same needed)
  · rw [if_neg same] at here there
    exact .of_ok here there h

theorem closes_semicolon (h : Terminated s.cursor.tokens) (construct : String) :
    (s.semicolon construct).Closes more ((s.followed more).semicolon construct) := by
  obtain ⟨k, taken, fronts⟩ := take_terminated h
  have here := outcome_accept taken .semicolon
  have there : ((s.followed more).accept .semicolon).outcome =
      if k.token.kind = .semicolon then (.ok true, k.behind.followed more)
      else (.ok false, s.followed more) :=
    outcome_accept (take?_followed taken more) .semicolon
  unfold State.semicolon
  by_cases semicolon : k.token.kind = .semicolon
  · rw [if_pos semicolon] at here there
    exact .of_ok (Step.outcome_andThen here _) (Step.outcome_andThen there _) fronts.closed
  · rw [if_neg semicolon] at here there
    exact .of_ok (Step.outcome_andThen here _) (Step.outcome_andThen there _) (.inl h)

theorem check_followed (h : Terminated s.cursor.tokens) (kind : TokenKind) :
    (s.followed more).cursor.check kind = s.cursor.check kind := by
  obtain ⟨k, -, -⟩ := take_terminated h
  unfold Cursor.check Cursor.peek Cursor.front? State.followed
  rw [k.tokens_eq]
  rfl

theorem pauses_plainTypeName (h : Terminated s.cursor.tokens) :
    (plainTypeName s).Pauses more (plainTypeName (s.followed more)) := by
  refine (pauses_expect h (by decide)).andThen fun name t _ _ left => ?_
  have same : (t.followed more).module.findType? (t.followed more).program name.text =
      t.module.findType? t.program name.text := rfl
  rw [same]
  cases t.module.findType? t.program name.text with
  | none => exact .fail rfl (.inl left)
  | some type => exact .pure left

theorem pauses_skipAmpersands (line : Nat) (s : State) (h : Terminated s.cursor.tokens) :
    (skipAmpersands line s).Pauses more (skipAmpersands line (s.followed more)) := by
  obtain ⟨k, taken, fronts⟩ := take_terminated h
  rw [skipAmpersands.eq_def line s, skipAmpersands.eq_def line (s.followed more), taken,
    take?_followed taken more]
  have lt := k.lt
  refine .ite (fun ampersand => ?_) fun _ => .pure h
  have behind := fronts.terminated ampersand (by decide)
  exact (pauses_skipAmpersands line { k.behind with
    diagnostics := k.behind.diagnostics.warnAt line "multiple references" } behind).widen _ _
termination_by s.size

theorem pauses_typeName (h : Terminated s.cursor.tokens) :
    (typeName s).Pauses more (typeName (s.followed more)) := by
  obtain ⟨k, taken, fronts⟩ := take_terminated h
  rw [typeName.eq_def s, typeName.eq_def (s.followed more), taken, take?_followed taken more]
  dsimp only [Taken.followed]
  cases kind : k.token.kind with
  | bracketOpen | less => exact absurd kind (fronts.ne rfl (by decide))
  | ampersand =>
    have behind := fronts.terminated kind (by decide)
    refine .widen ((pauses_skipAmpersands _ _ behind).andThen fun _ t _ _ left => ?_) _ _
    exact (pauses_plainTypeName left).andThen fun _ u _ _ left => .of_ok rfl rfl left
  | _ => exact pauses_plainTypeName h

theorem literal_error {t : Token} {e : SyntaxError} (h : literal t = .error e) :
    e = ⟨.literalTooLarge t.text, t.line⟩ := by
  revert h
  fun_cases literal t with
  | case1 => exact nofun
  | case2 => exact fun h => (Except.error.inj h).symm
  | case3 => exact nofun
  | case4 => exact nofun
  | case5 => exact nofun

theorem pauses_literal {k : Taken s} (behind : Terminated k.behind.cursor.tokens)
    (more : List Token) :
    (Step.ofExcept ((literal k.token).map fun value => Expr.literal value k.token.line)
      k.behind).Pauses more
      (Step.ofExcept ((literal k.token).map fun value => Expr.literal value k.token.line)
        (k.behind.followed more)) := by
  cases read : literal k.token with
  | ok value => exact .pure behind
  | error e =>
    obtain rfl := literal_error read
    exact .fail rfl (.inl behind)

mutual

theorem pauses_expression (s : State) (h : Terminated s.cursor.tokens) :
    (expression s).Pauses more (expression (s.followed more)) := by
  rw [expression.eq_def s, expression.eq_def (s.followed more)]
  refine (pauses_operand s h).andThen fun lhs t le _ left => ?_
  obtain ⟨k, taken, fronts⟩ := take_terminated left
  rw [taken, take?_followed taken more]
  have lt := k.lt
  dsimp only [Taken.followed]
  obtain ⟨-, behind⟩ | ⟨semicolon, -⟩ := fronts
  · cases BinaryOperator.ofToken? k.token.kind with
    | none => exact .pure left
    | some op =>
      exact ((pauses_expression k.behind behind).map fun _ _ left => left).widen _ _
  · rw [semicolon]
    exact .pure left
termination_by 8 * s.size + 3

theorem pauses_operand (s : State) (h : Terminated s.cursor.tokens) :
    (operand s).Pauses more (operand (s.followed more)) := by
  rw [operand.eq_def s, operand.eq_def (s.followed more)]
  exact (pauses_primary s h).andThen fun e t _ _ left => pauses_suffixes true e t left
termination_by 8 * s.size + 2

theorem pauses_primary (s : State) (h : Terminated s.cursor.tokens) :
    (primary s).Pauses more (primary (s.followed more)) := by
  obtain ⟨k, taken, fronts⟩ := take_terminated h
  rw [primary.eq_def s, primary.eq_def (s.followed more), taken, take?_followed taken more]
  have lt := k.lt
  dsimp only [Taken.followed]
  cases kind : k.token.kind with
  | bracketOpen | less | parenOpen | braceClose => exact absurd kind (fronts.ne rfl (by decide))
  -- A semicolon is the one token that is left in place where an operand must stand.
  | semicolon => exact .fail rfl (.inl h)
  | integer | rational | boolean | string =>
    exact (pauses_literal (fronts.terminated kind (by decide)) more).widen _ _
  | noneWord | identifier =>
    exact (Step.Follows.pure (fronts.terminated kind (by decide))).widen _ _
  | ampersand =>
    have behind := fronts.terminated kind (by decide)
    exact ((pauses_expression k.behind behind).map fun _ _ left => left).widen _ _
  | notWord =>
    have behind := fronts.terminated kind (by decide)
    exact ((pauses_operand k.behind behind).map fun _ _ left => left).widen _ _
  | _ =>
    exact .ite (fun _ => .of_error rfl rfl rfl fronts.closed) fun _ =>
      .of_error rfl rfl rfl fronts.closed
termination_by 8 * s.size + 1

theorem pauses_suffixes (casts : Bool) (e : Expr) (s : State) (h : Terminated s.cursor.tokens) :
    (suffixes casts e s).Pauses more (suffixes casts e (s.followed more)) := by
  obtain ⟨k, taken, fronts⟩ := take_terminated h
  rw [suffixes.eq_def casts e s, suffixes.eq_def casts e (s.followed more), taken,
    take?_followed taken more]
  have lt := k.lt
  dsimp only [Taken.followed]
  cases kind : k.token.kind with
  | parenOpen | bracketOpen => exact absurd kind (fronts.ne rfl (by decide))
  | dot =>
    have behind := fronts.terminated kind (by decide)
    refine .widen ((pauses_expect behind (by decide)).andThen fun name t le _ left => ?_) _ _
    exact pauses_suffixes casts _ t left
  | asWord =>
    have behind := fronts.terminated kind (by decide)
    refine .ite (fun _ => .widen ((pauses_typeName behind).andThen fun type t le _ left => ?_) _ _)
      fun _ => .pure h
    exact .ite (fun _ => .fail rfl (.inl left)) fun _ => pauses_suffixes casts _ t left
  | _ => exact .pure h
termination_by 8 * s.size

end

theorem closes_rejected (s : State) (h : Terminated s.cursor.tokens) :
    (rejected s).Closes more (rejected (s.followed more)) := by
  obtain ⟨k, taken, fronts⟩ := take_terminated h
  rw [rejected.eq_def s, rejected.eq_def (s.followed more), taken, take?_followed taken more]
  have lt := k.lt
  refine .ite (fun _ => .pure (.inl h)) fun _ => .ite (fun _ => ?_) fun other => ?_
  · exact (Step.Follows.pure fronts.closed).widen _ _
  · obtain ⟨-, behind⟩ | ⟨semicolon, -⟩ := fronts
    · exact ((closes_rejected k.behind behind).map fun _ _ left => left).widen _ _
    · exact absurd semicolon other
termination_by s.size

theorem closes_invalidStatement {k : Taken s} (h : Fronts k) :
    (invalidStatement k).Closes more (invalidStatement (k.followed more)) := by
  unfold invalidStatement
  refine .ite (fun _ => .of_error rfl rfl rfl h.closed) fun other => ?_
  obtain ⟨-, behind⟩ | ⟨semicolon, -⟩ := h
  · have skipped : (rejected k.behind).Closes more (rejected (k.followed more).behind) :=
      closes_rejected k.behind behind
    cases here : rejected k.behind with
    | ok texts t le =>
      rw [here] at skipped
      obtain ⟨le', there⟩ := skipped.mirrors.eq_ok
      rw [there]
      exact .of_error rfl rfl rfl (skipped.value texts t rfl)
    | error e t le =>
      rw [here] at skipped
      obtain ⟨le', there⟩ := skipped.mirrors.eq_error
      rw [there]
      exact .of_error rfl rfl rfl (skipped.error e t rfl).2
  · exact absurd semicolon other

theorem pauses_assignmentRest (declares : Bool) (target : Expr) (h : Terminated s.cursor.tokens) :
    (assignmentRest declares target s).Pauses more
      (assignmentRest declares target (s.followed more)) := by
  refine (pauses_accept h (by decide)).andThen fun typed t _ _ left => ?_
  have annotation : Step.Pauses more (if typed then (typeName t).map some else .pure none t)
      (if typed then (typeName (t.followed more)).map some else .pure none (t.followed more)) :=
    .ite (fun _ => (pauses_typeName left).map fun _ _ left => left) fun _ => .pure left
  refine annotation.andThen fun written u _ _ left => ?_
  refine (pauses_expect left (by decide)).andThen fun _ v _ _ left => ?_
  exact (pauses_expression v left).map fun _ _ left => left

theorem closes_assignmentOrCall (name : Token) (h : Terminated s.cursor.tokens) :
    (assignmentOrCall name s).Closes more (assignmentOrCall name (s.followed more)) := by
  refine (pauses_suffixes false _ s h).andThen fun target t _ _ left => ?_
  rw [check_followed left]
  refine .ite (fun _ => .ite (fun _ => ?_) fun _ => .fail rfl (.inl left)) fun _ => ?_
  · refine (pauses_assignmentRest false target left).andThen fun assignment u _ _ left => ?_
    exact (closes_semicolon left _).map fun _ _ left => left
  · cases target with
    | call callee arguments bound injected line =>
      exact (closes_semicolon left _).map fun _ _ left => left
    | _ => exact .fail rfl (.inl left)

theorem pauses_condition (h : Terminated s.cursor.tokens) :
    (condition s).Pauses more (condition (s.followed more)) := by
  refine (pauses_expression s h).andThen fun e t _ _ left => ?_
  exact (pauses_expect left (by decide)).map fun _ _ left => left

theorem follows_accept_else (notElse : ∀ t ∈ more.head?, t.kind ≠ .elseWord)
    (h : Closed s.cursor.tokens) :
    (s.accept .elseWord).Follows more
      (fun found left => if found then Terminated left else Closed left)
      ((s.followed more).accept .elseWord) := by
  obtain behind | none := h
  · have pauses : (s.accept .elseWord).Pauses more ((s.followed more).accept .elseWord) :=
      pauses_accept behind (by decide)
    refine ⟨pauses.mirrors, fun found t read => ?_, pauses.error⟩
    cases found with
    | false => exact .inl (pauses.value _ t read)
    | true => exact pauses.value _ t read
  · have here : (s.accept .elseWord).outcome = (.ok false, s) :=
      State.accept_other fun t front => absurd (none ▸ front) nofun
    have there : ((s.followed more).accept .elseWord).outcome = (.ok false, s.followed more) := by
      refine State.accept_other fun t front => notElse t ?_
      have tokens : (s.followed more).cursor.tokens = more := congrArg (· ++ more) none
      exact tokens ▸ front
    exact .of_ok here there (.inr none)

mutual

theorem closes_statement (notElse : ∀ t ∈ more.head?, t.kind ≠ .elseWord) (s : State)
    (h : Terminated s.cursor.tokens) : (statement s).Closes more (statement (s.followed more)) := by
  obtain ⟨k, taken, fronts⟩ := take_terminated h
  rw [statement.eq_def s, statement.eq_def (s.followed more), taken, take?_followed taken more]
  have lt := k.lt
  refine .ite (fun isEnd => absurd isEnd (fronts.ne rfl (by decide))) fun _ => ?_
  exact (closes_statementAt notElse k fronts).widen _ _
termination_by 8 * s.size

theorem closes_statementAt (notElse : ∀ t ∈ more.head?, t.kind ≠ .elseWord) {s : State}
    (k : Taken s) (h : Fronts k) : (statementAt k).Closes more (statementAt (k.followed more)) := by
  rw [statementAt.eq_def k, statementAt.eq_def (k.followed more)]
  dsimp only [Taken.followed]
  cases kind : k.token.kind with
  | braceOpen | forWord => exact absurd kind (h.ne rfl (by decide))
  | retWord =>
    have behind := h.terminated kind (by decide)
    refine (pauses_expression k.behind behind).andThen fun value t _ _ left => ?_
    exact (closes_semicolon left _).map fun _ _ left => left
  | letWord =>
    have behind := h.terminated kind (by decide)
    refine (pauses_expect behind (by decide)).andThen fun name t _ _ left => ?_
    refine (pauses_assignmentRest true _ left).andThen fun assignment u _ _ left => ?_
    exact (closes_semicolon left _).map fun _ _ left => left
  | identifier => exact closes_assignmentOrCall k.token (h.terminated kind (by decide))
  | ifWord =>
    have behind := h.terminated kind (by decide)
    refine (pauses_condition behind).andThen fun test t _ _ left => ?_
    refine (closes_statement notElse t left).andThen fun body u _ _ left => ?_
    refine (follows_accept_else notElse left).andThen fun found v _ _ left => ?_
    cases found with
    | false => exact .pure left
    | true =>
      refine (pauses_expect left (by decide)).andThen fun _ w _ _ left => ?_
      exact (closes_statement notElse w left).map fun _ _ left => left
  | whileWord =>
    have behind := h.terminated kind (by decide)
    refine (pauses_condition behind).andThen fun test t _ _ left => ?_
    exact (closes_statement notElse t left).map fun _ _ left => left
  | _ => exact closes_invalidStatement h
termination_by 8 * k.behind.size + 2

end

end Grammar
end ObjectLang
