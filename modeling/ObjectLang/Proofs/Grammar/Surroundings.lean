import ObjectLang.Grammar.Statement
import ObjectLang.Proofs.Grammar.Mirror
set_option autoImplicit false

/-!
# Reading does not look around

The cursors that wait behind open brackets and what is in the log already are not looked at: with other
ones in their place, every function of the grammar reads the same tokens, comes to the same value or
error and does the same to the program and the file, and what it adds to the log is the same. There is
one lemma for each function, composed along its steps.
-/

namespace ObjectLang.Grammar

/-- Other surroundings: cursors below those that wait already, and another log, to which errors and
    warnings are added as they are added to the first one. -/
structure Surroundings where
  outer : List Cursor
  log : Diagnostics → Diagnostics
  file : ∀ d file, log { d with file } = { log d with file }
  errorAt : ∀ d line message, log (d.errorAt line message) = (log d).errorAt line message
  warnAt : ∀ d line message, log (d.warnAt line message) = (log d).warnAt line message

def Surroundings.around (σ : Surroundings) (s : State) : State :=
  { s with diagnostics := σ.log s.diagnostics, outer := s.outer ++ σ.outer }

@[simp] theorem around_cursor (σ : Surroundings) (s : State) : (σ.around s).cursor = s.cursor := rfl

@[simp] theorem around_program (σ : Surroundings) (s : State) :
    (σ.around s).program = s.program := rfl

@[simp] theorem around_module (σ : Surroundings) (s : State) : (σ.around s).module = s.module := rfl

/-- The step is the same in other surroundings. -/
abbrev Step.Abides {α : Type} {n m : Nat} (σ : Surroundings) (x : Step α n) (y : Step α m) : Prop :=
  x.Mirrors σ.around y

variable (σ : Surroundings)

def Taken.around {s : State} (k : Taken s) : Taken (σ.around s) :=
  ⟨k.token, σ.around k.behind, k.tokens_eq⟩

@[simp] theorem token_around {s : State} (k : Taken s) : (k.around σ).token = k.token := rfl

@[simp] theorem behind_around {s : State} (k : Taken s) :
    (k.around σ).behind = σ.around k.behind := rfl

theorem take?_around (s : State) : (σ.around s).take? = s.take?.map (Taken.around σ) := by
  cases front : s.cursor.tokens with
  | nil =>
    rw [State.take?_nil front, State.take?_nil (s := σ.around s) front]
    rfl
  | cons t rest =>
    rw [State.take?_cons front, State.take?_cons (s := σ.around s) front]
    rfl

theorem record_around (s : State) (e : SyntaxError) :
    (σ.around s).record e = σ.around (s.record e) :=
  congrArg (fun diagnostics => ({ s with diagnostics, outer := s.outer ++ σ.outer } : State))
    (σ.errorAt s.diagnostics e.line e.message).symm

theorem abides_next (s : State) : s.next.Abides σ (σ.around s).next := by
  rw [State.next, State.next, take?_around]
  cases s.take? with
  | none => exact .fail _ rfl
  | some k => exact (Step.Mirrors.pure k.token rfl).widen _ _

theorem abides_expect (s : State) (kind : TokenKind) :
    (s.expect kind).Abides σ ((σ.around s).expect kind) :=
  (abides_next σ s).andThen fun _ _ _ _ => .ofExcept _ rfl

theorem abides_accept (s : State) (kind : TokenKind) :
    (s.accept kind).Abides σ ((σ.around s).accept kind) := rfl

theorem abides_semicolon (s : State) (construct : String) :
    (s.semicolon construct).Abides σ ((σ.around s).semicolon construct) := by
  refine (abides_accept σ s .semicolon).andThen fun found t le le' => ?_
  split
  · exact .pure () rfl
  · exact congrArg (Prod.mk (Except.ok ())) (record_around σ t _)

section Brackets

variable {α : Type} {s : State}

theorem abides_inside (k : Taken s) (close : TokenKind)
    {read : (t : State) → t.size ≤ k.behind.size → Step α t.size}
    {read' : (t : State) → t.size ≤ (k.around σ).behind.size → Step α t.size}
    (h : ∀ t le le', (read t le).Abides σ (read' (σ.around t) le')) :
    (k.inside close read).Abides σ ((k.around σ).inside close read') := by
  unfold Step.Abides Step.Mirrors
  cases cut : (s.cursor.cutInside k.token.kind close).1 with
  | error e =>
    have here := inside_unclosed k close read cut
    have there := inside_unclosed (k.around σ) close read' cut
    obtain ⟨result, state⟩ := Prod.mk.inj here
    rw [there, result, state]
    rfl
  | ok inner =>
    have bound := (Cursor.size_cutInside k.tokens_eq close).2 inner cut
    have here := inside_closed k close read cut
    have there := inside_closed (k.around σ) close read' cut
    have same := h (s.enter inner (s.cursor.cutInside k.token.kind close).2) bound bound
    obtain ⟨result, state⟩ := Prod.mk.inj here
    obtain ⟨result', state'⟩ := Prod.mk.inj same
    rw [there, result, state]
    exact Prod.ext result' (congrArg (fun t : State => t.leave (σ.around s) _) state')

theorem abides_bracketed (s : State) (opening close : TokenKind)
    {read : (t : State) → t.size < s.size → Step α t.size}
    {read' : (t : State) → t.size < (σ.around s).size → Step α t.size}
    (h : ∀ t lt lt', (read t lt).Abides σ (read' (σ.around t) lt')) :
    (s.bracketed opening close read).Abides σ ((σ.around s).bracketed opening close read') := by
  rw [State.bracketed, State.bracketed, take?_around]
  cases s.take? with
  | none => exact .fail _ rfl
  | some k =>
    dsimp only [Option.map]
    refine .ite (fun _ => ?_) fun _ => .fail _ rfl
    exact (abides_inside σ k close fun t le le' => h t _ _).widen _ _

end Brackets

theorem abides_plainTypeName (s : State) :
    (plainTypeName s).Abides σ (plainTypeName (σ.around s)) := by
  refine (abides_expect σ s .identifier).andThen fun name t _ _ => ?_
  rw [around_module, around_program]
  cases t.module.findType? t.program name.text with
  | none => exact .fail _ rfl
  | some type => exact .pure type rfl

theorem abides_skipAmpersands (line : Nat) (s : State) :
    (skipAmpersands line s).Abides σ (skipAmpersands line (σ.around s)) := by
  rw [skipAmpersands.eq_def line s, skipAmpersands.eq_def line (σ.around s), take?_around]
  cases s.take? with
  | none => exact .pure () rfl
  | some k =>
    have lt := k.lt
    dsimp only [Option.map]
    refine .ite (fun _ => .widen ?_ _ _) fun _ => .pure () rfl
    let t : State :=
      { k.behind with diagnostics := k.behind.diagnostics.warnAt line "multiple references" }
    have warned : σ.around t = { σ.around k.behind with
        diagnostics := (σ.log k.behind.diagnostics).warnAt line "multiple references" } :=
      congrArg (fun diagnostics => ({ σ.around k.behind with diagnostics } : State))
        (σ.warnAt k.behind.diagnostics line "multiple references")
    exact warned ▸ abides_skipAmpersands line t
termination_by s.size

theorem abides_typeName (s : State) : (typeName s).Abides σ (typeName (σ.around s)) := by
  rw [typeName.eq_def s, typeName.eq_def (σ.around s), take?_around]
  cases s.take? with
  | none => exact .fail _ rfl
  | some k =>
    have lt := k.lt
    have nested := abides_typeName k.behind
    dsimp only [Option.map]
    rw [token_around]
    cases k.token.kind with
    | bracketOpen =>
      refine .widen (nested.andThen fun element t _ _ => ?_) _ _
      refine (abides_expect σ t .bracketClose).andThen fun _ u _ _ => ?_
      exact .ite (fun _ => .fail _ rfl) fun _ => rfl
    | less =>
      refine .widen (nested.andThen fun element t _ _ => ?_) _ _
      exact (abides_expect σ t .greater).andThen fun _ u _ _ => rfl
    | ampersand =>
      refine .widen ((abides_skipAmpersands σ _ _).andThen fun _ t _ _ => ?_) _ _
      exact (abides_plainTypeName σ t).andThen fun _ u _ _ => rfl
    | _ => exact abides_plainTypeName σ s
termination_by s.size

theorem abides_noneLeft (s : State) : (noneLeft s).Abides σ (noneLeft (σ.around s)) := by
  rw [noneLeft, noneLeft, take?_around]
  cases s.take? <;> rfl

theorem abides_keepLiterals (items : List Expr) (s : State) :
    (keepLiterals items s).Abides σ (keepLiterals items (σ.around s)) := by
  have logged (faults : List Expr) (d : Diagnostics) :
      σ.log (faults.foldl (fun d e =>
        d.errorAt e.line (SyntaxError.Cause.message .arrayInitializerNotLiteral)) d) =
      faults.foldl (fun d e =>
        d.errorAt e.line (SyntaxError.Cause.message .arrayInitializerNotLiteral)) (σ.log d) := by
    induction faults generalizing d with
    | nil => rfl
    | cons e rest ih => rw [List.foldl_cons, List.foldl_cons, ih, σ.errorAt]
  exact congrArg (fun diagnostics => (Except.ok (items.filter Expr.isLiteral),
    ({ s with diagnostics, outer := s.outer ++ σ.outer } : State))) (logged _ s.diagnostics).symm

theorem abides_arrayOfItems (line : Nat) (items : List Expr) (s : State) :
    (arrayOfItems line items s).Abides σ (arrayOfItems line items (σ.around s)) := by
  refine (abides_keepLiterals σ items s).andThen fun literals t _ _ => ?_
  exact .ite (fun _ => .fail _ rfl) fun _ => rfl

theorem abides_listOfItems (line : Nat) (items : List Expr) (s : State) :
    (listOfItems line items s).Abides σ (listOfItems line items (σ.around s)) := by
  refine (abides_keepLiterals σ items s).andThen fun literals t _ _ => ?_
  cases elementType? literals with
  | none => exact .fail _ rfl
  | some element => rfl

mutual

theorem abides_expression (s : State) : (expression s).Abides σ (expression (σ.around s)) := by
  rw [expression.eq_def s, expression.eq_def (σ.around s)]
  refine (abides_operand s).andThen fun lhs t le _ => ?_
  rw [take?_around]
  cases t.take? with
  | none => exact .pure lhs rfl
  | some k =>
    have lt := k.lt
    dsimp only [Option.map]
    rw [token_around]
    cases BinaryOperator.ofToken? k.token.kind with
    | none => exact .pure lhs rfl
    | some op => exact ((abides_expression k.behind).map _).widen _ _
termination_by 8 * s.size + 3

theorem abides_operand (s : State) : (operand s).Abides σ (operand (σ.around s)) := by
  rw [operand.eq_def s, operand.eq_def (σ.around s)]
  exact (abides_primary s).andThen fun e t _ _ => abides_suffixes true e t
termination_by 8 * s.size + 2

theorem abides_primary (s : State) : (primary s).Abides σ (primary (σ.around s)) := by
  rw [primary.eq_def s, primary.eq_def (σ.around s), take?_around]
  cases s.take? with
  | none => exact .fail _ rfl
  | some k =>
    have lt := k.lt
    have literalAt : Step.Abides σ ((Step.ofExcept ((literal k.token).map fun value =>
          Expr.literal value k.token.line) k.behind).widen k.le)
        ((Step.ofExcept ((literal k.token).map fun value =>
          Expr.literal value k.token.line) (σ.around k.behind)).widen k.le) :=
      (Step.Mirrors.ofExcept _ rfl).widen _ _
    dsimp only [Option.map]
    rw [token_around]
    cases k.token.kind with
    | integer | rational | boolean | string => exact literalAt
    | noneWord | identifier => exact (Step.Mirrors.pure _ rfl).widen _ _
    | bracketOpen =>
      refine .widen (Step.Mirrors.andThen ?_ fun items t _ _ => abides_listOfItems σ _ items t) _ _
      exact (abides_inside σ k .bracketClose fun t le _ => abides_separated t).mapError _
    | less =>
      refine .widen (Step.Mirrors.andThen ?_ fun items t _ _ => abides_arrayOfItems σ _ items t) _ _
      exact (abides_inside σ k .greater fun t le _ => abides_separated t).mapError _
    | ampersand => exact ((abides_expression k.behind).map _).widen _ _
    | parenOpen =>
      refine .widen ?_ _ _
      exact (abides_inside σ k .parenClose fun t le _ => abides_whole t).mapError _
    | notWord => exact ((abides_operand k.behind).map _).widen _ _
    | semicolon | braceClose => exact .fail _ rfl
    | _ => exact .ite (fun _ => rfl) fun _ => rfl
termination_by 8 * s.size + 1

theorem abides_suffixes (casts : Bool) (e : Expr) (s : State) :
    (suffixes casts e s).Abides σ (suffixes casts e (σ.around s)) := by
  rw [suffixes.eq_def casts e s, suffixes.eq_def casts e (σ.around s), take?_around]
  cases s.take? with
  | none => exact .pure e rfl
  | some k =>
    have lt := k.lt
    dsimp only [Option.map]
    rw [token_around]
    cases k.token.kind with
    | dot =>
      refine .widen ((abides_expect σ k.behind .identifier).andThen fun name t le _ => ?_) _ _
      exact abides_suffixes casts _ t
    | parenOpen =>
      refine .ite (fun _ => .widen (Step.Mirrors.andThen ?_ fun arguments t le _ => ?_) _ _)
        fun _ => .fail _ rfl
      · exact (abides_inside σ k .parenClose fun t le _ => abides_separated t).mapError _
      · exact abides_suffixes casts _ t
    | bracketOpen =>
      refine .widen (Step.Mirrors.andThen ?_ fun index t le _ => ?_) _ _
      · exact (abides_inside σ k .bracketClose fun t le _ => abides_whole t).mapError _
      · exact abides_suffixes casts _ t
    | asWord =>
      refine .ite (fun _ => .widen ((abides_typeName σ k.behind).andThen fun type t le _ => ?_) _ _)
        fun _ => .pure e rfl
      exact .ite (fun _ => .fail _ rfl) fun _ => abides_suffixes casts _ t
    | _ => exact .pure e rfl
termination_by 8 * s.size

theorem abides_whole (s : State) : (whole s).Abides σ (whole (σ.around s)) := by
  rw [whole.eq_def s, whole.eq_def (σ.around s)]
  exact (abides_expression s).andThen fun e t _ _ => (abides_noneLeft σ t).map _
termination_by 8 * s.size + 4

theorem abides_separated (s : State) : (separated s).Abides σ (separated (σ.around s)) := by
  rw [separated.eq_def s, separated.eq_def (σ.around s), take?_around]
  cases s.take? with
  | none => exact .pure [] rfl
  | some _ =>
    refine (abides_expression s).andThen fun e t le _ => ?_
    rw [take?_around]
    cases t.take? with
    | none => exact .pure [e] rfl
    | some k =>
      have lt := k.lt
      dsimp only [Option.map]
      rw [token_around]
      refine .ite (fun _ => ?_) fun _ => rfl
      exact ((abides_separated k.behind).map _).widen _ _
termination_by 8 * s.size + 4

end

theorem abides_rejected (s : State) : (rejected s).Abides σ (rejected (σ.around s)) := by
  rw [rejected.eq_def s, rejected.eq_def (σ.around s), take?_around]
  cases s.take? with
  | none => exact .pure [] rfl
  | some k =>
    have lt := k.lt
    refine .ite (fun _ => .pure [] rfl) fun _ => .ite (fun _ => ?_) fun _ => ?_
    · exact (Step.Mirrors.pure [] rfl).widen _ _
    · exact ((abides_rejected k.behind).map _).widen _ _
termination_by s.size

theorem abides_invalidStatement {s : State} (k : Taken s) :
    (invalidStatement k).Abides σ (invalidStatement (k.around σ)) := by
  unfold invalidStatement
  refine .ite (fun _ => rfl) fun _ => ?_
  have same : (rejected k.behind).Abides σ (rejected (k.around σ).behind) :=
    abides_rejected σ k.behind
  cases here : rejected k.behind <;> cases there : rejected (k.around σ).behind <;>
    rw [here, there] at same <;> cases same <;> rfl

theorem abides_assignmentRest (declares : Bool) (target : Expr) (s : State) :
    (assignmentRest declares target s).Abides σ (assignmentRest declares target (σ.around s)) := by
  refine (abides_accept σ s .colon).andThen fun typed t _ _ => ?_
  refine Step.Mirrors.andThen ?_ fun written u _ _ => ?_
  · exact .ite (fun _ => (abides_typeName σ t).map some) fun _ => .pure none rfl
  · refine (abides_expect σ u .equals).andThen fun _ v _ _ => ?_
    exact (abides_expression σ v).map _

theorem abides_assignmentOrCall (name : Token) (s : State) :
    (assignmentOrCall name s).Abides σ (assignmentOrCall name (σ.around s)) := by
  refine (abides_suffixes σ false _ s).andThen fun target t _ _ => .ite (fun _ => ?_) fun _ => ?_
  · refine .ite (fun _ => ?_) fun _ => .fail _ rfl
    refine (abides_assignmentRest σ false target t).andThen fun assignment u _ _ => ?_
    exact (abides_semicolon σ u "assignment").map _
  · cases target with
    | call callee arguments bound injected line =>
      exact (abides_semicolon σ t "function call").map _
    | _ => exact .fail _ rfl

theorem abides_condition (s : State) : (condition s).Abides σ (condition (σ.around s)) :=
  (abides_expression σ s).andThen fun _ t _ _ => (abides_expect σ t .colon).map _

theorem abides_loopStep (s : State) : (loopStep s).Abides σ (loopStep (σ.around s)) := by
  refine (abides_expect σ s .identifier).andThen fun name t _ _ => ?_
  refine (abides_suffixes σ false _ t).andThen fun target u _ _ => ?_
  refine .ite (fun _ => ?_) fun _ => .fail _ rfl
  refine (abides_assignmentRest σ false target u).andThen fun step v _ _ => ?_
  exact (abides_expect σ v .colon).map _

mutual

theorem abides_statements (s : State) : (statements s).Abides σ (statements (σ.around s)) := by
  rw [statements.eq_def s, statements.eq_def (σ.around s), take?_around]
  cases s.take? with
  | none => exact .pure [] rfl
  | some k =>
    have lt := k.lt
    refine .ite (fun _ => .pure [] rfl) fun _ => ?_
    have first := abides_statementAt k
    cases here : statementAt k with
    | ok value t le =>
      rw [here] at first
      obtain ⟨_, there⟩ := first.eq_ok
      rw [there]
      exact ((abides_statements t).map _).widen _ _
    | error e t le =>
      rw [here] at first
      obtain ⟨_, there⟩ := first.eq_error
      rw [there]
      have recorded := record_around σ t e
      have less := State.size_record_lt k e le
      have less_recover := State.size_recover_lt k e le
      refine .ite (fun _ => ?_) fun _ => .ite (fun _ => .widen ?_ _ _) fun _ => .widen ?_ _ _
      · exact congrArg (Prod.mk (Except.ok [])) recorded
      · exact recorded ▸ abides_statements (t.record e)
      · exact recorded ▸ abides_statements (t.record e).recover
termination_by 8 * s.size + 1

theorem abides_statement (s : State) : (statement s).Abides σ (statement (σ.around s)) := by
  rw [statement.eq_def s, statement.eq_def (σ.around s), take?_around]
  cases s.take? with
  | none => exact .fail _ rfl
  | some k =>
    have lt := k.lt
    exact .ite (fun _ => .fail _ rfl) fun _ => (abides_statementAt k).widen _ _
termination_by 8 * s.size

theorem abides_statementAt {s : State} (k : Taken s) :
    (statementAt k).Abides σ (statementAt (k.around σ)) := by
  rw [statementAt.eq_def k, statementAt.eq_def (k.around σ)]
  dsimp only
  rw [token_around]
  cases k.token.kind with
  | retWord =>
    refine (abides_expression σ k.behind).andThen fun value t _ _ => ?_
    exact (abides_semicolon σ t "return").map _
  | letWord =>
    refine (abides_expect σ k.behind .identifier).andThen fun name t _ _ => ?_
    refine (abides_assignmentRest σ true _ t).andThen fun assignment u _ _ => ?_
    exact (abides_semicolon σ u "assignment").map _
  | identifier => exact abides_assignmentOrCall σ k.token k.behind
  | ifWord =>
    refine (abides_condition σ k.behind).andThen fun test t le₁ _ => ?_
    refine (abides_statement t).andThen fun body u le₂ _ => ?_
    refine (abides_accept σ u .elseWord).andThen fun hasElse v le₃ _ => ?_
    refine .ite (fun _ => ?_) fun _ => .pure _ rfl
    refine (abides_expect σ v .colon).andThen fun _ w le₄ _ => ?_
    exact (abides_statement w).map _
  | whileWord =>
    refine (abides_condition σ k.behind).andThen fun test t le _ => ?_
    exact (abides_statement t).map _
  | forWord =>
    refine (abides_statement k.behind).andThen fun first t le₁ _ => ?_
    refine .ite (fun _ => ?_) fun _ => .fail _ rfl
    refine (abides_expression σ t).andThen fun test u le₂ _ => ?_
    refine (abides_expect σ u .semicolon).andThen fun _ v le₃ _ => ?_
    refine (abides_loopStep σ v).andThen fun step w le₄ _ => ?_
    exact (abides_statement w).map _
  | braceOpen => exact (abides_inside σ k .braceClose fun t le _ => abides_statements t).map _
  | _ => exact abides_invalidStatement σ k
termination_by 8 * k.behind.size + 2

end

end ObjectLang.Grammar
