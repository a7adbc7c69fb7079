import ObjectLang.Proofs.Grammar.File
import ObjectLang.Proofs.Printing.ReadStatement
import ObjectLang.Proofs.Printing.Reread
set_option autoImplicit false

/-!
# Printed statements read back

What is read without errors and has no floats in it comes out the same when its printed tokens are
read. So operators group to the right, suffixes and casts bind tighter than operators, an `else`
belongs to the nearest `if`, and a list comes back as the same call of a constructor.
-/

namespace ObjectLang.Grammar

/-- The first token is a name, and the others add the suffixes of the chain `e` to it. -/
def Chained (d : Draft) (e : Expr) : Prop :=
  ∃ name line more, e.tokens d = .name name line :: more ∧
    Adds d false (.var name none line) more e

theorem Chained.suffix {d : Draft} {base e : Expr} {suffix : List Token} (h : Chained d base)
    (chain : base.isChain = true) (tokens : e.tokens d = base.enclose (base.tokens d) ++ suffix)
    (added : Adds d false base suffix e) : Chained d e := by
  obtain ⟨name, line, more, first, goesOn⟩ := h
  have closed : base.isOpen = false := by cases base <;> first | rfl | cases chain
  rw [Expr.enclose, closed, if_neg Bool.false_ne_true, first] at tokens
  refine ⟨name, line, more ++ suffix, tokens, fun s rest same front => ?_⟩
  rw [List.append_assoc] at front
  obtain ⟨last, read⟩ := goesOn s _ same front
  obtain ⟨last', read'⟩ := added (s.seek (suffix ++ rest) last) rest same rfl
  exact ⟨last', read.trans read'⟩

theorem chained {d : Draft} (e : Expr) (shaped : e.Shaped d) (chain : e.isChain = true)
    (exact : e.floatFree = true) : Chained d e := by
  cases e with
  | var name type line =>
    obtain rfl : type = none := shaped
    refine ⟨name, line, [], rfl, fun s rest _ front => ⟨s.cursor.line, ?_⟩⟩
    have tokens : s.cursor.tokens = rest := front
    have stays : s.seek rest s.cursor.line = s := by rw [State.seek, ← tokens]
    rw [stays]
  | field base name type line =>
    obtain ⟨shaped, rfl⟩ := shaped
    exact (chained base shaped chain exact).suffix chain rfl (adds_field name)
  | index base place line =>
    rw [Expr.floatFree, Bool.and_eq_true] at exact
    have inner := (starts_and_rereads place shaped.2 exact.2).2
    exact (chained base shaped.1 chain exact.1).suffix chain rfl (adds_index inner)
  | call callee arguments target injected line =>
    rw [Expr.floatFree, Bool.and_eq_true] at exact
    rcases shaped with ⟨name, shaped, called, rfl, rfl⟩ | ⟨_, _, _, _, _, _, same⟩
    · have inner := rereads_all arguments shaped exact.2
      exact (chained callee name chain exact.1).suffix chain (tokens_named_call name called)
        (adds_call called inner)
    · cases same
      cases chain
  | _ => cases chain
termination_by structural e

def typeSuffix (d : Draft) : Option TypeId → List Token
  | none => []
  | some type => .fixed .colon 0 :: d.typeTokens type

theorem assignmentTokens_eq (d : Draft) (target value : Expr) (written : Option TypeId) :
    Statement.assignmentTokens d target written value =
      target.tokens d ++ (typeSuffix d written ++ .fixed .equals 0 :: value.tokens d) := by
  cases written <;> exact List.append_assoc _ _ _

section Assignments

variable {d : Draft} {s : State} {rest : List Token} {target value : Expr}
  {written : Option TypeId} {declares : Bool} {line : Nat}

theorem endsExpression_semicolon : EndsExpression (.fixed .semicolon line :: rest) :=
  endsExpression_cons rfl rfl

theorem endsExpression_colon : EndsExpression (.fixed .colon line :: rest) :=
  endsExpression_cons rfl rfl

theorem endsOperand_assignment :
    EndsOperand (typeSuffix d written ++ .fixed .equals 0 :: rest) := by
  cases written <;> rintro _ ⟨⟩ <;> rfl

theorem expect_fixed {kind : TokenKind} (front : s.cursor.tokens = .fixed kind line :: rest) :
    (s.expect kind).outcome = (.ok (.fixed kind line), s.seek rest line) :=
  State.expect_cons kind front rfl

theorem assignmentRest_gets (declares : Bool) (target : Expr) (given : Rereads d value)
    (spelled : ∀ type ∈ written, d.Spelled type) (same : s.draft = d) (ends : EndsExpression rest)
    (front : s.cursor.tokens =
      typeSuffix d written ++ .fixed .equals 0 :: (value.tokens d ++ rest)) :
    (assignmentRest declares target s).Gets s
      (.assign declares target written value target.line) rest := by
  -- The type, if there is one, is read up to the sign of equality.
  have typed : ∃ found t last, (s.accept .colon).outcome = (.ok found, t) ∧
      (if found then (typeName t).map some else Step.pure none t).outcome =
        (.ok written, s.seek (.fixed .equals 0 :: (value.tokens d ++ rest)) last) := by
    cases written with
    | none =>
      have tokens : s.cursor.tokens = .fixed .equals 0 :: (value.tokens d ++ rest) := front
      have other : ∀ t ∈ s.cursor.tokens.head?, t.kind ≠ .colon := by
        rw [tokens]
        rintro _ ⟨⟩
        exact nofun
      refine ⟨false, s, s.cursor.line, State.accept_other other, ?_⟩
      have stays : s.seek s.cursor.tokens s.cursor.line = s := rfl
      rw [← tokens, stays]
      rfl
    | some type =>
      have written := (spelled type rfl).spells_typeTokens
      let t := s.seek (d.typeTokens type ++ .fixed .equals 0 :: (value.tokens d ++ rest)) 0
      obtain ⟨last, read⟩ := typeName_spells (s := t) written same rfl
      exact ⟨true, t, last, State.accept_cons .colon front rfl, Step.outcome_map read some⟩
  obtain ⟨found, t, last, colon, type⟩ := typed
  obtain ⟨last', read⟩ := given (s.seek (value.tokens d ++ rest) 0) rest same ends rfl
  refine ⟨last', ?_⟩
  rw [assignmentRest, Step.outcome_andThen colon, Step.outcome_andThen type,
    Step.outcome_andThen (expect_fixed rfl)]
  exact Step.outcome_map read _

theorem semicolon_gets (front : s.cursor.tokens = .fixed .semicolon line :: rest)
    (construct : String) : (s.semicolon construct).outcome = (.ok (), s.seek rest line) :=
  State.semicolon_cons front rfl construct

theorem ended_gets {α β : Type} {n last : Nat} {x : Step α n} {v : α}
    (read : x.outcome = (.ok v, s.seek (.fixed .semicolon line :: rest) last)) (f : α → β)
    (construct : String) :
    (x.andThen fun v t _ => (t.semicolon construct).map fun _ => f v).outcome =
      (.ok (f v), s.seek rest line) := by
  rw [Step.outcome_andThen read]
  exact Step.outcome_map (semicolon_gets rfl construct) _

theorem condition_gets (test : Rereads d value) (same : s.draft = d)
    (front : s.cursor.tokens = value.tokens d ++ .fixed .colon line :: rest) :
    (condition s).outcome = (.ok value, s.seek rest line) := by
  obtain ⟨last, read⟩ := test s _ same endsExpression_colon front
  rw [condition, Step.outcome_andThen read]
  exact Step.outcome_map (expect_fixed rfl) _

/-- A chain is read up to a token that does not go on with it. -/
theorem Chained.gets {e : Expr} (h : Chained d e) (same : s.draft = d) (ends : EndsOperand rest)
    (front : s.cursor.tokens = e.tokens d ++ rest) :
    ∃ name first more, s.cursor.tokens = .name name first :: more ∧
      (suffixes false (.var name none first) (s.seek more first)).Gets s e rest := by
  obtain ⟨name, first, more, tokens, goesOn⟩ := h
  rw [tokens, List.cons_append] at front
  obtain ⟨last, read⟩ := goesOn (s.seek (more ++ rest) first) rest same rfl
  exact ⟨name, first, more ++ rest, front, last, read.trans (suffixes_end ends)⟩

theorem loopStep_gets {step : Statement} (shaped : step.ShapedStep d)
    (exact : step.floatFree = true) (same : s.draft = d)
    (front : s.cursor.tokens = Statement.stepTokens d step ++ .fixed .colon line :: rest) :
    (loopStep s).outcome = (.ok step, s.seek rest line) := by
  cases step with
  | assign declares target written value at_ =>
    obtain ⟨rfl, assigned⟩ := shaped
    obtain rfl := assigned.sameLine
    rw [Statement.floatFree, Bool.and_eq_true] at exact
    have chain := chained target assigned.shaped assigned.chain exact.1
    have given := (starts_and_rereads value assigned.given exact.2).2
    rw [Statement.stepTokens, assignmentTokens_eq, List.append_assoc, List.append_assoc,
      List.cons_append] at front
    obtain ⟨name, first, more, tokens, last, read⟩ := chain.gets same endsOperand_assignment front
    obtain ⟨last', behind⟩ := assignmentRest_gets (s := s.seek _ last) false target given
      assigned.spelled same endsExpression_colon rfl
    rw [loopStep, Step.outcome_andThen (State.expect_cons .identifier tokens rfl)]
    dsimp only [Token.name]
    rw [Step.outcome_andThen read, if_pos assigned.place, Step.outcome_andThen behind]
    exact Step.outcome_map (expect_fixed rfl) _
  | _ => cases shaped

end Assignments

/-- Printed in a file like that of `d`, the statement reads as itself, unless an `else` that would go
    on with it comes next. -/
def Returns (d : Draft) (x : Statement) : Prop :=
  ∀ (s : State) (rest : List Token), s.draft = d →
    (x.endsOpen = true → ∀ t ∈ rest.head?, t.kind ≠ .elseWord) →
    s.cursor.tokens = x.tokens d ++ rest →
    ∃ k, s.take? = some k ∧ k.token.kind.startsStatement = true ∧ (statementAt k).Gets s x rest

section Statements

variable {d : Draft} {s : State} {rest : List Token} {x : Statement}

theorem notEnd_of_starts {kind : TokenKind} (starts : kind.startsStatement = true) :
    kind ≠ .endOfFile := by
  rintro rfl
  cases starts

theorem Returns.statement (h : Returns d x) (same : s.draft = d)
    (unopened : x.endsOpen = true → ∀ t ∈ rest.head?, t.kind ≠ .elseWord)
    (front : s.cursor.tokens = x.tokens d ++ rest) : (statement s).Gets s x rest := by
  obtain ⟨k, taken, starts, last, read⟩ := h s rest same unopened front
  refine ⟨last, ?_⟩
  rw [Grammar.statement, taken]
  dsimp only
  rw [if_neg (notEnd_of_starts starts)]
  exact (Step.outcome_widen _ _).trans read

theorem check_cons {t : Token} (kind : TokenKind) (front : s.cursor.tokens = t :: rest) :
    s.cursor.check kind = (t.kind == kind) := by
  rw [Cursor.check, Cursor.peek, Cursor.front?, front]
  rfl

theorem returns_declaration {target value : Expr} {written : Option TypeId} {at_ : Nat}
    (assigned : Statement.Assigned d true target written value at_)
    (exact : value.floatFree = true) : Returns d (.assign true target written value at_) := by
  intro s rest same _ front
  obtain rfl := assigned.sameLine
  obtain ⟨name, line, rfl⟩ := assigned.fresh rfl
  have given := (starts_and_rereads value assigned.given exact).2
  simp only [Statement.tokens, assignmentTokens_eq, if_true, Expr.tokens, List.append_assoc,
    List.cons_append, List.nil_append] at front
  let behind := typeSuffix d written ++
    .fixed .equals 0 :: (value.tokens d ++ .fixed .semicolon line :: rest)
  obtain ⟨last, read⟩ := assignmentRest_gets (s := s.seek behind line) true (.var name none line)
    given assigned.spelled same endsExpression_semicolon rfl
  refine ⟨_, State.take?_cons front, rfl, line, ?_⟩
  rw [statementAt]
  dsimp only [Token.fixed]
  rw [Step.outcome_andThen (State.expect_cons .identifier rfl rfl)]
  exact ended_gets read id _

theorem returns_assign {target value : Expr} {at_ : Nat}
    (assigned : Statement.Assigned d false target none value at_)
    (exact : target.floatFree = true ∧ value.floatFree = true) :
    Returns d (.assign false target none value at_) := by
  intro s rest same _ front
  obtain rfl := assigned.sameLine
  have chain := chained target assigned.shaped assigned.chain exact.1
  have given := (starts_and_rereads value assigned.given exact.2).2
  simp only [Statement.tokens, assignmentTokens_eq, Bool.false_eq_true, if_false,
    List.append_assoc, List.cons_append, List.nil_append] at front
  obtain ⟨name, first, more, tokens, last, read⟩ := chain.gets same endsOperand_assignment front
  let behind := typeSuffix d none ++
    .fixed .equals 0 :: (value.tokens d ++ .fixed .semicolon target.line :: rest)
  obtain ⟨last', read'⟩ := assignmentRest_gets (s := s.seek behind last) false target given
    assigned.spelled same endsExpression_semicolon rfl
  have equals : (s.seek behind last).cursor.check .equals = true :=
    check_cons (t := .fixed .equals 0) .equals rfl
  refine ⟨_, State.take?_cons tokens, rfl, target.line, ?_⟩
  rw [statementAt]
  dsimp only [Token.name]
  rw [assignmentOrCall]
  refine (Step.outcome_andThen read _).trans ?_
  rw [if_pos (equals : (s.seek behind last).cursor.check .equals = true), if_pos assigned.place]
  exact ended_gets read' id _

theorem returns_call {callee : Expr} {arguments : List Expr} {target : Option FunctionId}
    {injected : Bool} {line : Nat}
    (shaped : (Statement.call callee arguments target injected line).Shaped d)
    (exact : (Expr.call callee arguments target injected line).floatFree = true) :
    Returns d (.call callee arguments target injected line) := by
  intro s rest same _ front
  have chain := chained _ shaped.1 shaped.2 exact
  simp only [Statement.tokens, List.append_assoc, List.cons_append, List.nil_append] at front
  obtain ⟨name, first, more, tokens, last, read⟩ :=
    chain.gets same endsExpression_semicolon.operand front
  have called : (s.seek (.fixed .semicolon line :: rest) last).cursor.check .equals = false :=
    check_cons (t := .fixed .semicolon line) .equals rfl
  refine ⟨_, State.take?_cons tokens, rfl, line, ?_⟩
  rw [statementAt]
  dsimp only [Token.name]
  rw [assignmentOrCall]
  dsimp only
  rw [Step.outcome_andThen read, if_neg (Bool.eq_false_iff.1 called)]
  exact Step.outcome_map (semicolon_gets rfl _) _

theorem returns_ret {value : Expr} {line : Nat} (given : Rereads d value) :
    Returns d (.ret value line) := by
  intro s rest same _ front
  simp only [Statement.tokens, List.append_assoc, List.cons_append, List.nil_append] at front
  let behind := value.tokens d ++ .fixed .semicolon line :: rest
  obtain ⟨last, read⟩ := given (s.seek behind line) _ same endsExpression_semicolon rfl
  refine ⟨_, State.take?_cons front, rfl, line, ?_⟩
  rw [statementAt]
  exact ended_gets read (Statement.ret · line) "return"

theorem returns_ifThen {test : Expr} {body : Statement} {line : Nat} (tested : Rereads d test)
    (taken : Returns d body) : Returns d (.ifThen test body line) := by
  intro s rest same unopened front
  simp only [Statement.tokens, List.append_assoc, List.cons_append] at front
  let inner := body.tokens d ++ rest
  let behind := test.tokens d ++ .fixed .colon line :: inner
  have condition := condition_gets (s := s.seek behind line) tested same rfl
  obtain ⟨last, read⟩ := taken.statement (s := s.seek inner line) same (fun _ => unopened rfl) rfl
  have none : ((s.seek rest last).accept .elseWord).outcome = (.ok false, s.seek rest last) :=
    State.accept_other (unopened rfl)
  refine ⟨_, State.take?_cons front, rfl, last, ?_⟩
  rw [statementAt]
  refine (Step.outcome_andThen condition _).trans ?_
  refine (Step.outcome_andThen read _).trans ?_
  exact Step.outcome_andThen none _

theorem returns_ifElse {test : Expr} {body otherwise : Statement} {line : Nat}
    (tested : Rereads d test) (taken : Returns d body) (closed : body.endsOpen = false)
    (other : Returns d otherwise) : Returns d (.ifElse test body otherwise line) := by
  intro s rest same unopened front
  simp only [Statement.tokens, List.append_assoc, List.cons_append] at front
  let others := otherwise.tokens d ++ rest
  let inner := body.tokens d ++ .fixed .elseWord line :: .fixed .colon line :: others
  let behind := test.tokens d ++ .fixed .colon line :: inner
  have condition := condition_gets (s := s.seek behind line) tested same rfl
  obtain ⟨_, read⟩ := taken.statement (s := s.seek inner line) same
    (fun opened => absurd (closed.symm.trans opened) Bool.false_ne_true) rfl
  obtain ⟨last, read'⟩ := other.statement (s := s.seek others line) same unopened rfl
  refine ⟨_, State.take?_cons front, rfl, last, ?_⟩
  rw [statementAt]
  refine (Step.outcome_andThen condition _).trans ?_
  refine (Step.outcome_andThen read _).trans ?_
  refine (Step.outcome_andThen (State.accept_cons .elseWord rfl rfl) _).trans ?_
  rw [if_pos rfl]
  refine (Step.outcome_andThen (expect_fixed rfl) _).trans ?_
  exact Step.outcome_map read' _

theorem returns_whileLoop {test : Expr} {body : Statement} {line : Nat} (tested : Rereads d test)
    (repeated : Returns d body) : Returns d (.whileLoop test body line) := by
  intro s rest same unopened front
  simp only [Statement.tokens, List.append_assoc, List.cons_append] at front
  let inner := body.tokens d ++ rest
  let behind := test.tokens d ++ .fixed .colon line :: inner
  have condition := condition_gets (s := s.seek behind line) tested same rfl
  obtain ⟨last, read⟩ := repeated.statement (s := s.seek inner line) same unopened rfl
  refine ⟨_, State.take?_cons front, rfl, last, ?_⟩
  rw [statementAt]
  refine (Step.outcome_andThen condition _).trans ?_
  exact Step.outcome_map read _

theorem returns_forLoop {first step body : Statement} {test : Expr} {line : Nat}
    (start : Returns d first) (assigns : first.isAssignment = true) (tested : Rereads d test)
    (shaped : step.ShapedStep d) (exact : step.floatFree = true) (repeated : Returns d body) :
    Returns d (.forLoop first test step body line) := by
  intro s rest same unopened front
  have closed : first.endsOpen = false := by cases first <;> first | rfl | cases assigns
  simp only [Statement.tokens, List.append_assoc, List.cons_append] at front
  let inner := body.tokens d ++ rest
  let next := Statement.stepTokens d step ++ .fixed .colon line :: inner
  let check := test.tokens d ++ .fixed .semicolon line :: next
  let behind := first.tokens d ++ check
  obtain ⟨last, read⟩ := start.statement (s := s.seek behind line) same
    (fun opened => absurd (closed.symm.trans opened) Bool.false_ne_true) rfl
  obtain ⟨_, read'⟩ := tested (s.seek check last) _ same endsExpression_semicolon rfl
  have step := loopStep_gets (s := s.seek next line) shaped exact same rfl
  obtain ⟨last', read''⟩ := repeated.statement (s := s.seek inner line) same unopened rfl
  refine ⟨_, State.take?_cons front, rfl, last', ?_⟩
  rw [statementAt]
  refine (Step.outcome_andThen read _).trans ?_
  rw [if_pos assigns]
  refine (Step.outcome_andThen read' _).trans ?_
  refine (Step.outcome_andThen (expect_fixed rfl) _).trans ?_
  refine (Step.outcome_andThen step _).trans ?_
  exact Step.outcome_map read'' _

theorem returns_block {body : List Statement} {line : Nat}
    (inner : ∀ t : State, t.draft = d → t.cursor.tokens = Statement.allTokens d body →
      (statements t).Gets t body []) : Returns d (.block body line) := by
  intro s rest same _ front
  simp only [Statement.tokens, List.append_assoc, List.cons_append, List.nil_append] at front
  have inside := inside_gets (s := s) (k := ⟨_, s.seek _ line, front⟩) .braceClose rfl
    rfl (Statement.nested_allTokens d body) fun t _ draft tokens => inner t (draft.trans same) tokens
  refine ⟨_, State.take?_cons front, rfl, s.cursor.line, ?_⟩
  rw [statementAt]
  dsimp only [Token.fixed]
  exact Step.outcome_map inside _

theorem head_tokens (x : Statement) (shaped : x.Shaped d) (exact : x.floatFree = true) :
    ∃ t more, x.tokens d = t :: more ∧ t.kind ≠ .elseWord := by
  cases x with
  | block body line => exact ⟨_, _, rfl, nofun⟩
  | assign declares target written value line =>
    cases declares with
    | true => exact ⟨_, _, rfl, nofun⟩
    | false =>
      rw [Statement.floatFree, Bool.and_eq_true] at exact
      obtain ⟨name, line, more, tokens, -⟩ :=
        chained target shaped.1.shaped shaped.1.chain exact.1
      rw [Statement.tokens, assignmentTokens_eq, tokens]
      exact ⟨_, _, rfl, nofun⟩
  | ret value line => exact ⟨_, _, rfl, nofun⟩
  | ifThen test body line => exact ⟨_, _, rfl, nofun⟩
  | ifElse test body otherwise line => exact ⟨_, _, rfl, nofun⟩
  | whileLoop test body line => exact ⟨_, _, rfl, nofun⟩
  | forLoop first test step body line => exact ⟨_, _, rfl, nofun⟩
  | call callee arguments target injected line =>
    obtain ⟨name, first, more, tokens, -⟩ := chained _ shaped.1 shaped.2 exact
    rw [Statement.tokens, tokens]
    exact ⟨_, _, rfl, nofun⟩

theorem head_allTokens (xs : List Statement) (shaped : Statement.ShapedAll d xs)
    (exact : Statement.allFloatFree xs = true) :
    ∀ t ∈ (Statement.allTokens d xs).head?, t.kind ≠ .elseWord := by
  cases xs with
  | nil => exact nofun
  | cons x rest =>
    rw [Statement.allFloatFree, Bool.and_eq_true] at exact
    obtain ⟨t, more, tokens, other⟩ := head_tokens x shaped.1 exact.1
    rw [Statement.allTokens, tokens]
    rintro _ ⟨⟩
    exact other

mutual

/-- The argument is an induction on the tree. -/
theorem returns (x : Statement) (shaped : x.Shaped d) (exact : x.floatFree = true) :
    Returns d x := by
  cases x with
  | block body line => exact returns_block (statements_gets body shaped exact)
  | assign declares target written value line =>
    rw [Statement.floatFree, Bool.and_eq_true] at exact
    cases declares with
    | true => exact returns_declaration shaped.1 exact.2
    | false =>
      obtain rfl := shaped.2 rfl
      exact returns_assign shaped.1 exact
  | ret value line => exact returns_ret (starts_and_rereads value shaped exact).2
  | ifThen test body line =>
    rw [Statement.floatFree, Bool.and_eq_true] at exact
    exact returns_ifThen (starts_and_rereads test shaped.1 exact.1).2
      (returns body shaped.2 exact.2)
  | ifElse test body otherwise line =>
    rw [Statement.floatFree, Bool.and_eq_true, Bool.and_eq_true] at exact
    obtain ⟨tested, taken, closed, other⟩ := shaped
    exact returns_ifElse (starts_and_rereads test tested exact.1.1).2
      (returns body taken exact.1.2) closed (returns otherwise other exact.2)
  | whileLoop test body line =>
    rw [Statement.floatFree, Bool.and_eq_true] at exact
    exact returns_whileLoop (starts_and_rereads test shaped.1 exact.1).2
      (returns body shaped.2 exact.2)
  | forLoop first test step body line =>
    rw [Statement.floatFree, Bool.and_eq_true, Bool.and_eq_true, Bool.and_eq_true] at exact
    obtain ⟨⟨start, assigns⟩, tested, next, repeated⟩ := shaped
    exact returns_forLoop (returns first start exact.1.1.1) assigns
      (starts_and_rereads test tested exact.1.1.2).2 next exact.1.2 (returns body repeated exact.2)
  | call callee arguments target injected line =>
    exact returns_call shaped exact
termination_by structural x

theorem statements_gets (xs : List Statement) (shaped : Statement.ShapedAll d xs)
    (exact : Statement.allFloatFree xs = true) (s : State) (same : s.draft = d)
    (front : s.cursor.tokens = Statement.allTokens d xs) : (statements s).Gets s xs [] := by
  cases xs with
  | nil =>
    have tokens : s.cursor.tokens = [] := front
    have stays : s.seek [] s.cursor.line = s := by rw [State.seek, ← tokens]
    refine ⟨s.cursor.line, ?_⟩
    rw [statements, State.take?_nil tokens, stays]
    rfl
  | cons x rest =>
    rw [Statement.allFloatFree, Bool.and_eq_true] at exact
    have first := returns x shaped.1 exact.1
    obtain ⟨k, taken, starts, last, read⟩ :=
      first s _ same (fun _ => head_allTokens rest shaped.2 exact.2) front
    obtain ⟨last', behind⟩ := statements_gets rest shaped.2 exact.2 (s.seek _ last) same rfl
    obtain ⟨le, read⟩ := Step.eq_ok read
    refine ⟨last', ?_⟩
    rw [statements, taken]
    dsimp only
    rw [if_neg (notEnd_of_starts starts), read]
    exact (Step.outcome_widen _ _).trans (Step.outcome_map behind _)
termination_by structural xs

end

/-- What is read without an error and has no floats comes out the same when its printed tokens are
    read in the file that reading has left, and nothing else changes. -/
theorem statements_printed {earlier : List Module} {ss : List Statement} {t : State}
    {le : t.size ≤ s.size} (hs : s.draft.Closed earlier) (read : statements s = .ok ss t le)
    (quiet : s.Quiet t) (exact : Statement.allFloatFree ss = true) (u : State)
    (same : u.draft = t.draft) (front : u.cursor.tokens = Statement.allTokens t.draft ss) :
    ∃ line, (statements u).outcome = (.ok ss, u.seek [] line) := by
  have shapes := shapes_statements s hs
  rw [read] at shapes
  exact statements_gets ss (shapes.2 quiet) exact u same front

/-- Parentheses that are not needed are dropped, and the `else` stays with the inner `if`. -/
theorem statements_printed_brackets :
    let text := "let x = ((1 + 2)) * (3); if True: if x == 9: ret (x as Int); else: ret not x;"
    let s : State := .start [] "a" (.ofTokens "a.kv" (Lexed.ofText "a.kv" text).tokens) {} {}
    let printed := ["let", "x", "=", "(", "1", "+", "2", ")", "*", "3", ";", "if", "True", ":", "if",
      "x", "==", "9", ":", "ret", "x", "as", "Int", ";", "else", ":", "ret", "x", "==", "False", ";"]
    ∃ ss t, ∃ le : t.size ≤ s.size, s.draft.Closed [] ∧ statements s = .ok ss t le ∧ s.Quiet t ∧
      Statement.allFloatFree ss = true ∧
      (Statement.allTokens t.draft ss).map Token.text = printed ∧
      ∀ u : State, u.draft = t.draft → u.cursor.tokens = Statement.allTokens t.draft ss →
        ∃ line, (statements u).outcome = (.ok ss, u.seek [] line) := by
  intro text s printed
  have closed : s.draft.Closed [] := Draft.closed_start .nil "a" "a.kv"
  have facts : (match statements s with
      | .ok ss t _ => decide (t.errors = s.errors ∧ Statement.allFloatFree ss = true ∧
        (Statement.allTokens t.draft ss).map Token.text = printed)
      | .error .. => false) = true := by decide +kernel
  cases read : statements s with
  | ok ss t le =>
    rw [read] at facts
    obtain ⟨quiet, exact, texts⟩ := of_decide_eq_true facts
    exact ⟨ss, t, le, closed, rfl, quiet, exact, texts, statements_printed closed read quiet exact⟩
  | error e t le =>
    rw [read] at facts
    cases facts

end Statements

end ObjectLang.Grammar
