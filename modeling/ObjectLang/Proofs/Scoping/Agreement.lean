import ObjectLang.Proofs.Scoping.Visit
set_option autoImplicit false

/-!
# The checker and the interpreter agree on names

Both walk over the same body, the checker once over all of it and the interpreter as control goes.
Here the two walks are compared: wherever the interpreter comes to in a body that was accepted, the
checker has been, with the same labels for the names of the function.
-/

namespace ObjectLang

open Typing

theorem Statement.sitesBehind_append (statement : Statement) (place : Place)
    (sites types : Sites) : statement.sitesBehind place (sites ++ types) =
      statement.sitesBehind place sites ++ types := by
  unfold sitesBehind
  cases statement.declared? <;> rfl

namespace Typing

variable {c : Context} {s : State}

theorem statement_checkAssign {declares : Bool} {target : Expr} {written : Option TypeId}
    {value : Expr} {line : Nat}
    (ok : (checkAssign c declares target written value line s).result = .ok ()) :
    ∃ target', (checkAssign c declares target written value line s).statement =
        .assign declares target' written (visit c value s).expr line ∧
      (declares = true → ∃ name type type' place place', target = .var name type place ∧
        target' = .var name type' place') ∧
      (declares = false → (∃ type, (visit c value s).result = .ok type) ∧
        target' = (visit c target (visit c value s).state).expr) := by
  unfold checkAssign at ok ⊢
  dsimp only at ok ⊢
  split at ok
  · cases ok
  · rename_i type found
    rw [found]
    cases declares with
    | false => exact ⟨_, rfl, fun no => Bool.noConfusion no, fun _ => ⟨⟨type, rfl⟩, rfl⟩⟩
    | true =>
      rw [if_pos rfl] at ok ⊢
      split at ok
      · cases ok
      · rename_i target' t declared
        refine ⟨target', rfl, fun _ => ?_, fun no => Bool.noConfusion no⟩
        unfold declare at declared
        split at declared
        · obtain ⟨⟨⟩, -, declared⟩ := bind_eq_ok.1 declared
          obtain ⟨⟨⟩, -, declared⟩ := bind_eq_ok.1 declared
          obtain ⟨found, -, declared⟩ := bind_eq_ok.1 declared
          cases declared
          exact ⟨_, _, _, _, _, rfl, rfl⟩
        · cases declared

theorem statement_checkCall (callee : Expr) (arguments : List Expr) (target : Option FunctionId)
    (injected : Bool) (line : Nat) : ∃ callee' arguments' target' injected',
      (visit c (.call callee arguments target injected line) s).expr =
        .call callee' arguments' target' injected' line ∧
      (checkCall c callee arguments target injected line s).statement =
        .call callee' arguments' target' injected' line := by
  obtain ⟨callee', arguments', target', injected', same⟩ :=
    expr_visit_call (c := c) (s := s) callee arguments target injected line
  refine ⟨callee', arguments', target', injected', same, ?_⟩
  unfold checkCall
  dsimp only
  rw [same]

theorem check_ifThen {test : Expr} {body : Statement} {line : Nat}
    (holds : (visitCondition c test s).2.2 = .ok ()) :
    check c (.ifThen test body line) s =
      let b := Checked.inScope (check c body) (visitCondition c test s).2.1
      ⟨.ifThen (visitCondition c test s).1 b.statement line, b.state, b.result⟩ := by
  rw [check]
  simp only [Checked.next, holds]

theorem check_whileLoop {test : Expr} {body : Statement} {line : Nat}
    (holds : (visitCondition c test s).2.2 = .ok ()) :
    check c (.whileLoop test body line) s =
      let b := Checked.inScope (check c body) (visitCondition c test s).2.1
      ⟨.whileLoop (visitCondition c test s).1 b.statement line, b.state, b.result⟩ := by
  rw [check]
  simp only [Checked.next, holds]

theorem check_ifElse {test : Expr} {body otherwise : Statement} {line : Nat}
    (holds : (visitCondition c test s).2.2 = .ok ())
    (done : (Checked.inScope (check c body) (visitCondition c test s).2.1).result = .ok ()) :
    check c (.ifElse test body otherwise line) s =
      let b := Checked.inScope (check c body) (visitCondition c test s).2.1
      let o := Checked.inScope (check c otherwise) b.state
      ⟨.ifElse (visitCondition c test s).1 b.statement o.statement line, o.state, o.result⟩ := by
  rw [check]
  simp only [Checked.next, holds, done]

theorem ok_ifElse {test : Expr} {body otherwise : Statement} {line : Nat}
    (ok : (check c (.ifElse test body otherwise line) s).result = .ok ()) :
    (visitCondition c test s).2.2 = .ok () ∧
      (Checked.inScope (check c body) (visitCondition c test s).2.1).result = .ok () := by
  rw [check] at ok
  obtain ⟨done, -⟩ := Checked.next_ok ok
  obtain ⟨holds, same⟩ := Checked.next_ok done
  rw [same] at done
  exact ⟨holds, done⟩

theorem ok_forLoop {first : Statement} {test : Expr} {step body : Statement} {line : Nat}
    (ok : (check c (.forLoop first test step body line) s).result = .ok ()) :
    let f := check c first (s.openScope [])
    f.result = .ok () ∧ (visitCondition c test f.state).2.2 = .ok () ∧
      (check c step (visitCondition c test f.state).2.1).result = .ok () := by
  cases begins : (check c first (s.openScope [])).result with
  | error e =>
    rw [result_check_forLoop begins] at ok
    cases ok
  | ok u =>
    rw [check_forLoop begins] at ok
    obtain ⟨done, -⟩ := Checked.next_ok ok
    obtain ⟨holds, same⟩ := Checked.next_ok done
    rw [same] at done
    exact ⟨begins, holds, done⟩

theorem check_forLoop_ok {first : Statement} {test : Expr} {step body : Statement} {line : Nat}
    (begins : (check c first (s.openScope [])).result = .ok ())
    (holds : (visitCondition c test (check c first (s.openScope [])).state).2.2 = .ok ())
    (done : (check c step
      (visitCondition c test (check c first (s.openScope [])).state).2.1).result = .ok ()) :
    check c (.forLoop first test step body line) s =
      let f := check c first (s.openScope [])
      let v := visitCondition c test f.state
      let n := check c step v.2.1
      let b := Checked.inScope (check c body) n.state
      ⟨.forLoop f.statement v.1 n.statement b.statement line, b.state.closeScope, b.result⟩ := by
  rw [check_forLoop begins]
  simp only [Checked.next, holds, done]

/-- A statement declares what it declared before it was checked. -/
theorem declared?_check (statement : Statement)
    (ok : (check c statement s).result = .ok ()) :
    (check c statement s).statement.declared? = statement.declared? := by
  cases statement with
  | assign declares target written value line =>
    obtain ⟨target', same, declared, -⟩ := statement_checkAssign ok
    rw [check, same]
    cases declares with
    | false => rfl
    | true =>
      obtain ⟨name, type, type', place, place', rfl, rfl⟩ := declared rfl
      rfl
  | ret value line =>
    rw [check, statement_checkReturn]
    rfl
  | call callee arguments target injected line =>
    obtain ⟨callee', arguments', target', injected', -, same⟩ :=
      statement_checkCall (c := c) (s := s) callee arguments target injected line
    rw [check, same]
    rfl
  | _ =>
    rw [check]
    rfl

theorem sitesBehind_check {statement : Statement} (ok : (check c statement s).result = .ok ())
    (place : Place) (sites : Sites) :
    (check c statement s).statement.sitesBehind place sites = statement.sitesBehind place sites := by
  unfold Statement.sitesBehind
  rw [declared?_check statement ok]

/-- Walking over the statement, the checker visits at `π`, with the labels `τ`, what the expression
    `e` stems from. -/
def Stems (c : Context) (π : Place) (e : Expr) (τ : Sites) (statement : Statement) (place : Place)
    (s : State) (σ : Sites) : Prop :=
  ∃ raw t, Visits c π raw t τ statement place s σ ∧ (visit c raw t).expr = e

def StemsAll (c : Context) (π : Place) (e : Expr) (τ : Sites) (statements : List Statement)
    (place : Place) (number : Nat) (s : State) (σ : Sites) : Prop :=
  ∃ raw t, VisitsAll c π raw t τ statements place number s σ ∧ (visit c raw t).expr = e

section Stems

variable {m : Machine.Context} {π : Place} {e : Expr} {w : Machine.State} {τ : Sites}
  {callable : FunctionId → Prop}

/-- Wherever control comes to in what was made of the statement when it was accepted, the checker has
    been. -/
def Retraced (c : Context) (callable : FunctionId → Prop) (m : Machine.Context) (π : Place) (e : Expr)
    (w : Machine.State) (τ : Sites) (statement : Statement) : Prop :=
  ∀ s, c.current ∈ s.checked → (check c statement s).result = .ok () →
    (check c statement s).state.Clean →
    ∀ names, (check c statement s).statement.Scoped callable names →
    ∀ types place u σ, Machine.Comes m π e w τ (check c statement s).statement place u σ →
      Stems c π e (τ ++ types) statement place s (σ ++ types)

namespace Retraced

theorem assign {declares : Bool} {target : Expr} {written : Option TypeId} {value : Expr}
    {line : Nat} : Retraced c callable m π e w τ (.assign declares target written value line) := by
  intro s current ok clean names sees types place u σ h
  rw [check] at ok
  obtain ⟨target', same, -, stored⟩ := statement_checkAssign ok
  rw [check, same] at h
  cases h with
  | value => exact ⟨value, s, .value _ _ _ _, rfl⟩
  | target _ _ _ _ v done =>
    obtain ⟨⟨type, found⟩, same⟩ := stored rfl
    exact ⟨target, _, .target _ _ _ _ type found rfl, same.symm⟩

theorem ifThen (hc : c.Keeping) {test : Expr} {body : Statement} {line : Nat}
    (inside : Retraced c callable m π e w τ body) :
    Retraced c callable m π e w τ (.ifThen test body line) := by
  intro s current ok clean names sees types place u σ h
  have holds : (visitCondition c test s).2.2 = .ok () := by
    rw [check] at ok
    exact (Checked.next_ok ok).1
  rw [check_ifThen holds] at h ok clean sees
  have visited := (later_visitCondition hc (· = c.current) test s).mem current
  cases h with
  | ifThenTest => exact ⟨test, s, .ifThenTest _ _, rfl⟩
  | ifThenBody _ _ _ _ _ _ _ _ comes =>
    obtain ⟨raw, t, visits, same⟩ :=
      inside (.openScope _ []) visited ok clean _ sees.2 types _ _ _ comes
    exact ⟨raw, t, .ifThenBody _ _ _ _ _ _ holds visits, same⟩

theorem ifElse (hc : c.Keeping) {test : Expr} {body otherwise : Statement} {line : Nat}
    (inside : Retraced c callable m π e w τ body)
    (behind : Retraced c callable m π e w τ otherwise) :
    Retraced c callable m π e w τ (.ifElse test body otherwise line) := by
  intro s current ok clean names sees types place u σ h
  obtain ⟨holds, done⟩ := ok_ifElse ok
  rw [check_ifElse holds done] at h ok clean sees
  have visited := (later_visitCondition hc (· = c.current) test s).mem current
  have entered := (later_inScope (later_check hc body
    (s := (visitCondition c test s).2.1.openScope []) visited)).mem visited
  cases h with
  | ifElseTest => exact ⟨test, s, .ifElseTest _ _ _, rfl⟩
  | ifElseBody _ _ _ _ _ _ _ _ _ comes =>
    have clean' := (later_inScope (later_check hc otherwise
      (s := (Checked.inScope (check c body) (visitCondition c test s).2.1).state.openScope [])
      entered)).clean clean
    obtain ⟨raw, t, visits, same⟩ :=
      inside (.openScope _ []) visited done clean' _ sees.2.1 types _ _ _ comes
    exact ⟨raw, t, .ifElseBody _ _ _ _ _ _ _ holds visits, same⟩
  | ifElseOtherwise _ _ _ _ _ _ _ _ _ comes =>
    obtain ⟨raw, t, visits, same⟩ :=
      behind (State.openScope (Checked.inScope _ _).state []) entered ok clean _ sees.2.2 types _ _ _
        comes
    exact ⟨raw, t, .ifElseOtherwise _ _ _ _ _ _ _ holds done visits, same⟩

theorem whileLoop (hc : c.Keeping) {test : Expr} {body : Statement} {line : Nat}
    (inside : Retraced c callable m π e w τ body) :
    Retraced c callable m π e w τ (.whileLoop test body line) := by
  intro s current ok clean names sees types place u σ h
  have holds : (visitCondition c test s).2.2 = .ok () := by
    rw [check] at ok
    exact (Checked.next_ok ok).1
  rw [check_whileLoop holds] at h ok clean sees
  have visited := (later_visitCondition hc (· = c.current) test s).mem current
  cases h with
  | whileTest => exact ⟨test, s, .whileTest _ _, rfl⟩
  | whileBody _ _ _ _ _ _ _ _ _ _ comes =>
    obtain ⟨raw, t, visits, same⟩ :=
      inside (.openScope _ []) visited ok clean _ sees.2 types _ _ _ comes
    exact ⟨raw, t, .whileBody _ _ _ _ _ _ holds visits, same⟩

/-- In all rounds control has the labels of the one walk of the checker, as a step declares nothing. -/
theorem forLoop (hc : c.Keeping) {first : Statement} {test : Expr} {step body : Statement}
    {line : Nat} (begins : Retraced c callable m π e w τ first)
    (steps : Retraced c callable m π e w τ step) (inside : Retraced c callable m π e w τ body) :
    Retraced c callable m π e w τ (.forLoop first test step body line) := by
  intro s current ok clean names sees types place u σ h
  obtain ⟨begun, holds, done⟩ := ok_forLoop ok
  rw [check_forLoop_ok begun holds done] at h ok clean sees
  have laterf := later_check hc first (s := s.openScope []) current
  have enteredf := laterf.mem current
  have laterv := later_visitCondition hc (· = c.current) test (check c first (s.openScope [])).state
  have latern := later_check hc step (laterv.mem enteredf)
  have enteredn := latern.mem (laterv.mem enteredf)
  have laterb := later_inScope (later_check hc body
    (s := (check c step
      (visitCondition c test (check c first (s.openScope [])).state).2.1).state.openScope [])
    enteredn)
  have cleann := laterb.clean clean
  have cleanf := laterv.clean (latern.clean cleann)
  obtain ⟨seesFirst, tested, ⟨seesStep, undeclared⟩, seesBody⟩ := sees
  cases h with
  | forFirst _ _ _ _ _ _ _ _ comes =>
    obtain ⟨raw, t, visits, same⟩ :=
      begins (.openScope _ []) current begun cleanf _ seesFirst types _ _ _ comes
    exact ⟨raw, t, .forFirst _ _ _ _ _ _ _ _ visits, same⟩
  | forTest _ _ _ _ _ _ _ _ _ _ visible =>
    rw [sitesBehind_check begun] at visible
    refine ⟨test, _, .forTest _ _ _ _ _ _ begun rfl ?_, rfl⟩
    rw [visible, Statement.sitesBehind_append]
  | forBody _ _ _ _ _ _ _ _ _ _ _ _ _ _ comes =>
    obtain ⟨raw, t, visits, same⟩ :=
      inside (.openScope _ []) enteredn ok clean _ seesBody types _ _ _ comes
    rw [sitesBehind_check begun, ← Statement.sitesBehind_append] at visits
    have silent : step.declared? = none := by rw [← declared?_check step done, undeclared]
    refine ⟨raw, t, .forBody _ _ _ _ _ _ _ _ _ begun rfl holds done ?_, same⟩
    rw [Statement.sitesBehind, silent]
    exact visits
  | forStep _ _ _ _ _ _ _ _ _ _ _ _ _ _ _ _ _ comes =>
    obtain ⟨raw, t, visits, same⟩ :=
      steps _ (laterv.mem enteredf) done cleann _ seesStep types _ _ _ comes
    rw [sitesBehind_check begun, ← Statement.sitesBehind_append] at visits
    exact ⟨raw, t, .forStep _ _ _ _ _ _ _ _ _ begun rfl holds visits, same⟩

end Retraced

mutual

theorem retraced (hc : c.Keeping) (statement : Statement) :
    Retraced c callable m π e w τ statement := by
  cases statement with
  | block statements line =>
    intro s current ok clean names sees types place u σ h
    rw [check] at h sees
    cases h with
    | block _ _ _ _ _ inside =>
      obtain ⟨raw, t, visits, same⟩ := stemsAll_of_comesAll hc (s := s.openScope []) current clean
        sees types inside
      exact ⟨raw, t, .block _ _ _ _ _ visits, same⟩
  | assign declares target written value line => exact .assign
  | ret value line =>
    intro s current ok clean names sees types place u σ h
    rw [check, statement_checkReturn] at h
    cases h with
    | ret => exact ⟨value, s, .ret _, rfl⟩
  | ifThen test body line => exact .ifThen hc (retraced hc body)
  | ifElse test body otherwise line => exact .ifElse hc (retraced hc body) (retraced hc otherwise)
  | whileLoop test body line => exact .whileLoop hc (retraced hc body)
  | forLoop first test step body line =>
    exact .forLoop hc (retraced hc first) (retraced hc step) (retraced hc body)
  | call callee arguments target injected line =>
    intro s current ok clean names sees types place u σ h
    obtain ⟨callee', arguments', target', injected', same, same'⟩ :=
      statement_checkCall (c := c) (s := s) callee arguments target injected line
    rw [check, same'] at h
    cases h with
    | call _ _ _ _ _ found =>
      exact ⟨_, s, .call _ _ _ _ _ rfl, same.trans found.symm⟩
termination_by structural statement

theorem stemsAll_of_comesAll (hc : c.Keeping) {statements : List Statement} {s : State}
    (current : c.current ∈ s.checked) (clean : (checkAll c statements s).2.Clean)
    {names : List String} (sees : Statement.AllScoped callable names (checkAll c statements s).1)
    (types : Sites) {place : Place} {number : Nat} {u : Machine.State} {σ : Sites}
    (h : Machine.ComesAll m π e w τ (checkAll c statements s).1 place number u σ) :
    StemsAll c π e (τ ++ types) statements place number s (σ ++ types) := by
  cases statements with
  | nil => cases h
  | cons statement rest =>
    obtain ⟨ok, clean'⟩ := ok_of_clean hc current clean
    rw [checkAll_cons rest ok] at h clean sees
    cases h with
    | head _ _ _ _ _ _ goes inside =>
      obtain ⟨raw, t, visits, same⟩ :=
        retraced hc statement _ current ok clean' _ sees.1 types _ _ _ inside
      exact ⟨raw, t, .head _ _ _ _ _ _ visits, same⟩
    | tail _ _ _ _ _ _ _ goes done inside =>
      have entered := (later_check hc statement current).mem current
      obtain ⟨raw, t, visits, same⟩ := stemsAll_of_comesAll hc entered clean sees.2 types inside
      rw [sitesBehind_check ok, ← Statement.sitesBehind_append] at visits
      exact ⟨raw, t, .tail _ _ _ _ _ _ ok visits, same⟩
termination_by structural statements

end

end Stems

end Typing
end ObjectLang
