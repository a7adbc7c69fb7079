import ObjectLang.Proofs.Scoping.Control
set_option autoImplicit false

/-!
# Where the checker comes to

The checker walks over a body once. Its scopes are followed to the expressions that it visits, with
the same labels as the frame of the interpreter. When a body is accepted, every expression to which
control can come in it stems from one that the checker has visited at the same place, with the same
labels above the types that the module can see.
-/

namespace ObjectLang.Typing

mutual

/-- Checking a statement at `place`, in `s` with the labels `σ`, comes to visit the expression `e`
    of the statement at `π`, in the state `t` with the labels `τ`. -/
inductive Visits (c : Context) (π : Place) (e : Expr) (t : State) (τ : Sites) :
    Statement → Place → State → Sites → Prop
  | block (statements : List Statement) (line : Nat) (place : Place) (s : State) (σ : Sites)
    (inside : VisitsAll c π e t τ statements place 0 (s.openScope []) σ) :
    Visits c π e t τ (.block statements line) place s σ
  | value (declares : Bool) (target : Expr) (written : Option TypeId) (line : Nat) :
    Visits c π e t τ (.assign declares target written e line) π t τ
  | target (written : Option TypeId) (value : Expr) (line : Nat) (s : State) (type : TypeId)
    (done : (visit c value s).result = .ok type) (behind : t = (visit c value s).state) :
    Visits c π e t τ (.assign false e written value line) π s τ
  | ret (line : Nat) : Visits c π e t τ (.ret e line) π t τ
  | ifThenTest (body : Statement) (line : Nat) : Visits c π e t τ (.ifThen e body line) π t τ
  | ifThenBody (test : Expr) (body : Statement) (line : Nat) (place : Place) (s : State)
    (σ : Sites) (holds : (visitCondition c test s).2.2 = .ok ())
    (inside : Visits c π e t τ body (place ++ [0])
      ((visitCondition c test s).2.1.openScope []) σ) :
    Visits c π e t τ (.ifThen test body line) place s σ
  | ifElseTest (body otherwise : Statement) (line : Nat) :
    Visits c π e t τ (.ifElse e body otherwise line) π t τ
  | ifElseBody (test : Expr) (body otherwise : Statement) (line : Nat) (place : Place)
    (s : State) (σ : Sites) (holds : (visitCondition c test s).2.2 = .ok ())
    (inside : Visits c π e t τ body (place ++ [0])
      ((visitCondition c test s).2.1.openScope []) σ) :
    Visits c π e t τ (.ifElse test body otherwise line) place s σ
  | ifElseOtherwise (test : Expr) (body otherwise : Statement) (line : Nat) (place : Place)
    (s : State) (σ : Sites) (holds : (visitCondition c test s).2.2 = .ok ())
    (done : (Checked.inScope (check c body) (visitCondition c test s).2.1).result = .ok ())
    (inside : Visits c π e t τ otherwise (place ++ [1])
      ((Checked.inScope (check c body) (visitCondition c test s).2.1).state.openScope []) σ) :
    Visits c π e t τ (.ifElse test body otherwise line) place s σ
  | whileTest (body : Statement) (line : Nat) : Visits c π e t τ (.whileLoop e body line) π t τ
  | whileBody (test : Expr) (body : Statement) (line : Nat) (place : Place) (s : State)
    (σ : Sites) (holds : (visitCondition c test s).2.2 = .ok ())
    (inside : Visits c π e t τ body (place ++ [0])
      ((visitCondition c test s).2.1.openScope []) σ) :
    Visits c π e t τ (.whileLoop test body line) place s σ
  | forFirst (first : Statement) (test : Expr) (step body : Statement) (line : Nat)
    (place : Place) (s : State) (σ : Sites)
    (inside : Visits c π e t τ first (place ++ [0]) (s.openScope []) σ) :
    Visits c π e t τ (.forLoop first test step body line) place s σ
  | forTest (first step body : Statement) (line : Nat) (s : State) (σ : Sites)
    (begins : (check c first (s.openScope [])).result = .ok ())
    (behind : t = (check c first (s.openScope [])).state)
    (visible : τ = first.sitesBehind (π ++ [0]) σ) :
    Visits c π e t τ (.forLoop first e step body line) π s σ
  | forStep (first : Statement) (test : Expr) (step body : Statement) (line : Nat)
    (place : Place) (s u : State) (σ : Sites)
    (begins : (check c first (s.openScope [])).result = .ok ())
    (behind : u = (check c first (s.openScope [])).state)
    (holds : (visitCondition c test u).2.2 = .ok ())
    (inside : Visits c π e t τ step (place ++ [1]) (visitCondition c test u).2.1
      (first.sitesBehind (place ++ [0]) σ)) :
    Visits c π e t τ (.forLoop first test step body line) place s σ
  | forBody (first : Statement) (test : Expr) (step body : Statement) (line : Nat)
    (place : Place) (s u : State) (σ : Sites)
    (begins : (check c first (s.openScope [])).result = .ok ())
    (behind : u = (check c first (s.openScope [])).state)
    (holds : (visitCondition c test u).2.2 = .ok ())
    (done : (check c step (visitCondition c test u).2.1).result = .ok ())
    (inside : Visits c π e t τ body (place ++ [2])
      ((check c step (visitCondition c test u).2.1).state.openScope [])
      (step.sitesBehind (place ++ [1]) (first.sitesBehind (place ++ [0]) σ))) :
    Visits c π e t τ (.forLoop first test step body line) place s σ
  | call (callee : Expr) (arguments : List Expr) (target : Option FunctionId) (injected : Bool)
    (line : Nat) (same : e = .call callee arguments target injected line) :
    Visits c π e t τ (.call callee arguments target injected line) π t τ

inductive VisitsAll (c : Context) (π : Place) (e : Expr) (t : State) (τ : Sites) :
    List Statement → Place → Nat → State → Sites → Prop
  | head (statement : Statement) (rest : List Statement) (place : Place) (number : Nat)
    (s : State) (σ : Sites)
    (inside : Visits c π e t τ statement (place ++ [number]) s σ) :
    VisitsAll c π e t τ (statement :: rest) place number s σ
  | tail (statement : Statement) (rest : List Statement) (place : Place) (number : Nat)
    (s : State) (σ : Sites) (done : (check c statement s).result = .ok ())
    (inside : VisitsAll c π e t τ rest place (number + 1) (check c statement s).state
      (statement.sitesBehind (place ++ [number]) σ)) :
    VisitsAll c π e t τ (statement :: rest) place number s σ

end

section Scopes

variable {c : Context} {s : State}

theorem closeSegment_openScope (s : State) : (s.openScope []).scopes.closeSegment = s.scopes :=
  s.scopes.closeSegment_openSegment []

def Moves (statement : Statement) (s : State) (v : Checked) : Prop :=
  match v.result with
  | .ok () => statement.Leaves s.scopes v.state.scopes
  | .error _ => s.scopes.Alike v.state.scopes

theorem Moves.of_alike {statement : Statement} {v : Checked}
    (undeclared : statement.declared? = none) (h : s.scopes.Alike v.state.scopes) :
    Moves statement s v := by
  unfold Moves
  split
  · exact Statement.Leaves.of_none undeclared h
  · exact h

theorem Moves.alike {statement : Statement} {v : Checked} (h : Moves statement s v)
    (undeclared : statement.declared? = none) : s.scopes.Alike v.state.scopes := by
  unfold Moves at h
  split at h
  · exact h.alike undeclared
  · exact h

theorem Moves.leaves {statement : Statement} {v : Checked} (h : Moves statement s v)
    (ok : v.result = .ok ()) : statement.Leaves s.scopes v.state.scopes := by
  rw [Moves, ok] at h
  exact h

theorem Moves.closeSegment {statement : Statement} {v : Checked} (h : Moves statement s v) :
    s.scopes.closeSegment.Alike v.state.scopes.closeSegment := by
  unfold Moves at h
  split at h
  · exact h.closeSegment
  · exact h.closeSegment

theorem alike_visit (hc : c.Keeping) (e : Expr) (s : State) :
    s.scopes.Alike (visit c e s).state.scopes :=
  (keeps_visit hc e s).scopes.symm ▸ Scopes.Alike.refl _

theorem moves_assign (hc : c.Keeping) (declares : Bool) (target : Expr)
    (written : Option TypeId) (value : Expr) (line : Nat) (s : State) :
    Moves (.assign declares target written value line) s
      (checkAssign c declares target written value line s) := by
  have visited := alike_visit hc value s
  unfold checkAssign
  dsimp only
  split
  · exact visited
  · cases declares with
    | false =>
      exact .of_alike rfl (visited.trans (alike_visit hc target _))
    | true =>
      rw [if_pos rfl]
      split
      · exact visited
      · rename_i type _ target' t declared
        unfold declare at declared
        split at declared
        · obtain ⟨⟨⟩, -, declared⟩ := bind_eq_ok.1 declared
          obtain ⟨⟨⟩, -, declared⟩ := bind_eq_ok.1 declared
          obtain ⟨found, -, declared⟩ := bind_eq_ok.1 declared
          cases declared
          refine ⟨.value found, ?_⟩
          dsimp only
          rw [(keeps_visit hc value s).scopes]
          exact .refl _
        · cases declared

theorem alike_ret (hc : c.Keeping) (value : Expr) (line : Nat) (s : State) :
    s.scopes.Alike (checkReturn c value line s).state.scopes :=
  (scopes_checkReturn hc value line).symm ▸ Scopes.Alike.refl _

theorem alike_call (hc : c.Keeping) (callee : Expr) (arguments : List Expr)
    (target : Option FunctionId) (injected : Bool) (line : Nat) (s : State) :
    s.scopes.Alike (checkCall c callee arguments target injected line s).state.scopes := by
  have visited := alike_visit hc (.call callee arguments target injected line) s
  unfold checkCall
  dsimp only
  split <;> exact visited

theorem alike_inScope {check : State → Checked}
    (h : (s.openScope []).scopes.closeSegment.Alike
      (check (s.openScope [])).state.scopes.closeSegment) :
    s.scopes.Alike (Checked.inScope check s).state.scopes := by
  rw [closeSegment_openScope] at h
  exact h

theorem next_keeps (P : Scopes Meaning → Prop) {v : Checked} (statement : Statement)
    {check : State → Checked} (h : P v.state.scopes)
    (hcheck : P v.state.scopes → P (check v.state).state.scopes) :
    P (v.next statement check).state.scopes := by
  unfold Checked.next
  split
  · exact hcheck h
  · exact h

mutual

theorem check_moves (hc : c.Keeping) (statement : Statement) (s : State) :
    Moves statement s (check c statement s) := by
  cases statement with
  | block statements line =>
    refine .of_alike rfl ?_
    have inside := checkAll_closes hc statements (s.openScope [])
    rw [closeSegment_openScope] at inside
    exact inside
  | assign declares target written value line => exact moves_assign hc _ _ _ _ _ s
  | ret value line => exact .of_alike rfl (alike_ret hc value line s)
  | ifThen test body line =>
    refine .of_alike rfl (next_keeps s.scopes.Alike body (alike_visit hc test s) fun h => ?_)
    exact h.trans (alike_inScope (check_moves hc body _).closeSegment)
  | ifElse test body otherwise line =>
    refine .of_alike rfl (next_keeps s.scopes.Alike otherwise
      (next_keeps s.scopes.Alike body (alike_visit hc test s) fun h => ?_) fun h => ?_)
    · exact h.trans (alike_inScope (check_moves hc body _).closeSegment)
    · exact h.trans (alike_inScope (check_moves hc otherwise _).closeSegment)
  | whileLoop test body line =>
    refine .of_alike rfl (next_keeps s.scopes.Alike body (alike_visit hc test s) fun h => ?_)
    exact h.trans (alike_inScope (check_moves hc body _).closeSegment)
  | forLoop first test step body line =>
    let P (τ : Scopes Meaning) : Prop := s.scopes.Alike τ.closeSegment
    have begins := (check_moves hc first (s.openScope [])).closeSegment
    rw [closeSegment_openScope] at begins
    rw [check]
    refine .of_alike rfl (next_keeps P body (next_keeps P step ?_ fun h => ?_) fun h => ?_)
    · split
      · exact begins.trans (alike_visit hc test _).closeSegment
      · exact begins
    · exact h.trans (check_moves hc step _).closeSegment
    · exact h.trans (alike_inScope (check_moves hc body _).closeSegment).closeSegment
  | call callee arguments target injected line =>
    exact .of_alike rfl (alike_call hc _ _ _ _ _ s)
termination_by structural statement

theorem checkAll_closes (hc : c.Keeping) (statements : List Statement) (s : State) :
    s.scopes.closeSegment.Alike (checkAll c statements s).2.scopes.closeSegment := by
  cases statements with
  | nil => exact .refl _
  | cons statement rest =>
    have moves := (check_moves hc statement s).closeSegment
    unfold checkAll
    dsimp only
    split
    · exact moves.trans (checkAll_closes hc rest _)
    · rename_i e _
      exact moves.trans (checkAll_closes hc rest ((check c statement s).state.record _ e))
termination_by structural statements

end

/-- The labels are those of the names in the scopes. -/
def Aligned (s : State) (sites : Sites) : Prop :=
  s.scopes.bindings.map Prod.fst = sites.names

theorem Aligned.of_alike {t : State} {sites : Sites} (h : Aligned s sites)
    (alike : s.scopes.Alike t.scopes) : Aligned t sites := alike.names.trans h

theorem Aligned.openScope {sites : Sites} (h : Aligned s sites) : Aligned (s.openScope []) sites := h

theorem Aligned.behind {σ : Sites} {statement : Statement} (h : Aligned s σ) {v : Checked}
    (moves : Moves statement s v) (ok : v.result = .ok ()) (place : Place) :
    Aligned v.state (statement.sitesBehind place σ) := by
  rw [Aligned, Statement.names_sitesBehind, ← show _ = σ.names from h]
  exact (moves.leaves ok).names_eq

variable {π : Place} {e : Expr} {t : State} {τ : Sites}

mutual

/-- Where the checker comes to, the labels are those of the names in its scopes. -/
theorem Visits.aligned (hc : c.Keeping) {statement : Statement} {place : Place} {s : State}
    {σ : Sites} (h : Visits c π e t τ statement place s σ) (bound : Aligned s σ) :
    Aligned t τ := by
  cases h with
  | block statements line _ _ _ inside => exact inside.aligned hc bound
  | value | ret | ifThenTest | ifElseTest | whileTest | call => exact bound
  | target written value line _ type done behind =>
    subst behind
    exact bound.of_alike (alike_visit hc value s)
  | ifThenBody test body line _ _ _ holds inside =>
    exact inside.aligned hc (bound.of_alike (alike_visit hc test s)).openScope
  | ifElseBody test body otherwise line _ _ _ holds inside =>
    exact inside.aligned hc (bound.of_alike (alike_visit hc test s)).openScope
  | ifElseOtherwise test body otherwise line _ _ _ holds done inside =>
    have visited := bound.of_alike (t := (visitCondition c test s).2.1) (alike_visit hc test s)
    exact inside.aligned hc
      (visited.of_alike (alike_inScope (check_moves hc body _).closeSegment)).openScope
  | whileBody test body line _ _ _ holds inside =>
    exact inside.aligned hc (bound.of_alike (alike_visit hc test s)).openScope
  | forFirst first test step body line _ _ _ inside => exact inside.aligned hc bound
  | forTest first step body line _ _ begins behind visible =>
    subst behind visible
    exact bound.openScope.behind (check_moves hc first _) begins _
  | forStep first test step body line place _ u _ begins behind holds inside =>
    subst behind
    have behind := bound.openScope.behind (check_moves hc first _) begins (place ++ [0])
    exact inside.aligned hc (behind.of_alike (alike_visit hc test _))
  | forBody first test step body line place _ u _ begins behind holds done inside =>
    subst behind
    have behind := bound.openScope.behind (check_moves hc first _) begins (place ++ [0])
    have visited := behind.of_alike (t := (visitCondition c test _).2.1) (alike_visit hc test _)
    exact inside.aligned hc
      (visited.behind (check_moves hc step _) done (place ++ [1])).openScope
termination_by structural statement

theorem VisitsAll.aligned (hc : c.Keeping) {statements : List Statement} {place : Place}
    {number : Nat} {s : State} {σ : Sites} (h : VisitsAll c π e t τ statements place number s σ)
    (bound : Aligned s σ) : Aligned t τ := by
  cases h with
  | head statement rest _ _ _ _ inside => exact inside.aligned hc bound
  | tail statement rest place number _ _ done inside =>
    exact inside.aligned hc (bound.behind (check_moves hc statement s) done _)
termination_by structural statements

end

end Scopes

end ObjectLang.Typing
