import ObjectLang.Machine.Eval
import ObjectLang.Typing.Statement
set_option autoImplicit false

/-!
# Trees without notes

What the checker notes on a tree is of no use to a run, apart from the targets of calls. In a tree
without calls there is nothing else for the checker to change, so for a run that is still the tree
that was read.
-/

namespace ObjectLang

mutual

/-- The expression without the types that are noted on it. -/
def Expr.bare (e : Expr) : Expr :=
  match e with
  | .binary op lhs rhs line => .binary op lhs.bare rhs.bare line
  | .literal value line => .literal value line
  | .var name _ line => .var name none line
  | .field base name _ line => .field base.bare name none line
  | .new type line => .new type line
  | .allocate element size line => .allocate element size.bare line
  | .array element items line => .array element (Expr.bareAll items) line
  | .index base place line => .index base.bare place.bare line
  | .reference expr line => .reference expr.bare line
  | .cast expr type line => .cast expr.bare type line
  | .call callee arguments target injected line =>
    .call callee.bare (Expr.bareAll arguments) target injected line
termination_by structural e

def Expr.bareAll (es : List Expr) : List Expr :=
  match es with
  | [] => []
  | e :: rest => e.bare :: Expr.bareAll rest
termination_by structural es

end

mutual

def Statement.bare (statement : Statement) : Statement :=
  match statement with
  | .block statements line => .block (Statement.bareAll statements) line
  | .assign declares target written value line =>
    .assign declares target.bare written value.bare line
  | .ret value line => .ret value.bare line
  | .ifThen condition body line => .ifThen condition.bare body.bare line
  | .ifElse condition body otherwise line => .ifElse condition.bare body.bare otherwise.bare line
  | .whileLoop condition body line => .whileLoop condition.bare body.bare line
  | .forLoop first condition step body line =>
    .forLoop first.bare condition.bare step.bare body.bare line
  | .call callee arguments target injected line =>
    .call callee.bare (Expr.bareAll arguments) target injected line
termination_by structural statement

def Statement.bareAll (statements : List Statement) : List Statement :=
  match statements with
  | [] => []
  | statement :: rest => statement.bare :: Statement.bareAll rest
termination_by structural statements

end

namespace Machine

variable {c : Context}

theorem calledName_bare (e : Expr) : e.bare.calledName = e.calledName := by
  cases e <;> rfl

mutual

theorem eval_bare (e : Expr) : eval c e.bare = eval c e := by
  cases e with
  | binary op lhs rhs line => simp only [Expr.bare, eval, eval_bare lhs, eval_bare rhs]
  | literal value line => rfl
  | var name type line => rfl
  | field base name type line => simp only [Expr.bare, eval, eval_bare base]
  | new type line => rfl
  | allocate element size line => simp only [Expr.bare, eval, eval_bare size]
  | array element items line => simp only [Expr.bare, eval, evalAll_bare items]
  | index base place line => simp only [Expr.bare, eval, eval_bare base, eval_bare place]
  | reference expr line => simp only [Expr.bare, eval, eval_bare expr]
  | cast expr type line => simp only [Expr.bare, eval, eval_bare expr]
  | call callee arguments target injected line =>
    cases target with
    | none => simp only [Expr.bare, eval, calledName_bare]
    | some target => simp only [Expr.bare, eval, evalAll_bare arguments]
termination_by structural e

theorem evalAll_bare (es : List Expr) : evalAll c (Expr.bareAll es) = evalAll c es := by
  cases es with
  | nil => rfl
  | cons e rest => simp only [Expr.bareAll, evalAll, eval_bare e, evalAll_bare rest]
termination_by structural es

end

theorem store_bare (target : Expr) (value : Value) (line : Nat) :
    store c target.bare value line = store c target value line := by
  cases target with
  | field base name type => simp only [Expr.bare, store, eval_bare base]
  | index base place => simp only [Expr.bare, store, eval_bare base, eval_bare place]
  | var | literal | binary | new | allocate | array | reference | cast | call => rfl

theorem assign_bare (declares : Bool) (target value : Expr) (line : Nat) :
    assign c declares target.bare value.bare line = assign c declares target value line := by
  unfold assign
  rw [eval_bare]
  congr 1
  funext v
  cases declares with
  | false => exact store_bare target v line
  | true =>
    cases target with
    | var => rfl
    | field | index | literal | binary | new | allocate | array | reference | cast | call =>
      exact store_bare _ v line

theorem condition_bare (e : Expr) (line : Nat) : condition c e.bare line = condition c e line := by
  unfold condition
  rw [eval_bare]

theorem goesOn_bare (e : Expr) (line : Nat) : goesOn c e.bare line = goesOn c e line := by
  unfold goesOn
  rw [condition_bare]

mutual

theorem exec_bare (statement : Statement) : exec c statement.bare = exec c statement := by
  cases statement with
  | block statements line => simp only [Statement.bare, exec, execAll_bare statements]
  | assign declares target written value line => simp only [Statement.bare, exec, assign_bare]
  | ret value line => simp only [Statement.bare, exec, eval_bare]
  | ifThen test body line => simp only [Statement.bare, exec, condition_bare, exec_bare body]
  | ifElse test body otherwise line =>
    simp only [Statement.bare, exec, condition_bare, exec_bare body, exec_bare otherwise]
  | whileLoop test body line => simp only [Statement.bare, exec, goesOn_bare, exec_bare body]
  | forLoop first test step body line =>
    simp only [Statement.bare, exec, goesOn_bare, exec_bare first, exec_bare step, exec_bare body]
  | call callee arguments target injected line =>
    simp only [Statement.bare, exec, evalAll_bare, calledName_bare]
termination_by structural statement

theorem execAll_bare (statements : List Statement) :
    execAll c (Statement.bareAll statements) = execAll c statements := by
  cases statements with
  | nil => rfl
  | cons statement rest =>
    simp only [Statement.bareAll, execAll, exec_bare statement, execAll_bare rest]
termination_by structural statements

end

end Machine

mutual

def Expr.callFree (e : Expr) : Bool :=
  match e with
  | .binary _ lhs rhs _ => lhs.callFree && rhs.callFree
  | .literal .. | .var .. | .new .. => true
  | .field base _ _ _ => base.callFree
  | .allocate _ size _ => size.callFree
  | .array _ items _ => Expr.allCallFree items
  | .index base place _ => base.callFree && place.callFree
  | .reference expr _ => expr.callFree
  | .cast expr _ _ => expr.callFree
  | .call .. => false
termination_by structural e

def Expr.allCallFree (es : List Expr) : Bool :=
  match es with
  | [] => true
  | e :: rest => e.callFree && Expr.allCallFree rest
termination_by structural es

end

mutual

theorem Expr.callFree_bare (e : Expr) : e.bare.callFree = e.callFree := by
  cases e with
  | binary op lhs rhs line =>
    simp only [Expr.bare, Expr.callFree, lhs.callFree_bare, rhs.callFree_bare]
  | literal | var | new | call => rfl
  | field base name type line => simp only [Expr.bare, Expr.callFree, base.callFree_bare]
  | allocate element size line => simp only [Expr.bare, Expr.callFree, size.callFree_bare]
  | array element items line => simp only [Expr.bare, Expr.callFree, allCallFree_bareAll items]
  | index base place line =>
    simp only [Expr.bare, Expr.callFree, base.callFree_bare, place.callFree_bare]
  | reference expr line => simp only [Expr.bare, Expr.callFree, expr.callFree_bare]
  | cast expr type line => simp only [Expr.bare, Expr.callFree, expr.callFree_bare]
termination_by structural e

theorem Expr.allCallFree_bareAll (es : List Expr) :
    Expr.allCallFree (Expr.bareAll es) = Expr.allCallFree es := by
  cases es with
  | nil => rfl
  | cons e rest =>
    simp only [Expr.bareAll, Expr.allCallFree, e.callFree_bare, allCallFree_bareAll rest]
termination_by structural es

end

namespace Typing

variable {c : Context}

theorem bare_next {n : Nat} {v : Visited n} {e : Expr} {visit : State → Visited e.weight}
    (h : ∀ s, (visit s).expr.bare = e.bare) : (v.next visit).expr.bare = e.bare := by
  unfold Visited.next
  split
  · exact h _
  · rfl

mutual

/-- A visit only notes types on a tree without calls. -/
theorem bare_visit (e : Expr) (s : State) (h : e.callFree = true) :
    (visit c e s).expr.bare = e.bare := by
  cases e with
  | binary op lhs rhs line =>
    obtain ⟨hl, hr⟩ := Bool.and_eq_true_iff.1 h
    have right := bare_next (v := visit c lhs s) fun t => bare_visit rhs t hr
    simp only [visit, Expr.bare, bare_visit lhs s hl, right]
  | literal value line => simp only [visit, Visited.leaf]
  | var name type line =>
    simp only [visit, visitVar]
    split <;> rfl
  | field base name type line => simp only [visit, fieldOf, Expr.bare, bare_visit base s h]
  | new type line => simp only [visit, Visited.leaf]
  | allocate element size line => simp only [visit, Expr.bare, bare_visit size s h]
  | array element items line => simp only [visit, Expr.bare, bare_visitAll _ items s h]
  | index base place line =>
    obtain ⟨hb, hp⟩ := Bool.and_eq_true_iff.1 h
    have inside := bare_next (v := (visit c base s).judge elementType) fun t => bare_visit place t hp
    have outside : ((visit c base s).judge elementType).expr.bare = base.bare := bare_visit base s hb
    simp only [visit, Expr.bare, outside, inside]
  | reference expr line =>
    rw [visit]
    split
    · simp only [Expr.bare, bare_visit expr s h]
    · rfl
  | cast expr type line => simp only [visit, Expr.bare, bare_visit expr s h]
  | call callee arguments target injected line => cases h
termination_by structural e

theorem bare_visitAll (accept : Program → TypeId → Except TypeError Unit) (es : List Expr)
    (s : State) (h : Expr.allCallFree es = true) :
    Expr.bareAll (visitAll c accept es s).exprs = Expr.bareAll es := by
  cases es with
  | nil => rw [visitAll]
  | cons e rest =>
    obtain ⟨he, hrest⟩ := Bool.and_eq_true_iff.1 h
    rw [visitAll]
    dsimp only
    split
    · simp only [Expr.bareAll, bare_visit e s he]
    · simp only [Expr.bareAll, bare_visit e s he, bare_visitAll accept rest _ hrest]
termination_by structural es

end

end Typing
end ObjectLang
