import ObjectLang.Proofs.Typing.Statement
set_option autoImplicit false

/-!
# Trees as they were read

The checker notes types on a tree, binds its calls and puts receivers in front of their arguments. All
that can be taken away again, and then the tree is the one that was read. So a receiver is put there
once, however often the arguments of a call are visited.
-/

namespace ObjectLang

mutual

/-- The expression without noted types, without targets and without injected receivers. -/
def Expr.erased (e : Expr) : Expr :=
  match e with
  | .binary op lhs rhs line => .binary op lhs.erased rhs.erased line
  | .literal value line => .literal value line
  | .var name _ line => .var name none line
  | .field base name _ line => .field base.erased name none line
  | .new type line => .new type line
  | .allocate element size line => .allocate element size.erased line
  | .array element items line => .array element (Expr.allErased items) line
  | .index base place line => .index base.erased place.erased line
  | .reference expr line => .reference expr.erased line
  | .cast expr type line => .cast expr.erased type line
  | .call callee arguments _ injected line =>
    .call callee.erased ((Expr.allErased arguments).drop (if injected then 1 else 0)) none false line
termination_by structural e

def Expr.allErased (es : List Expr) : List Expr :=
  match es with
  | [] => []
  | e :: rest => e.erased :: Expr.allErased rest
termination_by structural es

end

namespace Statement

mutual

def erased (statement : Statement) : Statement :=
  match statement with
  | .block statements line => .block (allErased statements) line
  | .assign declares target written value line =>
    .assign declares target.erased written value.erased line
  | .ret value line => .ret value.erased line
  | .ifThen condition body line => .ifThen condition.erased body.erased line
  | .ifElse condition body otherwise line =>
    .ifElse condition.erased body.erased otherwise.erased line
  | .whileLoop condition body line => .whileLoop condition.erased body.erased line
  | .forLoop first condition step body line =>
    .forLoop first.erased condition.erased step.erased body.erased line
  | .call callee arguments _ injected line =>
    .call callee.erased ((Expr.allErased arguments).drop (if injected then 1 else 0)) none false line
termination_by structural statement

def allErased (statements : List Statement) : List Statement :=
  match statements with
  | [] => []
  | statement :: rest => statement.erased :: allErased rest
termination_by structural statements

end

end Statement

namespace Typing

variable {c : Context}

def Resolved.Erases {n : Nat} (r : Resolved n) (callee : Expr) (arguments : List Expr)
    (injected : Bool) : Prop :=
  match r with
  | .bound _ callee' arguments' injected' _ _ => callee'.erased = callee.erased ∧
      (Expr.allErased arguments').drop (if injected' then 1 else 0) =
        (Expr.allErased arguments).drop (if injected then 1 else 0)
  | .failed _ callee' arguments' _ _ => callee'.erased = callee.erased ∧
      Expr.allErased arguments' = Expr.allErased arguments

theorem erases_bindMethod {n m : Nat} {base : Visited n} {e : Expr}
    (same : base.expr.erased = e.erased) (name : String) (noted : Option TypeId) (line : Nat)
    (arguments : List Expr) (injected : Bool) (le : Expr.weights arguments ≤ m) :
    (bindMethod base name noted line arguments injected le).Erases (.field e name noted line)
      arguments injected := by
  have callee : (Expr.field base.expr name noted line).erased =
      (Expr.field e name noted line).erased := by
    rw [Expr.erased, Expr.erased, same]
  unfold bindMethod
  dsimp only
  split
  · exact ⟨callee, rfl⟩
  · split
    · exact ⟨callee, rfl⟩
    · rename_i wanted
      obtain ⟨rfl, -⟩ := Bool.or_eq_false_iff.1 (Bool.eq_false_iff.2 wanted)
      exact ⟨callee, rfl⟩

theorem erased_next {n : Nat} {v : Visited n} {e : Expr} {visit : State → Visited e.weight}
    (h : ∀ s, (visit s).expr.erased = e.erased) : (v.next visit).expr.erased = e.erased := by
  unfold Visited.next
  split
  · exact h _
  · rfl

mutual

/-- A visit adds to a tree what can be erased from it. -/
theorem erased_visit (e : Expr) (s : State) : (visit c e s).expr.erased = e.erased := by
  match e with
  | .binary op lhs rhs line =>
    have left := erased_visit lhs s
    have right := erased_next (v := visit c lhs s) fun t => erased_visit rhs t
    rw [visit, Expr.erased, Expr.erased, left, right]
  | .literal value line =>
    rw [visit]
    rfl
  | .var name noted line =>
    rw [visit, visitVar]
    split <;> rfl
  | .field base name noted line =>
    have inside := erased_visit base s
    rw [visit, fieldOf, Expr.erased, Expr.erased, inside]
  | .new type line =>
    rw [visit]
    rfl
  | .allocate element size line =>
    have inside := erased_visit size s
    rw [visit, Expr.erased, Expr.erased, inside]
  | .array element items line =>
    have inside := erased_visitAll (checkItem element) items s
    rw [visit, Expr.erased, Expr.erased, inside]
  | .index base place line =>
    have outside : ((visit c base s).judge elementType).expr.erased = base.erased :=
      erased_visit base s
    have inside := erased_next (v := (visit c base s).judge elementType) fun t =>
      erased_visit place t
    rw [visit, Expr.erased, Expr.erased, outside, inside]
  | .reference expr line =>
    have inside := erased_visit expr s
    rw [visit]
    split
    · rw [Expr.erased, Expr.erased, inside]
    · rfl
  | .cast expr type line =>
    have inside := erased_visit expr s
    rw [visit, Expr.erased, Expr.erased, inside]
  | .call callee arguments (some target) injected line =>
    have inside := erased_visitAll (fun _ _ => .ok ()) arguments (c.checkTarget target s)
    rw [visit, Expr.erased, Expr.erased, inside]
  | .call callee arguments none injected line =>
    have resolves := erases_resolve callee arguments injected s
    rw [visit]
    split
    · rename_i failed
      rw [failed] at resolves
      rw [Expr.erased, Expr.erased, resolves.1, resolves.2]
    · rename_i target callee' bound injected' t le found
      rw [found] at resolves
      have inside := erased_visitAll (fun _ _ => .ok ()) bound (c.checkTarget target t)
      rw [Expr.erased, Expr.erased, inside, resolves.1, resolves.2]
termination_by 2 * e.weight
decreasing_by all_goals simp only [Expr.weight]; omega

theorem erased_visitAll (accept : Program → TypeId → Except TypeError Unit) (es : List Expr)
    (s : State) : Expr.allErased (visitAll c accept es s).exprs = Expr.allErased es := by
  match es with
  | [] => rw [visitAll]
  | e :: rest =>
    have _ := e.weight_pos
    have first := erased_visit e s
    rw [visitAll]
    dsimp only
    split
    · rw [Expr.allErased, Expr.allErased, first]
    · have others := erased_visitAll accept rest (visit c e s).state
      rw [Expr.allErased, Expr.allErased, first, others]
termination_by 2 * Expr.weights es + 1
decreasing_by all_goals simp only [Expr.weights]; omega

theorem erases_resolve (callee : Expr) (arguments : List Expr) (injected : Bool) (s : State) :
    (resolve c callee arguments injected s).Erases callee arguments injected := by
  match callee with
  | .var name noted line =>
    have inside := erased_visitAll (fun _ _ => .ok ()) arguments s
    rw [resolve]
    split
    · exact ⟨rfl, by rw [inside]⟩
    · exact ⟨rfl, inside⟩
  | .field base name noted line =>
    rw [resolve]
    split
    · split <;> exact ⟨rfl, rfl⟩
    · exact erases_bindMethod (erased_visit base s) name noted line arguments injected _
  | .binary .. | .literal .. | .new .. | .allocate .. | .array .. | .index .. | .reference ..
  | .cast .. | .call .. =>
    unfold resolve
    exact ⟨rfl, rfl⟩
termination_by 2 * (callee.weight + Expr.weights arguments) + 1
decreasing_by all_goals simp only [Expr.weight]; omega

end

theorem erased_checkAssign (declares : Bool) (target : Expr) (written : Option TypeId)
    (value : Expr) (line : Nat) (s : State) :
    (checkAssign c declares target written value line s).statement.erased =
      (Statement.assign declares target written value line).erased := by
  have given := erased_visit (c := c) value s
  unfold checkAssign
  dsimp only
  split
  · rw [Statement.erased, Statement.erased, given]
  · split
    · split
      · rw [Statement.erased, Statement.erased, given]
      · rename_i target' t declared
        obtain ⟨name, noted, at_, type, rfl, -, -, -, rfl, -⟩ := declare_eq_ok declared
        rw [Statement.erased, Statement.erased, given, Expr.erased, Expr.erased]
    · rw [Statement.erased, Statement.erased, given, erased_visit target]

theorem erased_checkCall (callee : Expr) (arguments : List Expr) (target : Option FunctionId)
    (injected : Bool) (line : Nat) (s : State) :
    (checkCall c callee arguments target injected line s).statement.erased =
      (Statement.call callee arguments target injected line).erased := by
  have visited := erased_visit (c := c) (.call callee arguments target injected line) s
  unfold checkCall
  dsimp only
  split
  · rename_i same
    rw [same] at visited
    simp only [Expr.erased, Expr.call.injEq] at visited
    obtain ⟨called, given, -, -, rfl⟩ := visited
    rw [Statement.erased, Statement.erased, called, given]
  · rfl

theorem erased_checkedNext {v : Checked} {statement : Statement} {check : State → Checked}
    (h : ∀ s, (check s).statement.erased = statement.erased) :
    (v.next statement check).statement.erased = statement.erased := by
  unfold Checked.next
  split
  · exact h _
  · rfl

mutual

theorem erased_check (statement : Statement) (s : State) :
    (check c statement s).statement.erased = statement.erased := by
  cases statement with
  | block statements line =>
    rw [check, Statement.erased, Statement.erased, erased_checkAll statements]
  | assign declares target written value line =>
    exact erased_checkAssign declares target written value line s
  | ret value line =>
    rw [check, statement_checkReturn, Statement.erased, Statement.erased, erased_visit value]
  | ifThen test body line =>
    rw [check, Statement.erased, Statement.erased]
    congr 1
    · exact erased_visit test s
    · exact erased_checkedNext fun t => erased_check body _
  | ifElse test body otherwise line =>
    rw [check, Statement.erased, Statement.erased]
    congr 1
    · exact erased_visit test s
    · exact erased_checkedNext fun t => erased_check body _
    · exact erased_checkedNext fun t => erased_check otherwise _
  | whileLoop test body line =>
    rw [check, Statement.erased, Statement.erased]
    congr 1
    · exact erased_visit test s
    · exact erased_checkedNext fun t => erased_check body _
  | forLoop first test step body line =>
    rw [check, Statement.erased, Statement.erased]
    congr 1
    · exact erased_check first _
    · split
      · exact erased_visit test _
      · rfl
    · exact erased_checkedNext fun t => erased_check step t
    · exact erased_checkedNext fun t => erased_check body _
  | call callee arguments target injected line =>
    exact erased_checkCall callee arguments target injected line s
termination_by structural statement

theorem erased_checkAll (statements : List Statement) (s : State) :
    Statement.allErased (checkAll c statements s).1 = Statement.allErased statements := by
  cases statements with
  | nil => rfl
  | cons statement rest =>
    rw [checkAll, Statement.allErased, Statement.allErased, erased_check statement,
      erased_checkAll rest]
termination_by structural statements

end

end Typing
end ObjectLang
