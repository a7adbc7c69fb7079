import ObjectLang.Proofs.Calls.Erasure
set_option autoImplicit false

/-!
# Targets stay

Reading binds few calls and checking binds the others. A call that has a target keeps it, however often
its tree is checked: of the targets in a tree, those that are there before a check are there behind it,
each in its place. Injected receivers are passed over, for they are copies of callees.
-/

namespace ObjectLang

mutual

def Expr.targets (e : Expr) : List (Option FunctionId) :=
  match e with
  | .binary _ lhs rhs _ => lhs.targets ++ rhs.targets
  | .literal .. | .var .. | .new .. => []
  | .field base _ _ _ => base.targets
  | .allocate _ size _ => size.targets
  | .array _ items _ => (Expr.allTargets items).flatten
  | .index base place _ => base.targets ++ place.targets
  | .reference expr _ => expr.targets
  | .cast expr _ _ => expr.targets
  | .call callee arguments target injected _ =>
    target :: (callee.targets ++
      ((Expr.allTargets arguments).drop (if injected then 1 else 0)).flatten)
termination_by structural e

def Expr.allTargets (es : List Expr) : List (List (Option FunctionId)) :=
  match es with
  | [] => []
  | e :: rest => e.targets :: Expr.allTargets rest
termination_by structural es

end

namespace Statement

mutual

def targets (statement : Statement) : List (Option FunctionId) :=
  match statement with
  | .block statements _ => allTargets statements
  | .assign _ target _ value _ => target.targets ++ value.targets
  | .ret value _ => value.targets
  | .ifThen condition body _ => condition.targets ++ body.targets
  | .ifElse condition body otherwise _ => condition.targets ++ (body.targets ++ otherwise.targets)
  | .whileLoop condition body _ => condition.targets ++ body.targets
  | .forLoop first condition step body _ =>
    first.targets ++ (condition.targets ++ (step.targets ++ body.targets))
  | .call callee arguments target injected line =>
    (Expr.call callee arguments target injected line).targets
termination_by structural statement

def allTargets (statements : List Statement) : List (Option FunctionId) :=
  match statements with
  | [] => []
  | statement :: rest => statement.targets ++ allTargets rest
termination_by structural statements

end

end Statement

theorem forall₂_trans {α : Type} {R : α → α → Prop}
    (trans : ∀ a b c, R a b → R b c → R a c) {as bs cs : List α} (h : List.Forall₂ R as bs)
    (h' : List.Forall₂ R bs cs) : List.Forall₂ R as cs := by
  induction h generalizing cs with
  | nil => exact h'
  | cons first _ ih =>
    cases h' with
    | cons first' rest' => exact .cons (trans _ _ _ first first') (ih rest')

/-- Each target of `before` is in its place in `after`. -/
def Kept (before after : List (Option FunctionId)) : Prop :=
  List.Forall₂ (fun a b => ∀ target, a = some target → b = some target) before after

namespace Kept

variable {before before' after after' last : List (Option FunctionId)}

theorem refl (targets : List (Option FunctionId)) : Kept targets targets :=
  List.forall₂_same.2 fun _ _ _ known => known

theorem trans (h : Kept before after) (h' : Kept after last) : Kept before last :=
  forall₂_trans (fun _ _ _ known known' target set => known' target (known target set)) h h'

theorem append (h : Kept before after) (h' : Kept before' after') :
    Kept (before ++ before') (after ++ after') :=
  List.rel_append h h'

theorem flatten {trees trees' : List (List (Option FunctionId))}
    (h : List.Forall₂ Kept trees trees') : Kept trees.flatten trees'.flatten :=
  List.rel_flatten h

theorem forall₂_refl (trees : List (List (Option FunctionId))) : List.Forall₂ Kept trees trees :=
  List.forall₂_same.2 fun targets _ => .refl targets

end Kept

namespace Typing

variable {c : Context}

def Resolved.KeepsTargets {n : Nat} (r : Resolved n) (callee : Expr) (arguments : List Expr)
    (injected : Bool) : Prop :=
  match r with
  | .bound _ callee' arguments' injected' _ _ => Kept callee.targets callee'.targets ∧
      List.Forall₂ Kept ((Expr.allTargets arguments).drop (if injected then 1 else 0))
        ((Expr.allTargets arguments').drop (if injected' then 1 else 0))
  | .failed _ callee' arguments' _ _ => Kept callee.targets callee'.targets ∧
      List.Forall₂ Kept (Expr.allTargets arguments) (Expr.allTargets arguments')

theorem kept_call {callee callee' : Expr} {arguments arguments' : List Expr}
    {target target' : Option FunctionId} {injected injected' : Bool} {line line' : Nat}
    (known : ∀ id, target = some id → target' = some id)
    (called : Kept callee.targets callee'.targets)
    (given : List.Forall₂ Kept ((Expr.allTargets arguments).drop (if injected then 1 else 0))
      ((Expr.allTargets arguments').drop (if injected' then 1 else 0))) :
    Kept (Expr.call callee arguments target injected line).targets
      (Expr.call callee' arguments' target' injected' line').targets :=
  .cons known (called.append (.flatten given))

theorem kept_bindMethod {n m : Nat} {base : Visited n} {e : Expr}
    (inside : Kept e.targets base.expr.targets) (name : String) (noted : Option TypeId)
    (line : Nat) (arguments : List Expr) (injected : Bool) (le : Expr.weights arguments ≤ m) :
    (bindMethod base name noted line arguments injected le).KeepsTargets (.field e name noted line)
      arguments injected := by
  unfold bindMethod
  dsimp only
  split
  · exact ⟨inside, Kept.forall₂_refl _⟩
  · split
    · exact ⟨inside, Kept.forall₂_refl _⟩
    · rename_i wanted
      obtain ⟨rfl, -⟩ := Bool.or_eq_false_iff.1 (Bool.eq_false_iff.2 wanted)
      exact ⟨inside, Kept.forall₂_refl _⟩

theorem kept_next {n : Nat} {v : Visited n} {e : Expr} {visit : State → Visited e.weight}
    (h : ∀ s, Kept e.targets (visit s).expr.targets) :
    Kept e.targets (v.next visit).expr.targets := by
  unfold Visited.next
  split
  · exact h _
  · exact .refl _

mutual

theorem kept_visit (e : Expr) (s : State) : Kept e.targets (visit c e s).expr.targets := by
  match e with
  | .binary op lhs rhs line =>
    have left := kept_visit lhs s
    have right := kept_next (v := visit c lhs s) fun t => kept_visit rhs t
    rw [visit]
    exact left.append right
  | .literal value line =>
    rw [visit]
    exact .refl _
  | .var name noted line =>
    rw [visit, visitVar]
    split <;> exact .refl _
  | .field base name noted line =>
    rw [visit]
    exact kept_visit base s
  | .new type line =>
    rw [visit]
    exact .refl _
  | .allocate element size line =>
    rw [visit]
    exact kept_visit size s
  | .array element items line =>
    rw [visit]
    exact .flatten (kept_visitAll (checkItem element) items s)
  | .index base place line =>
    have outside : Kept base.targets ((visit c base s).judge elementType).expr.targets :=
      kept_visit base s
    have inside := kept_next (v := (visit c base s).judge elementType) fun t => kept_visit place t
    rw [visit]
    exact outside.append inside
  | .reference expr line =>
    rw [visit]
    split
    · exact kept_visit expr s
    · exact .refl _
  | .cast expr type line =>
    rw [visit]
    exact kept_visit expr s
  | .call callee arguments (some target) injected line =>
    have inside := kept_visitAll (fun _ _ => .ok ()) arguments (c.checkTarget target s)
    rw [visit]
    exact kept_call (fun _ known => known) (.refl _) (List.forall₂_drop _ inside)
  | .call callee arguments none injected line =>
    have resolves := kept_resolve callee arguments injected s
    rw [visit]
    split
    · rename_i failed
      rw [failed] at resolves
      exact kept_call nofun resolves.1 (List.forall₂_drop _ resolves.2)
    · rename_i target callee' bound injected' t le found
      rw [found] at resolves
      have inside := kept_visitAll (fun _ _ => .ok ()) bound (c.checkTarget target t)
      refine kept_call nofun resolves.1 ?_
      exact forall₂_trans (R := Kept) (fun _ _ _ => Kept.trans) resolves.2 (List.forall₂_drop _ inside)
termination_by 2 * e.weight
decreasing_by all_goals simp only [Expr.weight]; omega

theorem kept_visitAll (accept : Program → TypeId → Except TypeError Unit) (es : List Expr)
    (s : State) :
    List.Forall₂ Kept (Expr.allTargets es) (Expr.allTargets (visitAll c accept es s).exprs) := by
  match es with
  | [] =>
    rw [visitAll]
    exact .nil
  | e :: rest =>
    have _ := e.weight_pos
    have first := kept_visit e s
    rw [visitAll]
    dsimp only
    split
    · exact .cons first (Kept.forall₂_refl _)
    · exact .cons first (kept_visitAll accept rest (visit c e s).state)
termination_by 2 * Expr.weights es + 1
decreasing_by all_goals simp only [Expr.weights]; omega

theorem kept_resolve (callee : Expr) (arguments : List Expr) (injected : Bool) (s : State) :
    (resolve c callee arguments injected s).KeepsTargets callee arguments injected := by
  match callee with
  | .var name noted line =>
    have inside := kept_visitAll (fun _ _ => .ok ()) arguments s
    rw [resolve]
    split
    · exact ⟨.refl _, List.forall₂_drop _ inside⟩
    · exact ⟨.refl _, inside⟩
  | .field base name noted line =>
    rw [resolve]
    split
    · split <;> exact ⟨.refl _, Kept.forall₂_refl _⟩
    · exact kept_bindMethod (kept_visit base s) name noted line arguments injected _
  | .binary .. | .literal .. | .new .. | .allocate .. | .array .. | .index .. | .reference ..
  | .cast .. | .call .. =>
    unfold resolve
    exact ⟨.refl _, Kept.forall₂_refl _⟩
termination_by 2 * (callee.weight + Expr.weights arguments) + 1
decreasing_by all_goals simp only [Expr.weight]; omega

end

theorem kept_checkAssign (declares : Bool) (target : Expr) (written : Option TypeId)
    (value : Expr) (line : Nat) (s : State) :
    Kept (Statement.assign declares target written value line).targets
      (checkAssign c declares target written value line s).statement.targets := by
  have given := kept_visit (c := c) value s
  unfold checkAssign
  dsimp only
  split
  · exact (Kept.refl _).append given
  · split
    · split
      · exact (Kept.refl _).append given
      · rename_i target' t declared
        obtain ⟨name, noted, at_, type, rfl, -, -, -, rfl, -⟩ := declare_eq_ok declared
        exact (Kept.refl _).append given
    · exact (kept_visit target _).append given

theorem kept_checkCall (callee : Expr) (arguments : List Expr) (target : Option FunctionId)
    (injected : Bool) (line : Nat) (s : State) :
    Kept (Statement.call callee arguments target injected line).targets
      (checkCall c callee arguments target injected line s).statement.targets := by
  have visited := kept_visit (c := c) (.call callee arguments target injected line) s
  unfold checkCall
  dsimp only
  split
  · rename_i same
    rw [same] at visited
    exact visited
  · exact .refl _

theorem kept_checkedNext {v : Checked} {statement : Statement} {check : State → Checked}
    (h : ∀ s, Kept statement.targets (check s).statement.targets) :
    Kept statement.targets (v.next statement check).statement.targets := by
  unfold Checked.next
  split
  · exact h _
  · exact .refl _

mutual

theorem kept_check (statement : Statement) (s : State) :
    Kept statement.targets (check c statement s).statement.targets := by
  cases statement with
  | block statements line => exact kept_checkAll statements (s.openScope [])
  | assign declares target written value line =>
    exact kept_checkAssign declares target written value line s
  | ret value line =>
    rw [check, statement_checkReturn]
    exact kept_visit value s
  | ifThen test body line =>
    rw [check]
    exact (kept_visit test s).append (kept_checkedNext fun t => kept_check body _)
  | ifElse test body otherwise line =>
    rw [check]
    refine (kept_visit test s).append (.append ?_ ?_)
    · exact kept_checkedNext fun t => kept_check body _
    · exact kept_checkedNext fun t => kept_check otherwise _
  | whileLoop test body line =>
    rw [check]
    exact (kept_visit test s).append (kept_checkedNext fun t => kept_check body _)
  | forLoop first test step body line =>
    rw [check]
    refine (kept_check first _).append (.append ?_ (.append ?_ ?_))
    · split
      · exact kept_visit test _
      · exact .refl _
    · exact kept_checkedNext fun t => kept_check step t
    · exact kept_checkedNext fun t => kept_check body _
  | call callee arguments target injected line =>
    exact kept_checkCall callee arguments target injected line s
termination_by structural statement

theorem kept_checkAll (statements : List Statement) (s : State) :
    Kept (Statement.allTargets statements) (Statement.allTargets (checkAll c statements s).1) := by
  cases statements with
  | nil => exact .refl _
  | cons statement rest =>
    rw [checkAll]
    exact (kept_check statement s).append (kept_checkAll rest _)
termination_by structural statements

end

end Typing
end ObjectLang
