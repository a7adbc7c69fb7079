import ObjectLang.Proofs.Scoping.Exec
set_option autoImplicit false

/-!
# Where control comes to

The body of a call is followed to the expressions that are evaluated in it, round after round in
loops, and expressions are followed to the variables that they look up. On the way the names of the
frame are labelled with their sites: a declaration adds its label where the interpreter binds the
name, and the labels of a segment are forgotten where it is closed. The labels always agree with the
frame.
-/

namespace ObjectLang.Machine

open Eval

mutual

inductive Uses (c : Context) (name : String) (t : State) : Expr → State → Prop
  | var (type : Option TypeId) (line : Nat) : Uses c name t (.var name type line) t
  | left (op : BinaryOperator) (lhs rhs : Expr) (line : Nat) (s : State)
    (inside : Uses c name t lhs s) : Uses c name t (.binary op lhs rhs line) s
  | right (op : BinaryOperator) (lhs rhs : Expr) (line : Nat) (s u : State) (value : Value)
    (done : eval c lhs s = .done value u) (inside : Uses c name t rhs u) :
    Uses c name t (.binary op lhs rhs line) s
  | base (base : Expr) (field : String) (type : Option TypeId) (line : Nat) (s : State)
    (inside : Uses c name t base s) : Uses c name t (.field base field type line) s
  | size (element : TypeId) (size : Expr) (line : Nat) (s : State)
    (inside : Uses c name t size s) : Uses c name t (.allocate element size line) s
  | item (element : TypeId) (items : List Expr) (line : Nat) (s : State)
    (inside : UsesAll c name t items s) : Uses c name t (.array element items line) s
  | array (base place : Expr) (line : Nat) (s : State) (inside : Uses c name t base s) :
    Uses c name t (.index base place line) s
  | index (base place : Expr) (line : Nat) (s u : State) (value : Value)
    (done : eval c base s = .done value u) (inside : Uses c name t place u) :
    Uses c name t (.index base place line) s
  | reference (expr : Expr) (line : Nat) (s : State) (inside : Uses c name t expr s) :
    Uses c name t (.reference expr line) s
  | cast (expr : Expr) (type : TypeId) (line : Nat) (s : State)
    (inside : Uses c name t expr s) : Uses c name t (.cast expr type line) s
  | argument (callee : Expr) (arguments : List Expr) (target : Option FunctionId)
    (injected : Bool) (line : Nat) (s : State) (inside : UsesAll c name t arguments s) :
    Uses c name t (.call callee arguments target injected line) s

inductive UsesAll (c : Context) (name : String) (t : State) : List Expr → State → Prop
  | head (e : Expr) (rest : List Expr) (s : State) (inside : Uses c name t e s) :
    UsesAll c name t (e :: rest) s
  | tail (e : Expr) (rest : List Expr) (s u : State) (value : Value)
    (done : eval c e s = .done value u) (inside : UsesAll c name t rest u) :
    UsesAll c name t (e :: rest) s

end

/-- The states in which a loop that begins in `s` comes to its test. -/
inductive Heads (test : Eval Bool) (body : Eval Unit) (s : State) : State → Prop
  | first : Heads test body s s
  | next (t u v : State) (head : Heads test body s t) (holds : test t = .done true u)
    (round : body u = .done () v) : Heads test body s v

def forRound (c : Context) (body step : Statement) : Eval Unit := do
  inScope (exec c body)
  if ← hasReturned then pure () else exec c step

mutual

/-- A statement at `place`, begun in `s` with the labels `σ`, comes to evaluate the expression `e`
    of the statement at `π`, or to assign to it, in the state `t` with the labels `τ`. -/
inductive Comes (c : Context) (π : Place) (e : Expr) (t : State) (τ : Sites) :
    Statement → Place → State → Sites → Prop
  | block (statements : List Statement) (line : Nat) (place : Place) (s : State) (σ : Sites)
    (inside : ComesAll c π e t τ statements place 0 s.opened σ) :
    Comes c π e t τ (.block statements line) place s σ
  | value (declares : Bool) (target : Expr) (written : Option TypeId) (line : Nat) :
    Comes c π e t τ (.assign declares target written e line) π t τ
  | target (written : Option TypeId) (value : Expr) (line : Nat) (s : State) (v : Value)
    (done : eval c value s = .done v t) :
    Comes c π e t τ (.assign false e written value line) π s τ
  | ret (line : Nat) : Comes c π e t τ (.ret e line) π t τ
  | ifThenTest (body : Statement) (line : Nat) : Comes c π e t τ (.ifThen e body line) π t τ
  | ifThenBody (test : Expr) (body : Statement) (line : Nat) (place : Place) (s u : State)
    (σ : Sites) (holds : condition c test line s = .done true u)
    (inside : Comes c π e t τ body (place ++ [0]) u.opened σ) :
    Comes c π e t τ (.ifThen test body line) place s σ
  | ifElseTest (body otherwise : Statement) (line : Nat) :
    Comes c π e t τ (.ifElse e body otherwise line) π t τ
  | ifElseBody (test : Expr) (body otherwise : Statement) (line : Nat) (place : Place)
    (s u : State) (σ : Sites) (holds : condition c test line s = .done true u)
    (inside : Comes c π e t τ body (place ++ [0]) u.opened σ) :
    Comes c π e t τ (.ifElse test body otherwise line) place s σ
  | ifElseOtherwise (test : Expr) (body otherwise : Statement) (line : Nat) (place : Place)
    (s u : State) (σ : Sites) (fails : condition c test line s = .done false u)
    (inside : Comes c π e t τ otherwise (place ++ [1]) u.opened σ) :
    Comes c π e t τ (.ifElse test body otherwise line) place s σ
  | whileTest (body : Statement) (line : Nat) (s : State)
    (head : Heads (goesOn c e line) (inScope (exec c body)) s t) (goes : t.returned = none) :
    Comes c π e t τ (.whileLoop e body line) π s τ
  | whileBody (test : Expr) (body : Statement) (line : Nat) (place : Place) (s u v : State)
    (σ : Sites) (head : Heads (goesOn c test line) (inScope (exec c body)) s u)
    (holds : goesOn c test line u = .done true v)
    (inside : Comes c π e t τ body (place ++ [0]) v.opened σ) :
    Comes c π e t τ (.whileLoop test body line) place s σ
  | forFirst (first : Statement) (test : Expr) (step body : Statement) (line : Nat)
    (place : Place) (s : State) (σ : Sites)
    (inside : Comes c π e t τ first (place ++ [0]) s.opened σ) :
    Comes c π e t τ (.forLoop first test step body line) place s σ
  | forTest (first step body : Statement) (line : Nat) (s u : State) (σ : Sites)
    (begins : exec c first s.opened = .done () u)
    (head : Heads (goesOn c e line) (forRound c body step) u t) (goes : t.returned = none)
    (visible : τ = first.sitesBehind (π ++ [0]) σ) :
    Comes c π e t τ (.forLoop first e step body line) π s σ
  | forBody (first : Statement) (test : Expr) (step body : Statement) (line : Nat)
    (place : Place) (s u v w : State) (σ : Sites) (begins : exec c first s.opened = .done () u)
    (head : Heads (goesOn c test line) (forRound c body step) u v)
    (holds : goesOn c test line v = .done true w)
    (inside : Comes c π e t τ body (place ++ [2]) w.opened (first.sitesBehind (place ++ [0]) σ)) :
    Comes c π e t τ (.forLoop first test step body line) place s σ
  | forStep (first : Statement) (test : Expr) (step body : Statement) (line : Nat)
    (place : Place) (s u v w x : State) (σ : Sites)
    (begins : exec c first s.opened = .done () u)
    (head : Heads (goesOn c test line) (forRound c body step) u v)
    (holds : goesOn c test line v = .done true w)
    (done : inScope (exec c body) w = .done () x) (goes : x.returned = none)
    (inside : Comes c π e t τ step (place ++ [1]) x (first.sitesBehind (place ++ [0]) σ)) :
    Comes c π e t τ (.forLoop first test step body line) place s σ
  | call (callee : Expr) (arguments : List Expr) (target : Option FunctionId) (injected : Bool)
    (line : Nat) (same : e = .call callee arguments target injected line) :
    Comes c π e t τ (.call callee arguments target injected line) π t τ

inductive ComesAll (c : Context) (π : Place) (e : Expr) (t : State) (τ : Sites) :
    List Statement → Place → Nat → State → Sites → Prop
  | head (statement : Statement) (rest : List Statement) (place : Place) (number : Nat)
    (s : State) (σ : Sites) (goes : s.returned = none)
    (inside : Comes c π e t τ statement (place ++ [number]) s σ) :
    ComesAll c π e t τ (statement :: rest) place number s σ
  | tail (statement : Statement) (rest : List Statement) (place : Place) (number : Nat)
    (s u : State) (σ : Sites) (goes : s.returned = none) (done : exec c statement s = .done () u)
    (inside : ComesAll c π e t τ rest place (number + 1) u
      (statement.sitesBehind (place ++ [number]) σ)) :
    ComesAll c π e t τ (statement :: rest) place number s σ

end

section Found

variable {c : Context} {callable : FunctionId → Prop} {names : List String} {s t : State}

theorem Finds.of_done {α : Type} {x : Eval α} (h : Finds names x) (bound : s.names = names)
    {value : α} (done : x s = .done value t) : SameFrame s t := by
  have meets := h s bound
  rw [done] at meets
  exact meets

theorem Ends.of_done {α : Type} {x : Eval α} {Q : Scopes Value → Scopes Value → Prop}
    (h : Ends Q x s) {value : α} (done : x s = .done value t) : Q s.scopes t.scopes := by
  unfold Ends at h
  rw [done] at h
  exact h

mutual

theorem Uses.found (safe : c.Safe callable) {e : Expr} {s : State} {name : String}
    (sees : e.Scoped callable names) (bound : s.names = names) (h : Uses c name t e s) :
    name ∈ names ∧ t.names = names := by
  cases h with
  | var type line => exact ⟨sees, bound⟩
  | left op lhs rhs line _ inside => exact inside.found safe sees.1 bound
  | right op lhs rhs line _ u value done inside =>
    have frame := (finds_eval safe lhs sees.1).of_done bound done
    exact inside.found safe sees.2 (frame.names_eq.trans bound)
  | base base field type line _ inside => exact inside.found (e := base) safe sees bound
  | size element size line _ inside => exact inside.found (e := size) safe sees bound
  | item element items line _ inside => exact inside.found safe sees bound
  | array base place line _ inside => exact inside.found safe sees.1 bound
  | index base place line _ u value done inside =>
    have frame := (finds_eval safe base sees.1).of_done bound done
    exact inside.found safe sees.2 (frame.names_eq.trans bound)
  | reference expr line _ inside => exact inside.found (e := expr) safe sees bound
  | cast expr type line _ inside => exact inside.found (e := expr) safe sees bound
  | argument callee arguments target injected line _ inside =>
    exact inside.found safe sees.1 bound
termination_by structural e

theorem UsesAll.found (safe : c.Safe callable) {es : List Expr} {s : State} {name : String}
    (sees : Expr.AllScoped callable names es) (bound : s.names = names)
    (h : UsesAll c name t es s) : name ∈ names ∧ t.names = names := by
  cases h with
  | head e rest _ inside => exact inside.found safe sees.1 bound
  | tail e rest _ u value done inside =>
    have frame := (finds_eval safe e sees.1).of_done bound done
    exact inside.found safe sees.2 (frame.names_eq.trans bound)
termination_by structural es

end

/-- Every round begins with the names that the loop began with. -/
theorem Heads.names_eq {test : Eval Bool} {body : Eval Unit} (htest : Finds names test)
    (hbody : ∀ t, t.names = names → Ends Scopes.Alike body t) (bound : s.names = names)
    (h : Heads test body s t) : t.names = names := by
  induction h with
  | first => exact bound
  | next t u v head holds round ih =>
    have tested := (htest.of_done ih holds).names_eq.trans ih
    exact ((hbody u tested).of_done round).names.trans tested

theorem names_exec (safe : c.Safe callable) {statement : Statement}
    (sees : statement.Scoped callable names) (bound : s.names = names)
    (done : exec c statement s = .done () t) : t.names = statement.namesBehind names :=
  bound ▸ ((exec_ends safe statement sees bound).of_done done).names_eq

theorem ends_body (safe : c.Safe callable) {body : Statement}
    (sees : body.Scoped callable names) (bound : s.names = names) :
    Ends Scopes.Alike (inScope (exec c body)) s :=
  ends_branch (exec_ends safe body sees (s := s.opened) bound)

theorem ends_forRound (safe : c.Safe callable) {step body : Statement}
    (steps : step.Scoped callable names) (undeclared : step.declared? = none)
    (inside : body.Scoped callable names) (bound : s.names = names) :
    Ends Scopes.Alike (forRound c body step) s :=
  ends_round (ends_body safe inside bound) fun _ alike =>
    (exec_ends safe step steps (alike.names.trans bound)).mono
      (fun _ _ => Statement.Leaves.alike undeclared) fun _ _ h => h

variable {π : Place} {e : Expr} {τ : Sites}

mutual

/-- Where control comes to, the labels are those of the names in the frame, and the expression
    needs no others. -/
theorem Comes.found (safe : c.Safe callable) {statement : Statement} {place : Place} {s : State}
    {σ : Sites} (sees : statement.Scoped callable σ.names)
    (h : Comes c π e t τ statement place s σ) (bound : s.names = σ.names) :
    e.Scoped callable τ.names ∧ t.names = τ.names := by
  cases h with
  | block statements line _ _ _ inside => exact inside.found safe sees bound
  | value declares target written line => exact ⟨sees.1, bound⟩
  | target written value line _ v done =>
    obtain ⟨seen, ⟨no, -⟩ | ⟨-, seen'⟩⟩ := sees
    · cases no
    · exact ⟨seen', ((finds_eval safe value seen).of_done bound done).names_eq.trans bound⟩
  | ret line => exact ⟨sees, bound⟩
  | ifThenTest body line => exact ⟨sees.1, bound⟩
  | ifThenBody test body line _ _ u _ holds inside =>
    have frame := (finds_condition safe line sees.1).of_done bound holds
    exact inside.found safe sees.2 (frame.names_eq.trans bound)
  | ifElseTest body otherwise line => exact ⟨sees.1, bound⟩
  | ifElseBody test body otherwise line _ _ u _ holds inside =>
    have frame := (finds_condition safe line sees.1).of_done bound holds
    exact inside.found safe sees.2.1 (frame.names_eq.trans bound)
  | ifElseOtherwise test body otherwise line _ _ u _ fails inside =>
    have frame := (finds_condition safe line sees.1).of_done bound fails
    exact inside.found safe sees.2.2 (frame.names_eq.trans bound)
  | whileTest body line _ head goes =>
    exact ⟨sees.1, head.names_eq (finds_goesOn safe line sees.1)
      (fun _ => ends_body safe sees.2) bound⟩
  | whileBody test body line _ _ u v _ head holds inside =>
    have tests := finds_goesOn safe line sees.1
    have reached := head.names_eq tests (fun _ => ends_body safe sees.2) bound
    exact inside.found safe sees.2 ((tests.of_done reached holds).names_eq.trans reached)
  | forFirst first test step body line _ _ _ inside => exact inside.found safe sees.1 bound
  | forTest first step body line _ u _ begins head goes visible =>
    subst visible
    obtain ⟨seen, holds, ⟨steps, undeclared⟩, inside⟩ := sees
    rw [Statement.names_sitesBehind]
    exact ⟨holds, head.names_eq (finds_goesOn safe line holds)
      (fun _ => ends_forRound safe steps undeclared inside)
      (names_exec safe seen (s := s.opened) bound begins)⟩
  | forBody first test step body line _ _ u v w _ begins head holds inside =>
    obtain ⟨seen, seen', ⟨steps, undeclared⟩, seen''⟩ := sees
    have tests := finds_goesOn safe line seen'
    have reached := head.names_eq tests (fun _ => ends_forRound safe steps undeclared seen'')
      (names_exec safe seen (s := s.opened) bound begins)
    have again := (tests.of_done reached holds).names_eq.trans reached
    rw [← first.names_sitesBehind (place ++ [0])] at again seen''
    exact inside.found safe seen'' again
  | forStep first test step body line _ _ u v w x _ begins head holds done goes inside =>
    obtain ⟨seen, seen', ⟨steps, undeclared⟩, seen''⟩ := sees
    have tests := finds_goesOn safe line seen'
    have reached := head.names_eq tests (fun _ => ends_forRound safe steps undeclared seen'')
      (names_exec safe seen (s := s.opened) bound begins)
    have again := (tests.of_done reached holds).names_eq.trans reached
    have behind := ((ends_body safe seen'' again).of_done done).names.trans again
    rw [← first.names_sitesBehind (place ++ [0])] at behind steps
    exact inside.found safe steps behind
  | call callee arguments target injected line same =>
    subst same
    exact ⟨sees, bound⟩
termination_by structural statement

theorem ComesAll.found (safe : c.Safe callable) {statements : List Statement} {place : Place}
    {number : Nat} {s : State} {σ : Sites}
    (sees : Statement.AllScoped callable σ.names statements)
    (h : ComesAll c π e t τ statements place number s σ) (bound : s.names = σ.names) :
    e.Scoped callable τ.names ∧ t.names = τ.names := by
  cases h with
  | head statement rest _ _ _ _ goes inside => exact inside.found safe sees.1 bound
  | tail statement rest place number _ u _ goes done inside =>
    have behind := names_exec safe sees.1 bound done
    have seen := sees.2
    rw [← statement.names_sitesBehind (place ++ [number])] at behind seen
    exact inside.found safe seen behind
termination_by structural statements

end

end Found

end ObjectLang.Machine
