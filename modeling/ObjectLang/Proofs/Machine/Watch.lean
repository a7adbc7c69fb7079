import ObjectLang.Machine.Run
import ObjectLang.Proofs.Scoping.Control
set_option autoImplicit false

/-!
# What holds all along

A claim on the values at hand and on the heap may be made of every moment of a run: of the state in
which each expression and each statement begins, of the value and the state that it ends with, or
the state of its fault, and of the arguments with which each function is called, however deep the
calls nest. Operations on the heap count as one moment.
-/

namespace ObjectLang.Machine

open Eval

variable {α : Type}

def After (x : Eval α) (s : State) (P : α → State → Prop) : Prop :=
  ∀ v t, x s = .done v t → P v t

/-- What is claimed all along, and what that comes to for calls. -/
structure Watch where
  context : Context
  claim : List Value → Heap → Prop
  call : FunctionId → List Value → Nat → State → Prop

namespace Watch

/-- The claim holds where an evaluation begins and where it ends. -/
def Around (claim : List Value → Heap → Prop) (values : α → List Value) (x : Eval α) (s : State) :
    Prop :=
  claim [] s.heap ∧ (x s).Meets (fun v t => claim (values v) t.heap) fun _ t => claim [] t.heap

def target (w : Watch) (target : FunctionId) (injected : Bool) (line : Nat)
    (arguments : List Value) (s : State) : Prop :=
  let receiver := if injected then arguments.head? else none
  w.call (dispatch w.context.program target receiver s.heap) arguments line s

mutual

def expr (w : Watch) (e : Expr) (s : State) : Prop :=
  Around w.claim (fun v => [v]) (eval w.context e) s ∧
    match e with
    | .binary _ lhs rhs _ => w.expr lhs s ∧ After (eval w.context lhs) s fun _ t => w.expr rhs t
    | .literal .. | .var .. | .new .. => True
    | .field base _ _ _ => w.expr base s
    | .allocate _ size _ => w.expr size s
    | .array _ items _ => w.exprs items s
    | .index base place _ =>
      w.expr base s ∧ After (eval w.context base) s fun v t => ∀ ref, v = .array ref → w.expr place t
    | .reference e _ => w.expr e s
    | .cast e _ _ => w.expr e s
    | .call _ arguments (some target) injected line =>
      w.exprs arguments s ∧ After (evalAll w.context arguments) s (w.target target injected line)
    | .call _ _ none _ _ => True
termination_by structural e

def exprs (w : Watch) (es : List Expr) (s : State) : Prop :=
  match es with
  | [] => True
  | e :: rest => w.expr e s ∧ After (eval w.context e) s fun _ t => w.exprs rest t
termination_by structural es

end

def place (w : Watch) (target : Expr) (s : State) : Prop :=
  match target with
  | .field base _ _ _ => w.expr base s
  | .index base place _ =>
    w.expr base s ∧ After (eval w.context base) s fun v t => ∀ ref, v = .array ref → w.expr place t
  | _ => True

/-- What holds of the tests of a loop and of its rounds, if one thing is said of the state in which
    it comes to a test and another of the state in which a round begins. -/
def loop (test : Eval Bool) (body : Eval Unit) (s : State) (tested round : State → Prop) : Prop :=
  ∀ t, Heads test body s t →
    (t.returned = none → tested t) ∧ After test t fun again u => again = true → round u

mutual

def statement (w : Watch) (st : Statement) (s : State) : Prop :=
  Around w.claim (fun _ => []) (exec w.context st) s ∧
    match st with
    | .block statements _ => w.statements statements s.opened
    | .assign _ target _ value _ =>
      w.expr value s ∧ After (eval w.context value) s fun _ t => w.place target t
    | .ret value _ => w.expr value s
    | .ifThen test body line =>
      w.expr test s ∧ After (condition w.context test line) s fun holds t =>
        holds = true → w.statement body t.opened
    | .ifElse test body otherwise line =>
      w.expr test s ∧ After (condition w.context test line) s fun holds t =>
        (holds = true → w.statement body t.opened) ∧
          (holds = false → w.statement otherwise t.opened)
    | .whileLoop test body line =>
      loop (goesOn w.context test line) (inScope (exec w.context body)) s (w.expr test)
        fun t => w.statement body t.opened
    | .forLoop first test step body line =>
      w.statement first s.opened ∧ After (exec w.context first) s.opened fun _ u =>
        loop (goesOn w.context test line) (forRound w.context body step) u (w.expr test) fun t =>
          w.statement body t.opened ∧ After (inScope (exec w.context body)) t fun _ x =>
            x.returned = none → w.statement step x
    | .call _ arguments (some target) injected line =>
      w.exprs arguments s ∧ After (evalAll w.context arguments) s (w.target target injected line)
    | .call _ _ none _ _ => True
termination_by structural st

/-- The claim holds all along statements, up to the one that says what the call returns. -/
def statements (w : Watch) (sts : List Statement) (s : State) : Prop :=
  match sts with
  | [] => True
  | st :: rest => s.returned = none →
    w.statement st s ∧ After (exec w.context st) s fun _ t => w.statements rest t
termination_by structural sts

end
end Watch

def State.inCall (s : State) (f : Function) (arguments : List Value) : State :=
  { s with
    scopes := Scopes.empty.openSegment ((f.parameters.map Parameter.name).zip arguments)
    returned := none }

def within (p : Program) (rounds depth : Nat) : Context :=
  { program := p, call := callWithin p rounds depth, rounds }

def callThroughout (claim : List Value → Heap → Prop) (p : Program) (rounds : Nat) :
    Nat → FunctionId → List Value → Nat → State → Prop
  | 0, _, arguments, _, s => claim arguments s.heap
  | depth + 1, id, arguments, line, s =>
    let f := p.function id
    claim arguments s.heap ∧
      Watch.Around claim (fun v => [v]) (callWithin p rounds (depth + 1) id arguments line) s ∧
        (arguments.length = f.parameters.length → f.isNative = false →
          Watch.statements
            { context := within p rounds depth, claim, call := callThroughout claim p rounds depth }
            f.body (s.inCall f arguments))

def callIfAnyThroughout (claim : List Value → Heap → Prop) (p : Program) (bound : Nat)
    (id : Option FunctionId) (line : FunctionId → Nat) (s : State) : Prop :=
  ∀ f ∈ id, callThroughout claim p bound bound f [] (line f) s

end Machine

/-- The claim holds all along a run of what was compiled, and of what the run comes to. -/
structure Compilation.Throughout (c : Compilation) (claim : List Value → Heap → Prop) (bound : Nat)
    (console : Console) : Prop where
  start : claim [] {}
  outcome : (c.run bound console).Meets (fun v t => claim [v] t.heap) fun _ t => claim [] t.heap
  body : ∀ m ∈ c.modules.getLast?,
    Machine.callIfAnyThroughout claim c.program bound m.body (fun _ => 0) { console }
  main : ∀ m ∈ c.modules.getLast?,
    Machine.After (Machine.callIfAny c.program bound m.body (fun _ => 0) .void) { console }
      fun _ t => Machine.callIfAnyThroughout claim c.program bound (m.main? c.program)
        (fun id => (c.program.function id).line) t

end ObjectLang
