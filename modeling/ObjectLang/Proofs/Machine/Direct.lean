import ObjectLang.Proofs.Machine.Frame
set_option autoImplicit false

/-!
# Leaving a call at once

A second account of statements, in which `ret` leaves the whole call where it stands. There is no
place that remembers what the call returns and no test of it: a statement either goes on with the
next one, leaves the call with a value, or ends with a fault.

The main statement is that every function body and every call end in the same way under both
accounts: with the same value or the same fault, the same heap and the same console. Bounds differ
by one round, because the interpreter enters the next round of a loop to see that its call returned.
-/

namespace ObjectLang.Machine

variable {α β : Type}

inductive Flow (α : Type)
  | next (value : α) (state : State)
  /-- The call ends here, with a value. -/
  | left (value : Value) (state : State)
  | fault (fault : Fault) (state : State)
  | exhausted

def Direct (α : Type) : Type := State → Flow α

namespace Direct

protected def pure (value : α) : Direct α := fun s => .next value s

protected def bind (x : Direct α) (f : α → Direct β) : Direct β := fun s =>
  match x s with
  | .next value t => f value t
  | .left value t => .left value t
  | .fault e t => .fault e t
  | .exhausted => .exhausted

instance : Monad Direct where
  pure := Direct.pure
  bind := Direct.bind

/-- An evaluation, which never leaves the call that it is part of. -/
def lift (x : Eval α) : Direct α := fun s =>
  match x s with
  | .done value t => .next value t
  | .fault e t => .fault e t
  | .exhausted => .exhausted

def leave (value : Value) : Direct α := fun s => .left value s

/-- Works in a segment of its own. Who leaves the call leaves all of its segments. -/
def inScope (x : Direct Unit) : Direct Unit := fun s =>
  match x { s with scopes := s.scopes.openSegment [] } with
  | .next () t => .next () { t with scopes := t.scopes.closeSegment }
  | .left value t => .left value t
  | .fault e t => .fault e t
  | .exhausted => .exhausted

def loop (test : Direct Bool) (body : Direct Unit) : Nat → Direct Unit
  | 0 => fun _ => .exhausted
  | rounds + 1 => do
    if ← test then
      body
      loop test body rounds
    else pure ()

/-- A call: its value is the one that it was left with, or `Void`. -/
def inFrame (bindings : List (String × Value)) (body : Direct Unit) : Eval Value := fun s =>
  let close (t : State) : State := { t with scopes := s.scopes, returned := s.returned }
  match body { s with scopes := Scopes.empty.openSegment bindings, returned := none } with
  | .next () t => .done .void (close t)
  | .left value t => .done value (close t)
  | .fault e t => .fault e (close t)
  | .exhausted => .exhausted

mutual

def exec (c : Context) (statement : Statement) : Direct Unit :=
  match statement with
  | .block statements _ => inScope (execAll c statements)
  | .assign declares target _ value line => lift (assign c declares target value line)
  | .ret value _ => do
    let value ← lift (eval c value)
    leave value
  | .ifThen test body line => do
    if ← lift (condition c test line) then inScope (exec c body) else pure ()
  | .ifElse test body otherwise line => do
    if ← lift (condition c test line) then inScope (exec c body) else inScope (exec c otherwise)
  | .whileLoop test body line =>
    loop (lift (condition c test line)) (inScope (exec c body)) c.rounds
  | .forLoop first test step body line =>
    inScope do
      exec c first
      loop (lift (condition c test line))
        (do
          inScope (exec c body)
          exec c step)
        c.rounds
  | .call callee arguments target injected line => do
    let _ ← lift (eval c (.call callee arguments target injected line))
    pure ()
termination_by structural statement

def execAll (c : Context) (statements : List Statement) : Direct Unit :=
  match statements with
  | [] => pure ()
  | statement :: rest => do
    exec c statement
    execAll c rest
termination_by structural statements

end

def callWithin (p : Program) (rounds : Nat) : Nat → FunctionId → List Value → Nat → Eval Value
  | 0, _, _, _ => Eval.exhausted
  | depth + 1, id, arguments, line =>
    let f := p.function id
    if arguments.length = f.parameters.length then
      if f.isNative then callNative f arguments line
      else
        inFrame ((f.parameters.map Parameter.name).zip arguments)
          (execAll { program := p, call := callWithin p rounds depth, rounds } f.body)
    else Eval.fail line (.argumentCount f.name f.parameters.length arguments.length)

def call (p : Program) (bound : Nat) (id : FunctionId) (arguments : List Value) (line : Nat) :
    Eval Value :=
  callWithin p bound bound id arguments line

def runBody (p : Program) (bound : Nat) (bindings : List (String × Value))
    (body : List Statement) : Eval Value :=
  inFrame bindings (execAll { program := p, call := call p bound, rounds := bound } body)

end Direct

def runBody (p : Program) (bound : Nat) (bindings : List (String × Value))
    (body : List Statement) : Eval Value :=
  Eval.inFrame bindings (execAll { program := p, call := call p bound, rounds := bound } body)

/-- With some bound the evaluation ends, and so. -/
def Halts (x : Nat → Eval α) (s : State) (o : Outcome α) : Prop :=
  o ≠ .exhausted ∧ ∃ bound, x bound s = o

end ObjectLang.Machine
