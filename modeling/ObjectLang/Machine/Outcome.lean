import ObjectLang.Machine.Console
import ObjectLang.Machine.Display
import ObjectLang.Scopes
set_option autoImplicit false

/-!
# Outcomes of evaluation

An evaluation changes a state and ends with a value, with a fault, or not at all within the bounds
it was given. A fault leaves the state as it is then, so a program can be called again after one.
-/

namespace ObjectLang.Machine

structure State where
  heap : Heap := {}
  console : Console := {}
  /-- The variables of the current call. -/
  scopes : Scopes Value := .empty
  /-- What the current call returns, once that is known. -/
  returned : Option Value := none
  deriving Inhabited

inductive Outcome (α : Type)
  | done (value : α) (state : State)
  | fault (fault : Fault) (state : State)
  /-- The bound on nested calls and on rounds of loops was reached. -/
  | exhausted

def Eval (α : Type) : Type := State → Outcome α

namespace Eval

variable {α β : Type}

@[inline] protected def pure (value : α) : Eval α := fun s => .done value s

@[inline] protected def bind (x : Eval α) (f : α → Eval β) : Eval β := fun s =>
  match x s with
  | .done value t => f value t
  | .fault e t => .fault e t
  | .exhausted => .exhausted

instance : Monad Eval where
  pure := Eval.pure
  bind := Eval.bind

def fail (line : Nat) (cause : Fault.Cause) : Eval α := fun s => .fault (.at line cause) s

def ofExcept (line : Nat) (result : Except Fault.Cause α) : Eval α :=
  match result with
  | .ok value => Eval.pure value
  | .error cause => fail line cause

def exhausted : Eval α := fun _ => .exhausted

def read (f : State → α) : Eval α := fun s => .done (f s) s

def onHeap (f : Heap → α × Heap) : Eval α := fun s =>
  let (value, heap) := f s.heap
  .done value { s with heap }

def onConsole (line : Nat) (f : Console → Except Fault.Cause α × Console) : Eval α := fun s =>
  let (result, console) := f s.console
  ofExcept line result { s with console }

def hasReturned : Eval Bool := read fun s => s.returned.isSome

def setReturned (value : Value) : Eval Unit := fun s => .done () { s with returned := some value }

def declare (name : String) (value : Value) : Eval Unit := fun s =>
  .done () { s with scopes := s.scopes.push name value }

def closing (x : Eval α) (close : State → State) : Eval α := fun s =>
  match x s with
  | .done value t => .done value (close t)
  | .fault e t => .fault e (close t)
  | .exhausted => .exhausted

def inScope (x : Eval α) : Eval α := fun s =>
  (x.closing fun t => { t with scopes := t.scopes.closeSegment })
    { s with scopes := s.scopes.openSegment [] }

/-- Evaluates the body of a call with the given bindings, apart from those of the caller. The value
    is what the body returned. -/
def inFrame (bindings : List (String × Value)) (body : Eval Unit) : Eval Value := fun s =>
  let call : Eval Value := do
    body
    read fun t => t.returned.getD .void
  (call.closing fun t => { t with scopes := s.scopes, returned := s.returned })
    { s with scopes := Scopes.empty.openSegment bindings, returned := none }

/-- Repeats `body` while `test` holds, with less than `rounds` tests. -/
def loop (test : Eval Bool) (body : Eval Unit) : Nat → Eval Unit
  | 0 => fun _ => .exhausted
  | rounds + 1 => fun s =>
    match test s with
    | .done false t => .done () t
    | .done true t =>
      match body t with
      | .done () u => loop test body rounds u
      | .fault e u => .fault e u
      | .exhausted => .exhausted
    | .fault e t => .fault e t
    | .exhausted => .exhausted

theorem pure_apply (value : α) (s : State) : (Eval.pure value) s = .done value s := rfl

end Eval
end ObjectLang.Machine
