import ObjectLang.Compilation
import ObjectLang.Machine.Eval
set_option autoImplicit false

/-!
# Runs

A run starts from one module: its statements come first, then its function `main`, if it has one.
The value of the run is the value of whichever was last.
-/

namespace ObjectLang

namespace Machine

open Eval

structure Entry where
  body : Option FunctionId
  main : Option FunctionId
  deriving DecidableEq, Repr

def Entry.ofModule (p : Program) (m : Module) : Entry := ⟨m.body, m.main? p⟩

def callIfAny (p : Program) (bound : Nat) (id : Option FunctionId) (line : FunctionId → Nat)
    (value : Value) : Eval Value :=
  match id with
  | none => pure value
  | some id => call p bound id [] (line id)

/-- Runs a program. The output is flushed at the end, unless there was a fault. -/
def run (p : Program) (bound : Nat) : Option Entry → Eval Value
  | none => fun s => .fault .noEntry s
  | some entry => do
    let value ← callIfAny p bound entry.body (fun _ => 0) .void
    let value ← callIfAny p bound entry.main (fun id => (p.function id).line) value
    onConsole 0 fun c => (c.flush, c)
    pure value

end Machine

namespace Compilation

def run (c : Compilation) (bound : Nat) (console : Console) : Machine.Outcome Value :=
  let entry := c.modules.getLast?.map (Machine.Entry.ofModule c.program)
  Machine.run c.program bound entry { console }

end Compilation

def runFiles (files : List SourceFile) (bound : Nat) (console : Console) :
    Except CompileError (Machine.Outcome Value) :=
  match Compilation.new.compile files with
  | (.error e, _) => .error e
  | (.ok (), c) => .ok (c.run bound console)

def mainPath : String := "main.kv"

def runText (text : String) (bound : Nat) (console : Console) :
    Except CompileError (Machine.Outcome Value) :=
  runFiles [⟨mainPath, text⟩] bound console

end ObjectLang
