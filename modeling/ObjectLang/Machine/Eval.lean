import ObjectLang.Machine.Native
import ObjectLang.Program.Basic
set_option autoImplicit false

/-!
# Evaluation

Expressions are evaluated from left to right. Statements run in order until one of them says what
the call returns; from then on nothing more of that call runs. Every call has variables of its own,
and blocks, branches and rounds of loops have segments of their own among them.

What a call does is handed to expressions as a function, so evaluation follows the trees; calls
nest, and loops go round, no more often than a bound allows.
-/

namespace ObjectLang.Machine

open Eval

/-- What stays the same while the body of a function runs. -/
structure Context where
  program : Program
  /-- Calls a function from a line, with values for its parameters. -/
  call : FunctionId → List Value → Nat → Eval Value
  /-- The bound on the rounds of a loop. -/
  rounds : Nat

/-- The method that runs for a call of `target`: if that is virtual or overrides, the one that the
    type of the receiver has under its name. -/
def dispatch (p : Program) (target : FunctionId) (receiver : Option Value) (h : Heap) :
    FunctionId :=
  let f := p.function target
  match receiver with
  | some (.object ref) =>
    if f.traits.isVirtual || f.traits.isOverride then
      (p.types.findMethod? (h.object ref).type f.name).getD target
    else target
  | _ => target

def callTarget (c : Context) (target : FunctionId) (injected : Bool) (arguments : List Value)
    (line : Nat) : Eval Value := do
  let receiver := if injected then arguments.head? else none
  let target ← read fun s => dispatch c.program target receiver s.heap
  c.call target arguments line

def readVar (name : String) (line : Nat) : Eval Value := do
  match ← read fun s => s.scopes.get? name with
  | some value => pure value
  | none => fail line (.unknownVariable name)

def readField (base : Value) (name : String) (line : Nat) : Eval Value := do
  let ref ← ofExcept line base.asObject
  match ← read fun s => (s.heap.object ref).fields.find? name with
  | some value => pure value
  | none => fail line (.unknownField name)

def readSlot (ref : ArrayRef) (index : Value) (line : Nat) : Eval Value := do
  let index ← ofExcept line index.asInt
  let items ← read fun s => s.heap.array ref
  let place ← ofExcept line (Value.place index items.size)
  pure (items[place]?.getD .void)

mutual

def eval (c : Context) (e : Expr) : Eval Value :=
  match e with
  | .binary op lhs rhs line => do
    let a ← eval c lhs
    let b ← eval c rhs
    ofExcept line (op.apply a b)
  | .literal value _ => pure (.ofLiteral value)
  | .var name _ line => readVar name line
  | .field base name _ line => do
    let base ← eval c base
    readField base name line
  | .new type _ => onHeap fun h => h.instantiate c.program.types type
  | .allocate element size line => do
    let size ← eval c size
    let size ← ofExcept line size.asInt
    let size ← ofExcept line (Value.count size)
    let element ← onHeap fun h => h.default c.program.types element
    allocate line element size
  | .array _ items _ => do
    let items ← evalAll c items
    onHeap fun h => h.newArray items.toArray
  | .index array index line => do
    let array ← eval c array
    let ref ← ofExcept line array.asArray
    let index ← eval c index
    readSlot ref index line
  | .reference expr _ => eval c expr
  | .cast expr type line => do
    let value ← eval c expr
    ofExcept line (value.cast type)
  | .call _ arguments (some target) injected line => do
    let arguments ← evalAll c arguments
    callTarget c target injected arguments line
  | .call callee _ none _ line => fail line (.unresolvedCall callee.calledName)
termination_by structural e

def evalAll (c : Context) (es : List Expr) : Eval (List Value) :=
  match es with
  | [] => pure []
  | e :: rest => do
    let value ← eval c e
    let values ← evalAll c rest
    pure (value :: values)
termination_by structural es

end

def writeVar (name : String) (value : Value) (line : Nat) : Eval Unit := fun s =>
  match s.scopes.set? name value with
  | some scopes => .done () { s with scopes }
  | none => fail line (.unknownVariable name) s

def writeSlot (ref : ArrayRef) (index value : Value) (line : Nat) : Eval Unit := do
  let index ← ofExcept line index.asInt
  let size ← read fun s => (s.heap.array ref).size
  let place ← ofExcept line (Value.place index size)
  onHeap fun h => ((), h.setSlot ref place value)

def store (c : Context) (target : Expr) (value : Value) (line : Nat) : Eval Unit :=
  match target with
  | .var name _ _ => writeVar name value line
  | .field base name _ _ => do
    let base ← eval c base
    let ref ← ofExcept line base.asObject
    onHeap fun h => ((), h.setField ref name value)
  | .index array index _ => do
    let array ← eval c array
    let ref ← ofExcept line array.asArray
    let index ← eval c index
    writeSlot ref index value line
  | _ => fail line (.typeViolation "=" "expression" value.kind)

/-- The value of an assignment comes before its target. -/
def assign (c : Context) (declares : Bool) (target value : Expr) (line : Nat) : Eval Unit := do
  let value ← eval c value
  match declares, target with
  | true, .var name _ _ => declare name value
  | _, target => store c target value line

def condition (c : Context) (e : Expr) (line : Nat) : Eval Bool := do
  let value ← eval c e
  ofExcept line value.asBool

/-- The condition of a loop, which also ends when the call returns. -/
def goesOn (c : Context) (e : Expr) (line : Nat) : Eval Bool := do
  if ← hasReturned then pure false else condition c e line

mutual

def exec (c : Context) (statement : Statement) : Eval Unit :=
  match statement with
  | .block statements _ => inScope (execAll c statements)
  | .assign declares target _ value line => assign c declares target value line
  | .ret value _ => do
    let value ← eval c value
    setReturned value
  | .ifThen test body line => do
    if ← condition c test line then inScope (exec c body) else pure ()
  | .ifElse test body otherwise line => do
    if ← condition c test line then inScope (exec c body) else inScope (exec c otherwise)
  | .whileLoop test body line => loop (goesOn c test line) (inScope (exec c body)) c.rounds
  | .forLoop first test step body line =>
    inScope do
      exec c first
      loop (goesOn c test line)
        (do
          inScope (exec c body)
          if ← hasReturned then pure () else exec c step)
        c.rounds
  | .call callee arguments target injected line => do
    match target with
    | some target => do
      let arguments ← evalAll c arguments
      let _ ← callTarget c target injected arguments line
      pure ()
    | none => fail line (.unresolvedCall callee.calledName)
termination_by structural statement

/-- Runs statements up to the one that says what the call returns. -/
def execAll (c : Context) (statements : List Statement) : Eval Unit :=
  match statements with
  | [] => pure ()
  | statement :: rest => do
    if ← hasReturned then pure ()
    else do
      exec c statement
      execAll c rest
termination_by structural statements

end

def callNative (f : Function) (arguments : List Value) (line : Nat) : Eval Value :=
  match Native.named? f.name with
  | some native => native.call line arguments
  | none => fail line (.missingNative f.name)

/-- Calls a function with nested calls at most `depth` deep. -/
def callWithin (p : Program) (rounds : Nat) : Nat → FunctionId → List Value → Nat → Eval Value
  | 0, _, _, _ => exhausted
  | depth + 1, id, arguments, line =>
    let f := p.function id
    if arguments.length = f.parameters.length then
      if f.isNative then callNative f arguments line
      else
        inFrame ((f.parameters.map Parameter.name).zip arguments)
          (execAll { program := p, call := callWithin p rounds depth, rounds } f.body)
    else fail line (.argumentCount f.name f.parameters.length arguments.length)

def call (p : Program) (bound : Nat) (id : FunctionId) (arguments : List Value) (line : Nat) :
    Eval Value :=
  callWithin p bound bound id arguments line

end ObjectLang.Machine
