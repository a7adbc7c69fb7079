import ObjectLang.Machine.Arithmetic
import ObjectLang.Machine.Outcome
set_option autoImplicit false

/-!
# Functions of the host

A native function is found by its name and checks its arguments itself: their number first, then
their kinds from left to right.
-/

namespace ObjectLang.Machine

inductive Native
  | printf | scanf | malloc | memcpy | panic
  deriving DecidableEq, Repr

namespace Native

def all : List Native := [printf, scanf, malloc, memcpy, panic]

def name : Native → String
  | printf => "printf"
  | scanf => "scanf"
  | malloc => "malloc"
  | memcpy => "memcpy"
  | panic => "panic"

def named? (name : String) : Option Native := all.find? fun n => n.name == name

def arity : Native → Nat
  | memcpy => 3
  | printf | scanf | malloc | panic => 1

end Native

open Eval

/-- The parts of a value's text. A value that contains itself has none, and asking for them does
    not come to an end. -/
def display (value : Value) : Eval (List String) := fun s =>
  match s.heap.parts? value with
  | some parts => .done parts s
  | none => .exhausted

def print (line : Nat) (value : Value) : Eval Unit := do
  let parts ← display value
  onConsole line fun c => c.write parts

def prompt (line : Nat) (value : Value) : Eval Value := do
  print line value
  onConsole line fun c => (c.flush, c)
  let text ← onConsole line Console.readLine
  pure (.char text)

def allocate (line : Nat) (element : Value) (size : Nat) : Eval Value := do
  let heap ← read State.heap
  match heap.fill element size with
  | .ok (value, heap) => onHeap fun _ => (value, heap)
  | .error cause => fail line cause

/-- Copies the first slots of an array over those of another one, if both have as many. Copying
    an array to itself changes nothing and succeeds for every size. -/
def copy (line : Nat) (dest src size : Value) : Eval Value := do
  let dest ← ofExcept line dest.asArray
  let src ← ofExcept line src.asArray
  let requested ← ofExcept line size.asInt
  let count ← ofExcept line (Value.count requested)
  if dest = src then pure .void
  else do
    let heap ← read State.heap
    let length := min (heap.array src).size (heap.array dest).size
    if count ≤ length then
      onHeap fun h => (.void, h.copySlots dest src count)
    else fail line (.indexOutOfBounds length requested.toInt)

def Native.call (native : Native) (line : Nat) (arguments : List Value) : Eval Value :=
  match native, arguments with
  | printf, [value] => do
    print line value
    pure .void
  | scanf, [value] => prompt line value
  | malloc, [size] => do
    let size ← ofExcept line size.asInt
    let size ← ofExcept line (Value.count size)
    allocate line .void size
  | memcpy, [dest, src, size] => copy line dest src size
  | panic, [message] => do
    let parts ← display message
    fail line (.panic (String.join parts))
  | native, arguments =>
    fail line (.argumentCount native.name native.arity arguments.length)

end ObjectLang.Machine
