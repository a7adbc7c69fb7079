import ObjectLang.Module
import ObjectLang.Typing.Error
set_option autoImplicit false

/-!
# Typing rules

What each form of expression and statement demands of the types of its parts, and the type it has
then. The rules look at types alone; the traversal that finds the types of the parts is elsewhere.
-/

namespace ObjectLang.Typing

def ensure (condition : Bool) (e : TypeError) : Except TypeError Unit :=
  if condition then .ok () else .error e

/-- Operands have equal types. Arithmetic keeps the type of the left one. -/
def binaryType (p : Program) (op : BinaryOperator) (lhs rhs : TypeId) : Except TypeError TypeId :=
  if p.types.equals lhs rhs then .ok (if op.isBoolean then .bool else lhs)
  else .error (.operandMismatch (p.types.name lhs) (p.types.name rhs))

/-- Fields are reached through an object or a reference to one. -/
def fieldType (p : Program) (base : TypeId) (name : String) : Except TypeError TypeId :=
  let owner := p.types.dereference base
  if p.types.isObject owner then
    match p.types.fieldType? owner name with
    | some type => .ok type
    | none => .error (.unknownField (p.types.name owner) name)
  else .error (.fieldOfNonObject (p.types.name owner))

/-- Elements are reached through an array or a reference to one. -/
def elementType (p : Program) (array : TypeId) : Except TypeError TypeId :=
  let owner := p.types.dereference array
  match p.types.element? owner with
  | some element => .ok element
  | none => .error (.notAnArray (p.types.name owner))

def checkIndex (p : Program) (index : TypeId) : Except TypeError Unit :=
  ensure (index == .int) (.nonIntegerIndex (p.types.name index))

def checkSize (p : Program) (size : TypeId) : Except TypeError Unit :=
  ensure (size == .int) (.nonIntegerSize (p.types.name size))

def checkItem (element : TypeId) (p : Program) (item : TypeId) : Except TypeError Unit :=
  ensure (p.types.equals item element)
    (.arrayElementMismatch (p.types.name item) (p.types.name element))

def spellings (p : Program) (types : List TypeId) : String :=
  ", ".intercalate (types.map p.types.name)

def freeTarget (module : Option Module) (p : Program) (name : String) (arguments : List TypeId) :
    Except TypeError FunctionId :=
  match module.bind fun m => m.findFunction? p ⟨none, name, arguments⟩ with
  | some target => .ok target
  | none => .error (.unknownFunction name (spellings p arguments))

def methodTarget (p : Program) (owner : TypeId) (name : String) : Except TypeError FunctionId :=
  match p.types.findMethod? owner name with
  | some target => .ok target
  | none => .error (.unknownMethod (p.types.name owner) name)

def checkArity (f : Function) (skipped count : Nat) : Except TypeError Unit :=
  ensure (f.parameters.length == count)
    (.arityMismatch f.name (f.parameters.length - skipped) (count - skipped))

def checkPairs (p : Program) : List (TypeId × TypeId) → Except TypeError Unit
  | [] => .ok ()
  | (argument, parameter) :: rest =>
    if p.types.equals argument parameter then checkPairs p rest
    else .error (.argumentMismatch (p.types.name argument) (p.types.name parameter))

/-- The type of a call of `target`. An injected receiver may be of a derived type: it is neither
    compared nor counted in messages. -/
def callType (p : Program) (target : FunctionId) (receiverInjected : Bool)
    (arguments : List TypeId) : Except TypeError TypeId := do
  let f := p.function target
  let skipped := if receiverInjected then 1 else 0
  checkArity f skipped arguments.length
  checkPairs p ((arguments.zip f.parameterTypes).drop skipped)
  pure f.returnType

def checkCondition (p : Program) (condition : TypeId) : Except TypeError Unit :=
  ensure (condition == .bool) (.conditionNotBool (p.types.name condition))

def checkAssigned (p : Program) (value target : TypeId) : Except TypeError Unit :=
  ensure (p.types.equals value target)
    (.assignmentMismatch (p.types.name value) (p.types.name target))

/-- The type of a declared variable: that of its first value, or an equal one that is written. -/
def declaredType (p : Program) (value : TypeId) (written : Option TypeId) :
    Except TypeError TypeId :=
  match written.filter (· != .void) with
  | none => .ok value
  | some type => do
    checkAssigned p value type
    pure type

def infersReturnType (f : Function) : Bool := !f.traits.isExplicit && f.returnType == .void

def checkReturned (p : Program) (f : Function) (value : TypeId) : Except TypeError Unit :=
  ensure (p.types.equals value f.returnType)
    (.returnMismatch (p.types.name value) (p.types.name f.returnType))

end ObjectLang.Typing
