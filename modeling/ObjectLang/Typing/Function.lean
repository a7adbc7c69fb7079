import ObjectLang.Typing.Statement
set_option autoImplicit false

/-!
# Checking functions

A function is checked once, against the module that declares it, in scopes of its own: the visible
object types under its parameters. Calls check their targets on the spot, so the order of
declarations does not matter; a function that is being checked already is not entered again, and
every nested check makes one more function known as checked.
-/

namespace ObjectLang.Typing

def functionScopes (m : Module) (p : Program) (f : Function) : Scopes Meaning :=
  let types := (m.visibleObjectTypes p).map fun t => (p.types.name t, Meaning.type t)
  let parameters := f.parameters.map fun x => (x.name, Meaning.value x.type)
  (Scopes.empty.openSegment types).openSegment parameters

namespace State

def enter (s : State) (m : Module) (f : Function) : State :=
  { s with
    scopes := functionScopes m s.program f
    diagnostics := { s.diagnostics with file := m.file } }

def leave (s outer : State) (id : FunctionId) (body : List Statement) : State :=
  { s with
    scopes := outer.scopes
    diagnostics := { s.diagnostics with file := outer.diagnostics.file }
    program := s.program.modifyFunction id fun f => { f with body } }

def isChecked (s : State) (id : FunctionId) : Bool := s.checked.contains id

def markChecked (s : State) (id : FunctionId) : State := { s with checked := id :: s.checked }

end State

def checkBody (c : Context) (m : Module) (s : State) : State :=
  let f := s.program.function c.current
  let (body, t) := checkAll c f.body (s.enter m f)
  t.leave s c.current body

/-- Checks a function that is not checked yet, and those that it reaches through at most `depth`
    nested calls. -/
def checkWithin (modules : List Module) : Nat → FunctionId → State → State
  | 0, _, s => s
  | depth + 1, id, s =>
    if s.isChecked id then s
    else
      let t := s.markChecked id
      let f := t.program.function id
      if f.isNative then t
      else
        match modules[f.module]? with
        | none => t
        | some m =>
          checkBody { modules, current := id, checkTarget := checkWithin modules depth } m t

/-- Checks a function and all that it reaches. Every nested check enters another function, so calls
    never nest deeper than there are functions. -/
def checkFunction (modules : List Module) (id : FunctionId) (s : State) : State :=
  checkWithin modules (s.program.functions.size + 1) id s

def checkModule (modules : List Module) (index : Nat) (s : State) : State :=
  match modules[index]? with
  | none => s
  | some m => m.ownFunctions.foldl (fun s id => checkFunction modules id s) s

end ObjectLang.Typing
