import ObjectLang.Diagnostics
import ObjectLang.Program.Basic
import ObjectLang.SyntaxError
set_option autoImplicit false

/-!
# Methods

A function becomes a method by joining the method table of its owner. It gets a receiver `self` in
front of its parameters unless it is static, and as a constructor, a method named `new`, it begins
with the allocation of `self` and ends with its return.
-/

namespace ObjectLang

def constructorName : String := "new"

def receiverName : String := "self"

namespace Function

def withReceiver (f : Function) (owner : TypeId) : Function :=
  if f.traits.isStatic then f
  else { f with parameters := ⟨receiverName, owner, f.line⟩ :: f.parameters }

/-- Allocates the receiver first and returns it last. -/
def asConstructor (f : Function) (owner : TypeId) : Function :=
  let self := Expr.var receiverName none f.line
  { f with
    body := .declare self (.new owner f.line) f.line :: f.body ++ [.ret self f.line]
    returnType := owner
    traits := { f.traits with isExplicit := true } }

def asMethod (f : Function) (owner : TypeId) : Function :=
  let f := { f with parent := some owner }.withReceiver owner
  if f.name = constructorName then f.asConstructor owner else f

end Function

/-- Whether a method with traits `own` may override one with traits `inherited`: that one must be
    virtual, and apart from being virtual or overriding the traits must be the same. -/
def Traits.mayOverride (own inherited : Traits) : Bool :=
  inherited.isVirtual &&
    inherited.union { isOverride := true } == own.union { isVirtual := true }

namespace Program

def inheritedTraits? (p : Program) (owner : TypeId) (name : String) : Option Traits := do
  let parent ← p.types.parent? owner
  let method ← p.types.findMethod? parent name
  pure (p.function method).traits

def methodFault? (p : Program) (owner : TypeId) (f : Function) : Option SyntaxError :=
  if f.traits.isOverride then
    if ((p.inheritedTraits? owner f.name).map f.traits.mayOverride).getD false then none
    else some ⟨.invalidOverride (p.types.name owner) f.name, f.line⟩
  else if ((p.types.get owner).ownMethod? f.name).isSome then
    some ⟨.duplicateMethod (p.types.name owner) f.name, f.line⟩
  else none

def adopt (p : Program) (owner : TypeId) (id : FunctionId) : Program :=
  { p.modifyFunction id (·.asMethod owner) with
    types := p.types.addMethod owner (p.function id).name id }

theorem modifyFunction_modifyFunction (p : Program) (id : FunctionId)
    (first second : Function → Function) :
    (p.modifyFunction id first).modifyFunction id second =
      p.modifyFunction id fun f => second (first f) :=
  congrArg (fun functions => { p with functions }) (p.functions.modify_modify id first second)

theorem modifyFunction_congr (p : Program) (id : FunctionId) {change change' : Function → Function}
    (same : change (p.function id) = change' (p.function id)) :
    p.modifyFunction id change = p.modifyFunction id change' :=
  congrArg (fun functions => { p with functions }) (p.functions.modify_congr id same)

end Program

/-- What all files share: the program, and the log. -/
structure Shared where
  program : Program
  diagnostics : Diagnostics

namespace Shared

/-- Operations that change what is shared step by step, and may stop with an error on the way. -/
abbrev Change := EStateM SyntaxError Shared

def modifyFunction (id : FunctionId) (change : Function → Function) : Change Unit :=
  modify fun s => { s with program := s.program.modifyFunction id change }

/-- Stops if a function cannot become a method of `owner`. One that overrides needs a method above that
    it may override, any other one a name that is new to `owner`. -/
def admitMethod (owner : TypeId) (f : Function) : Change Unit := do
  let p := (← get).program
  if f.traits.isOverride then
    if ((p.inheritedTraits? owner f.name).map f.traits.mayOverride).getD false = false then
      throw ⟨.invalidOverride (p.types.name owner) f.name, f.line⟩
  else if ((p.types.get owner).ownMethod? f.name).isSome then
    throw ⟨.duplicateMethod (p.types.name owner) f.name, f.line⟩

/-- Rewrites a function, which is `f`, as a method of `owner`, and enters it there. -/
def attachMethod (owner : TypeId) (id : FunctionId) (f : Function) : Change Unit := do
  modifyFunction id fun g => { g with parent := some owner }
  if f.traits.isStatic = false then
    modifyFunction id fun g =>
      { g with parameters := ⟨receiverName, owner, f.line⟩ :: g.parameters }
  if f.name = constructorName then
    modifyFunction id (·.asConstructor owner)
  modify fun s =>
    { s with program := { s.program with types := s.program.types.addMethod owner f.name id } }

def addMethod (owner : TypeId) (id : FunctionId) : Change Unit := do
  let f := (← get).program.function id
  admitMethod owner f
  attachMethod owner id f

variable {owner : TypeId} {id : FunctionId}

theorem run_admitMethod (owner : TypeId) (f : Function) (s : Shared) :
    (admitMethod owner f).run s =
      match s.program.methodFault? owner f with
      | some e => .error e s
      | none => .ok () s := by
  unfold admitMethod Program.methodFault?
  rw [EStateM.run_bind, EStateM.run_get]
  dsimp only
  split
  · cases ((s.program.inheritedTraits? owner f.name).map f.traits.mayOverride).getD false <;> rfl
  · cases ((s.program.types.get owner).ownMethod? f.name).isSome <;> rfl

theorem run_modifyFunction (id : FunctionId) (change : Function → Function) (p : Program)
    (diagnostics : Diagnostics) :
    (modifyFunction id change).run ⟨p, diagnostics⟩ =
      .ok () ⟨p.modifyFunction id change, diagnostics⟩ := rfl

/-- Written step by step, the function becomes a method all the same. -/
theorem run_attachMethod (owner : TypeId) (id : FunctionId) (s : Shared) :
    (attachMethod owner id (s.program.function id)).run s =
      .ok () { s with program := s.program.adopt owner id } := by
  obtain ⟨p, diagnostics⟩ := s
  dsimp only
  have written (change : Function → Function)
      (same : change (p.function id) = (p.function id).asMethod owner) :
      (.ok () ⟨{ p.modifyFunction id change with
        types := p.types.addMethod owner (p.function id).name id }, diagnostics⟩ :
          EStateM.Result SyntaxError Shared Unit) = .ok () ⟨p.adopt owner id, diagnostics⟩ := by
    have rewritten : p.modifyFunction id change = p.modifyFunction id (·.asMethod owner) :=
      p.modifyFunction_congr id same
    rw [rewritten]
    rfl
  unfold attachMethod
  generalize p.function id = f at written ⊢
  rw [EStateM.run_bind, run_modifyFunction]
  dsimp only
  split <;> rename_i receiver <;> split <;> rename_i constructs <;>
    simp only [EStateM.run_bind, run_modifyFunction, EStateM.run_modify,
      Program.modifyFunction_modifyFunction] <;>
    refine written _ ?_ <;>
    simp [Function.asMethod, Function.withReceiver, receiver, constructs]

theorem run_addMethod (owner : TypeId) (id : FunctionId) (s : Shared) :
    (addMethod owner id).run s =
      match s.program.methodFault? owner (s.program.function id) with
      | some e => .error e s
      | none => .ok () { s with program := s.program.adopt owner id } := by
  unfold addMethod
  rw [EStateM.run_bind, EStateM.run_get]
  dsimp only
  rw [EStateM.run_bind, run_admitMethod]
  cases s.program.methodFault? owner (s.program.function id) with
  | some e => rfl
  | none => exact run_attachMethod owner id s

/-- What an operation leaves, also if it stops with an error. -/
def left : EStateM.Result SyntaxError Shared Unit → Shared
  | .ok _ s => s
  | .error _ s => s

end Shared

/-- What `Shared.addMethod` makes of a program, for a caller that drops what is left with an error. -/
def Program.addMethod (p : Program) (owner : TypeId) (id : FunctionId) :
    Except SyntaxError Program :=
  match (Shared.addMethod owner id).run ⟨p, {}⟩ with
  | .ok _ s => .ok s.program
  | .error e _ => .error e

end ObjectLang
