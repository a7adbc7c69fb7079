import Mathlib.Logic.Relation
import ObjectLang.Module
import ObjectLang.Program.List
import ObjectLang.Proofs.Program.Formed
set_option autoImplicit false

/-!
# Drafts

Reading a file takes a program and the module of the file through a few kinds of steps: a type is
made or declared, a field or a function is added, something is imported, and at last the module
gets its body. Whatever holds at the start and is kept by every step holds of what was read.
-/

namespace ObjectLang

/-- A program while a file is read, with the module of that file. -/
structure Draft where
  program : Program
  module : Module

namespace Draft

/-- The type was declared by the file. -/
structure HasDeclared (d : Draft) (t : TypeId) : Prop where
  not_base : t ≠ .object
  own : t ∈ d.module.ownTypes
  object : ∃ name parent members, d.program.types.get t = .object name parent members

/-- Methods may be declared for a type: the file sees it, and calls one of its own types by the same
    name. -/
structure Admits (d : Draft) (owner : TypeId) : Prop where
  visible : owner ∈ d.module.types
  named : ∃ t ∈ d.module.ownTypes, d.program.types.name t = d.program.types.name owner

inductive Step (earlier : List Module) (d : Draft) : Draft → Prop
  | arrayOf (element : TypeId) (known : d.program.types.Knows element) :
    Step earlier d { d with program := (d.program.arrayOf element).2 }
  | referenceTo (referent : TypeId) (known : d.program.types.Knows referent) :
    Step earlier d { d with program := (d.program.referenceTo referent).2 }
  | listOf (element : TypeId) (known : d.program.types.Knows element) (filled : element ≠ .void) :
    Step earlier d
      { program := (d.program.listOf element).2
        module := d.module.addType (d.program.listOf element).1 }
  | declare (name : String) (parent : Option TypeId)
      (objects : ∀ t ∈ parent, d.program.types.isObject t = true)
      (plain : Registry.builtin? name = none) :
    Step earlier d
      { program := { d.program with types := (d.program.types.declare name parent).2 }
        module := d.module.addType (d.program.types.declare name parent).1 }
  | addField (owner : TypeId) (name : String) (type : TypeId) (declared : d.HasDeclared owner)
      (fresh : (d.program.types.get owner).ownField? name = none)
      (known : d.program.types.Knows type) (filled : type ≠ .void) :
    Step earlier d
      { d with
        program := { d.program with types := d.program.types.addField owner name type } }
  | addFunction (f : Function) (formed : f.Formed d.program) (own : f.module = d.module.index)
      (free : f.parent = none)
      (fresh : d.module.declaresFunction d.program f.signature = false) :
    Step earlier d
      { program := (d.program.addFunction f).2
        module := d.module.addFunction (d.program.addFunction f).1 }
  | addMethod (owner : TypeId) (f : Function) (formed : f.Formed d.program)
      (own : f.module = d.module.index) (free : f.parent = none)
      (object : d.program.types.isObject owner = true)
      (constructors : f.name = constructorName → f.traits.isStatic = true)
      (admitted : d.Admits owner)
      (joins : (d.program.addFunction f).2.methodFault? owner f = none) :
    Step earlier d
      { program := (d.program.addFunction f).2.adopt owner (d.program.addFunction f).1
        module := d.module.addFunction (d.program.addFunction f).1 }
  /-- A function that cannot be a method stays behind, and nothing refers to it. -/
  | refuse (f : Function) (formed : f.Formed d.program) (own : f.module = d.module.index)
      (free : f.parent = none) :
    Step earlier d { d with program := (d.program.addFunction f).2 }
  | importFunction (source : Module) (id : FunctionId) (read : source ∈ earlier)
      (shown : id ∈ source.ownFunctions ∨
        ∃ object ∈ source.ownTypes, id ∈ d.program.types.ownMethods object)
      (offered : (d.program.function id).traits.isPublic = true) :
    Step earlier d { d with module := d.module.importFunction id }
  | importType (source : Module) (id : TypeId) (read : source ∈ earlier)
      (shown : id ∈ source.ownTypes) :
    Step earlier d { d with module := d.module.importType id }
  | setBody (id : FunctionId) (statements : List Statement) (body : d.module.body = some id)
      (formed : Statement.FormedAll d.program statements) :
    Step earlier d
      { d with
        program := d.program.modifyFunction id fun f => { f with body := statements } }

def Steps (earlier : List Module) : Draft → Draft → Prop := Relation.ReflTransGen (Step earlier)

end Draft
end ObjectLang
