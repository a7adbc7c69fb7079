import ObjectLang.Program.Basic
set_option autoImplicit false

/-!
# Modules

The types and functions that one file can see: those it declares, in the order of declaration, and
in front of them those it imports, the latest import first. Names are looked up in that order, and
the first match counts. Every file sees the builtin types as if it had declared them.
-/

namespace ObjectLang

structure Module where
  name : String
  file : String
  /-- The number of the file. -/
  index : Nat
  importedTypes : List TypeId := []
  ownTypes : List TypeId := Primitive.all.map Primitive.id ++ [.object]
  importedFunctions : List FunctionId := []
  ownFunctions : List FunctionId := []
  /-- The function that holds the statements outside of all functions. -/
  body : Option FunctionId := none
  deriving Inhabited

namespace Module

def new (name : String) (index : Nat) : Module := { name, file := name, index }

def types (m : Module) : List TypeId := m.importedTypes ++ m.ownTypes

def functions (m : Module) : List FunctionId := m.importedFunctions ++ m.ownFunctions

def addFunction (m : Module) (id : FunctionId) : Module :=
  { m with ownFunctions := m.ownFunctions ++ [id] }

def addType (m : Module) (id : TypeId) : Module :=
  if m.types.contains id then m else { m with ownTypes := m.ownTypes ++ [id] }

def importFunction (m : Module) (id : FunctionId) : Module :=
  if m.functions.contains id then m
  else { m with importedFunctions := id :: m.importedFunctions }

def importType (m : Module) (id : TypeId) : Module :=
  if m.types.contains id then m else { m with importedTypes := id :: m.importedTypes }

def findType? (m : Module) (p : Program) (name : String) : Option TypeId :=
  m.types.find? fun t => p.types.name t == name

def declaresType (m : Module) (p : Program) (name : String) : Bool :=
  m.ownTypes.any fun t => p.types.name t == name

def isObjectType (p : Program) (t : TypeId) : Bool := t != .object && p.types.isObject t

/-- The object types that the module declares, and the list types it made. -/
def objectTypes (m : Module) (p : Program) : List TypeId := m.ownTypes.filter (isObjectType p)

def visibleObjectTypes (m : Module) (p : Program) : List TypeId :=
  m.types.filter (isObjectType p)

/-- The first visible function whose signature agrees with a call's. -/
def findFunction? (m : Module) (p : Program) (key : Signature) : Option FunctionId :=
  m.functions.find? fun id => (p.function id).signature.agrees p.types.equals key

def declaresFunction (m : Module) (p : Program) (key : Signature) : Bool :=
  m.ownFunctions.any fun id => (p.function id).signature == key

def group (m : Module) (p : Program) (name : String) : List FunctionId :=
  m.ownFunctions.filter fun id =>
    (p.function id).name == name && (p.function id).parent.isNone

def main? (m : Module) (p : Program) : Option FunctionId :=
  (m.group p "main").find? fun id => (p.function id).parameters.isEmpty

theorem types_new (name : String) (index : Nat) :
    (new name index).types = Primitive.all.map Primitive.id ++ [.object] := rfl

theorem functions_addFunction (m : Module) (id : FunctionId) :
    (m.addFunction id).functions = m.functions ++ [id] := by
  simp [functions, addFunction]

end Module
end ObjectLang
