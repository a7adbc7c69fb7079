import ObjectLang.Syntax.Statement
set_option autoImplicit false

/-!
# Functions

A function or method as declared: its signature, its traits and its body. Functions are kept in an
arena in the order of their declaration and are referred to by their place in it.
-/

namespace ObjectLang

structure Traits where
  /-- Other files may use it. -/
  isPublic : Bool := false
  /-- It does not change its receiver. -/
  isConst : Bool := false
  /-- It is called through its type and has no receiver. -/
  isStatic : Bool := false
  /-- Derived types may replace it. -/
  isVirtual : Bool := false
  /-- It replaces a method of an ancestor. -/
  isOverride : Bool := false
  /-- Its return type is declared and not inferred. -/
  isExplicit : Bool := false
  deriving DecidableEq, Repr, Inhabited

namespace Traits

def none : Traits := {}

def union (a b : Traits) : Traits where
  isPublic := a.isPublic || b.isPublic
  isConst := a.isConst || b.isConst
  isStatic := a.isStatic || b.isStatic
  isVirtual := a.isVirtual || b.isVirtual
  isOverride := a.isOverride || b.isOverride
  isExplicit := a.isExplicit || b.isExplicit

def contains (a b : Traits) : Bool := a.union b == a

def named? : String → Option Traits
  | "public" => some { isPublic := true }
  | "const" => some { isConst := true }
  | "static" => some { isStatic := true }
  | "virtual" => some { isVirtual := true }
  | "override" => some { isOverride := true }
  | _ => Option.none

def names (t : Traits) : List String :=
  [(t.isPublic, "public"), (t.isConst, "const"), (t.isStatic, "static"),
    (t.isVirtual, "virtual"), (t.isOverride, "override"), (t.isExplicit, "explicit")].filterMap
    fun (isSet, name) => if isSet then some name else Option.none

end Traits

inductive Marker
  /-- The host provides the body. -/
  | native
  deriving DecidableEq, Repr

def Marker.ofText? : String → Option Marker
  | "@native" => some .native
  | _ => none

structure Parameter where
  name : String
  type : TypeId
  line : Nat
  deriving DecidableEq, Repr, Inhabited

structure Function where
  name : String
  /-- `Void` until declared or inferred. -/
  returnType : TypeId := .void
  parameters : List Parameter := []
  body : List Statement := []
  traits : Traits := {}
  /-- The object type of a method. -/
  parent : Option TypeId := none
  marker : Option Marker := none
  /-- The number of the declaring file. -/
  module : Nat
  line : Nat
  deriving Repr, Inhabited

/-- What tells overloads apart: the owner, the name and the parameter types. -/
structure Signature where
  owner : Option TypeId
  name : String
  parameters : List TypeId
  deriving DecidableEq, Repr

namespace Function

def isNative (f : Function) : Bool := f.marker == some .native

def parameterTypes (f : Function) : List TypeId := f.parameters.map Parameter.type

def signature (f : Function) : Signature := ⟨f.parent, f.name, f.parameterTypes⟩

end Function

def Signature.agrees (same : TypeId → TypeId → Bool) (a b : Signature) : Bool :=
  a.owner == b.owner && a.name == b.name && a.parameters.length == b.parameters.length &&
    (a.parameters.zip b.parameters).all fun (x, y) => same x y

structure Arena where
  functions : Array Function := #[]
  deriving Inhabited

namespace Arena

def size (a : Arena) : Nat := a.functions.size

/-- The function of a handle. A handle that was never given out stands for an empty function. -/
def get (a : Arena) (id : FunctionId) : Function :=
  a.functions[id.index]?.getD { name := "", module := 0, line := 0 }

def add (a : Arena) (f : Function) : FunctionId × Arena :=
  (⟨a.functions.size⟩, ⟨a.functions.push f⟩)

def modify (a : Arena) (id : FunctionId) (change : Function → Function) : Arena :=
  ⟨a.functions.modify id.index change⟩

theorem get_add_self (a : Arena) (f : Function) : (a.add f).2.get (a.add f).1 = f := by
  simp [add, get]

theorem get_add_of_lt (a : Arena) (f : Function) {id : FunctionId} (h : id.index < a.size) :
    (a.add f).2.get id = a.get id := by
  have hne : id.index ≠ a.functions.size := Nat.ne_of_lt h
  simp [add, get, Array.getElem?_push, hne]

theorem size_add (a : Arena) (f : Function) : (a.add f).2.size = a.size + 1 := by
  simp [add, size]

theorem size_modify (a : Arena) (id : FunctionId) (change : Function → Function) :
    (a.modify id change).size = a.size := by
  simp [modify, size]

theorem get_modify_of_ne (a : Arena) {id other : FunctionId} (h : other ≠ id)
    (change : Function → Function) : (a.modify id change).get other = a.get other := by
  have hi : id.index ≠ other.index := fun heq => h (by cases id; cases other; simp_all)
  simp [modify, get, Array.getElem?_modify, hi]

theorem modify_modify (a : Arena) (id : FunctionId) (first second : Function → Function) :
    (a.modify id first).modify id second = a.modify id fun f => second (first f) := by
  refine congrArg Arena.mk (Array.ext (by simp [modify]) fun i h h' => ?_)
  simp only [modify, Array.getElem_modify]
  split <;> rfl

theorem modify_congr (a : Arena) (id : FunctionId) {change change' : Function → Function}
    (same : change (a.get id) = change' (a.get id)) : a.modify id change = a.modify id change' := by
  refine congrArg Arena.mk (Array.ext (by simp) fun i h h' => ?_)
  rw [Array.getElem_modify, Array.getElem_modify]
  split
  · rename_i here
    subst here
    have inside : id.index < a.functions.size := by simpa using h
    simpa [get, inside] using same
  · rfl

end Arena
end ObjectLang
