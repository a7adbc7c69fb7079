set_option autoImplicit false

/-!
# Handles

Types and functions are numbered in the order in which they become known. Trees, tables and values
refer to them by number, so a definition can be completed after it was first referred to.
-/

namespace ObjectLang

structure TypeId where
  index : Nat
  deriving DecidableEq, Repr, Hashable, Inhabited

namespace TypeId

/- The types that every registry begins with. -/
def int : TypeId := ⟨0⟩
def float : TypeId := ⟨1⟩
def bool : TypeId := ⟨2⟩
def char : TypeId := ⟨3⟩
def void : TypeId := ⟨4⟩

/-- The base of all objects, and the type of `None`. It is equal to every type. -/
def object : TypeId := ⟨5⟩

end TypeId

structure FunctionId where
  index : Nat
  deriving DecidableEq, Repr, Hashable, Inhabited

end ObjectLang
