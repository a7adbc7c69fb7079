import ObjectLang.Syntax.Function
import ObjectLang.Ty.Registry
set_option autoImplicit false

/-!
# Programs

The tables that all files share, and what they say about the type of an expression.
-/

namespace ObjectLang

structure Program where
  types : Registry := .initial
  functions : Arena := {}
  deriving Inhabited

namespace Program

def function (p : Program) (id : FunctionId) : Function := p.functions.get id

def addFunction (p : Program) (f : Function) : FunctionId × Program :=
  let (id, functions) := p.functions.add f
  (id, { p with functions })

def modifyFunction (p : Program) (id : FunctionId) (change : Function → Function) : Program :=
  { p with functions := p.functions.modify id change }

def arrayOf (p : Program) (element : TypeId) : TypeId × Program :=
  let (id, types) := p.types.arrayOf element
  (id, { p with types })

def referenceTo (p : Program) (referent : TypeId) : TypeId × Program :=
  let (id, types) := p.types.referenceTo referent
  (id, { p with types })

/-- The type of an expression as far as it is known. Variables and fields have it noted on them,
    and a call has the return type of its target. -/
def typeOf? (p : Program) : Expr → Option TypeId
  | .binary op lhs _ _ => if op.isBoolean then some .bool else p.typeOf? lhs
  | .literal value _ => some value.type
  | .var _ type _ => type
  | .field _ _ type _ => type
  | .new type _ => some type
  | .allocate element _ _ => p.types.findArray? element
  | .array element _ _ => p.types.findArray? element
  | .index array _ _ => (p.typeOf? array).bind p.types.element?
  | .reference expr _ => (p.typeOf? expr).bind p.types.findReference?
  | .cast _ type _ => some type
  | .call _ _ target _ _ => target.map fun id => (p.function id).returnType

end Program
end ObjectLang
