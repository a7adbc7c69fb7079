import ObjectLang.Machine.Native
import ObjectLang.Proofs.Shapes.Shape
import ObjectLang.Proofs.Typing.Settled
set_option autoImplicit false

/-!
# Programs that keep shapes

Checking takes the base of all objects for equal to every type, and a cast may go anywhere. A
program keeps shapes if it uses neither to take a value for what it is not: what passes for
anything is not taken for an array or an object of a certain type, and not stored in slots. Only a
fresh array of the host may become an array of any type.
-/

namespace ObjectLang

open Typing

def Function.isHost (f : Function) (native : Machine.Native) : Bool :=
  f.isNative && Machine.Native.named? f.name == some native

namespace Program

/-- What an expression is meant to evaluate to. -/
def shape (p : Program) (e : Expr) : Shape := p.types.shape (p.settledType e)

/-- What an expression holds when it is assigned to. -/
def placeShape (p : Program) : Expr → Shape
  | .index base place line => (p.shape (.index base place line)).asSlot
  | e => p.shape e

/-- Whether what a call gives passes for `expected`. -/
def gives (p : Program) (f : Function) (expected : Shape) : Bool :=
  if f.isHost .malloc then expected.isArray || expected == .any
  else p.types.passes (p.types.shape f.returnType) expected

/-- What a call expects of its arguments. The host takes anything, but copies slots only between
    arrays of one shape. -/
def expects (p : Program) (f : Function) (arguments : List Expr) : List Shape :=
  if f.isNative then
    match f.isHost .memcpy, arguments with
    | true, dest :: _ :: rest =>
      let slots := if (p.shape dest).isArray then p.shape dest else .array .plain
      slots :: slots :: rest.map fun _ => .any
    | _, arguments => arguments.map fun _ => .any
  else f.parameterTypes.map p.types.shape

end Program

namespace Expr

/-- Whether what the expression evaluates to passes for `expected`. -/
def flows (p : Program) (expected : Shape) : Expr → Bool
  | binary .. | literal .. => true
  | cast expr _ _ => expr.flows p expected
  | call _ _ (some target) _ _ => p.gives (p.function target) expected
  | e => p.types.passes (p.shape e) expected

def allFlow (p : Program) : List Shape → List Expr → Bool
  | [], [] => true
  | expected :: more, e :: rest => e.flows p expected && allFlow p more rest
  | _, _ => false

/-- Whether the value of the expression is one that its type is meant for. -/
def isSteady (p : Program) (e : Expr) : Bool := e.flows p (p.shape e)

mutual

/-- Whether fields are read from objects, slots from arrays, and calls get what they expect. -/
def keepsShapes (p : Program) (e : Expr) : Bool :=
  match e with
  | .binary _ lhs rhs _ => lhs.keepsShapes p && rhs.keepsShapes p
  | .literal .. | .var .. | .new .. => true
  | .field base _ _ _ => base.keepsShapes p && base.isSteady p && (p.shape base).isObject
  | .allocate _ size _ => size.keepsShapes p
  | .array _ items _ => allKeepShapes p items
  | .index base place _ => base.keepsShapes p && base.isSteady p && place.keepsShapes p
  | .reference expr _ => expr.keepsShapes p
  | .cast expr _ _ => expr.keepsShapes p
  | .call _ arguments target _ _ =>
    allKeepShapes p arguments &&
      target.all fun f => allFlow p (p.expects (p.function f) arguments) arguments
termination_by structural e

def allKeepShapes (p : Program) (es : List Expr) : Bool :=
  match es with
  | [] => true
  | e :: rest => e.keepsShapes p && allKeepShapes p rest
termination_by structural es

end
end Expr

namespace Statement

mutual

/-- Whether, inside the function `current`, values are stored and returned only where they pass for
    what is meant to be there. -/
def keepsShapes (p : Program) (current : FunctionId) (statement : Statement) : Bool :=
  match statement with
  | .block statements _ => allKeepShapes p current statements
  | .assign _ target _ value _ =>
    value.keepsShapes p && value.flows p (p.placeShape target) && target.keepsShapes p
  | .ret value _ =>
    value.keepsShapes p && value.flows p (p.types.shape (p.function current).returnType)
  | .ifThen condition body _ => condition.keepsShapes p && body.keepsShapes p current
  | .ifElse condition body otherwise _ =>
    condition.keepsShapes p && body.keepsShapes p current && otherwise.keepsShapes p current
  | .whileLoop condition body _ => condition.keepsShapes p && body.keepsShapes p current
  | .forLoop first condition step body _ =>
    first.keepsShapes p current && condition.keepsShapes p && step.keepsShapes p current &&
      body.keepsShapes p current
  | .call callee arguments target injected line =>
    (Expr.call callee arguments target injected line).keepsShapes p
termination_by structural statement

def allKeepShapes (p : Program) (current : FunctionId) (statements : List Statement) : Bool :=
  match statements with
  | [] => true
  | statement :: rest => statement.keepsShapes p current && allKeepShapes p current rest
termination_by structural statements

end
end Statement

namespace Program

/-- What the receiver of a method is meant to be. -/
def receiverShape (p : Program) (f : Function) : Shape :=
  if f.isNative then .any else (f.parameterTypes.head?.map p.types.shape).getD .any

/-- Calls of `f` with a receiver of the type may run `g`: that is checked, takes the receiver, and
    has other parameters and results of the same shapes. -/
structure Alike (p : Program) (entered : List FunctionId) (type : TypeId) (f g : FunctionId) :
    Prop where
  written : (p.function f).isNative = false ∧ (p.function g).isNative = false
  entered : g ∈ entered
  receiver : p.types.passes (.object type) (p.receiverShape (p.function g)) = true
  parameters : (p.function g).parameterTypes.tail.map p.types.shape =
    (p.function f).parameterTypes.tail.map p.types.shape
  result : p.types.shape (p.function g).returnType = p.types.shape (p.function f).returnType

instance (p : Program) (entered : List FunctionId) (type : TypeId) (f g : FunctionId) :
    Decidable (p.Alike entered type f g) :=
  decidable_of_iff
    (((p.function f).isNative = false ∧ (p.function g).isNative = false) ∧ g ∈ entered ∧
      p.types.passes (.object type) (p.receiverShape (p.function g)) = true ∧
      (p.function g).parameterTypes.tail.map p.types.shape =
        (p.function f).parameterTypes.tail.map p.types.shape ∧
      p.types.shape (p.function g).returnType = p.types.shape (p.function f).returnType)
    ⟨fun ⟨written, entered, receiver, parameters, result⟩ =>
        ⟨written, entered, receiver, parameters, result⟩,
      fun ⟨written, entered, receiver, parameters, result⟩ =>
        ⟨written, entered, receiver, parameters, result⟩⟩

/-- Every function that may run in place of `f` is like it. -/
def StandInsAlike (p : Program) (entered : List FunctionId) (f : FunctionId) : Prop :=
  (p.function f).traits.isDispatched = true → (p.function f).traits.isStatic = false →
    ∀ i < p.types.size, p.types.passes (.object ⟨i⟩) (p.receiverShape (p.function f)) = true →
      ∀ g ∈ p.types.findMethod? ⟨i⟩ (p.function f).name, g = f ∨ p.Alike entered ⟨i⟩ f g

instance (p : Program) (entered : List FunctionId) (f : FunctionId) :
    Decidable (p.StandInsAlike entered f) := by
  unfold StandInsAlike
  infer_instance

/-- A field that a type declares again has the shape that it has in the ancestors. -/
def FieldsAgree (p : Program) : Prop :=
  ∀ i < p.types.size, ∀ owner ∈ p.types.ancestry ⟨i⟩, ∀ x ∈ p.types.ownFields owner,
    (p.types.fieldType? ⟨i⟩ x.1).map p.types.shape = some (p.types.shape x.2)

instance (p : Program) : Decidable p.FieldsAgree := by
  unfold FieldsAgree
  infer_instance

/-- Nothing in the checked program is taken for what it is not. -/
structure KeepsShapes (p : Program) (entered : List FunctionId) : Prop where
  fields : p.FieldsAgree
  methods : ∀ f ∈ entered, p.StandInsAlike entered f
  bodies : ∀ f ∈ entered, Statement.allKeepShapes p f (p.function f).body = true

instance (p : Program) (entered : List FunctionId) : Decidable (p.KeepsShapes entered) :=
  decidable_of_iff
    (p.FieldsAgree ∧ (∀ f ∈ entered, p.StandInsAlike entered f) ∧
      ∀ f ∈ entered, Statement.allKeepShapes p f (p.function f).body = true)
    ⟨fun ⟨fields, methods, bodies⟩ => ⟨fields, methods, bodies⟩,
      fun ⟨fields, methods, bodies⟩ => ⟨fields, methods, bodies⟩⟩

section Fields

variable {p : Program}

/-- Objects of a derived type have a field of an ancestor, with the same shape. -/
theorem FieldsAgree.inherited (h : p.FieldsAgree) {type owner field : TypeId} {name : String}
    (known : p.types.Knows type) (derives : p.types.derivesFrom type owner = true)
    (found : p.types.fieldType? owner name = some field) :
    (p.types.fieldType? type name).map p.types.shape = some (p.types.shape field) := by
  obtain ⟨declares, above, own⟩ := Registry.exists_ownField found
  have derived := Registry.derivesFrom_trans derives above
  exact h type.index known declares (List.contains_iff_mem.1 derived) _ own

/-- The fields that an object begins with have the shapes that they are read with. -/
theorem FieldsAgree.laid_out (h : p.FieldsAgree) {type : TypeId} {x : String × TypeId}
    (known : p.types.Knows type) (mem : x ∈ p.types.fields type) :
    (p.types.fieldType? type x.1).map p.types.shape = some (p.types.shape x.2) := by
  obtain ⟨owner, derives, own⟩ := Registry.exists_of_mem_fields mem
  exact h type.index known owner (List.contains_iff_mem.1 derives) x own

end Fields
end Program
end ObjectLang
