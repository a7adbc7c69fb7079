import ObjectLang.Proofs.Typing.Rule
import ObjectLang.Typing.Statement
set_option autoImplicit false

/-!
# Typing judgements

What it means that a tree has been checked, without the traversal that does it: every part has a
type, noted where there is a place for it, every call is bound, and all rules accept the types.

Which type a call of a function has is left open. It is the return type, once that is decided, but
a call that is checked before may have been taken for `Void`.
-/

namespace ObjectLang.Typing

def Receives (p : Program) (target : FunctionId) : List TypeId → Prop
  | [] => False
  | receiver :: _ =>
    ∃ name, p.types.findMethod? (p.types.dereference receiver) name = some target

section Judgements

variable (p : Program) (returns : FunctionId → TypeId → Prop)

mutual

/-- The expression has the type where the names in `Γ` are visible. -/
inductive HasType (Γ : Scopes Meaning) : Expr → TypeId → Prop
  | binary (op : BinaryOperator) (lhs rhs : Expr) (line : Nat) (a b type : TypeId)
    (left : HasType Γ lhs a) (right : HasType Γ rhs b)
    (rule : binaryType p op a b = .ok type) : HasType Γ (.binary op lhs rhs line) type
  | literal (value : Literal) (line : Nat) : HasType Γ (.literal value line) value.type
  | var (name : String) (type : TypeId) (line : Nat)
    (bound : Γ.get? name = some (.value type)) : HasType Γ (.var name (some type) line) type
  | field (base : Expr) (name : String) (line : Nat) (owner type : TypeId)
    (object : HasType Γ base owner) (rule : fieldType p owner name = .ok type) :
    HasType Γ (.field base name (some type) line) type
  | new (type : TypeId) (line : Nat) (known : p.types.Knows type)
    (object : p.types.isObject type = true) : HasType Γ (.new type line) type
  | allocate (element : TypeId) (size : Expr) (line : Nat) (count type : TypeId)
    (sized : HasType Γ size count) (rule : checkSize p count = .ok ())
    (found : p.types.findArray? element = some type) :
    HasType Γ (.allocate element size line) type
  | array (element : TypeId) (items : List Expr) (line : Nat) (types : List TypeId)
    (type : TypeId) (literals : ∀ e ∈ items, e.isLiteral = true) (typed : HaveTypes Γ items types)
    (rule : ∀ t ∈ types, checkItem element p t = .ok ())
    (found : p.types.findArray? element = some type) : HasType Γ (.array element items line) type
  | index (base place : Expr) (line : Nat) (array index type : TypeId)
    (stored : HasType Γ base array) (rule : elementType p array = .ok type)
    (placed : HasType Γ place index) (int : checkIndex p index = .ok ()) :
    HasType Γ (.index base place line) type
  | reference (expr : Expr) (line : Nat) (referent type : TypeId) (named : expr.isName = true)
    (typed : HasType Γ expr referent) (found : p.types.findReference? referent = some type) :
    HasType Γ (.reference expr line) type
  | cast (expr : Expr) (type : TypeId) (line : Nat) (source : TypeId)
    (typed : HasType Γ expr source) (known : p.types.Knows type) :
    HasType Γ (.cast expr type line) type
  | call (callee : Expr) (arguments : List Expr) (target : FunctionId) (injected : Bool)
    (line : Nat) (types : List TypeId) (type : TypeId)
    (leads : HasCallee Γ callee arguments target injected) (typed : HaveTypes Γ arguments types)
    (arity : (p.function target).parameters.length = types.length)
    (pairs : checkPairs p ((types.zip (p.function target).parameterTypes).drop
      (if injected then 1 else 0)) = .ok ())
    (receiver : injected = true → Receives p target types) (result : returns target type) :
    HasType Γ (.call callee arguments (some target) injected line) type

inductive HaveTypes (Γ : Scopes Meaning) : List Expr → List TypeId → Prop
  | nil : HaveTypes Γ [] []
  | cons (e : Expr) (rest : List Expr) (type : TypeId) (types : List TypeId)
    (head : HasType Γ e type) (tail : HaveTypes Γ rest types) :
    HaveTypes Γ (e :: rest) (type :: types)

/-- The callee leads to the target: as the name of a free function, as what constructs a list, or as
    the name of a method behind a type or a receiver. A receiver that the target wants is injected: it
    is the first argument, too. -/
inductive HasCallee (Γ : Scopes Meaning) : Expr → List Expr → FunctionId → Bool → Prop
  | free (name : String) (noted : Option TypeId) (line : Nat) (arguments : List Expr)
    (target : FunctionId) (named : (p.function target).name = name)
    (orphan : (p.function target).parent = none) :
    HasCallee Γ (.var name noted line) arguments target false
  | made (callee : Expr) (arguments : List Expr) (target : FunctionId)
    (makes : p.Makes callee target) : HasCallee Γ callee arguments target false
  | named (type : String) (noted : Option TypeId) (place : Nat) (name : String)
    (field : Option TypeId) (line : Nat) (arguments : List Expr) (target : FunctionId)
    (owner : TypeId) (bound : Γ.get? type = some (.type owner))
    (found : p.types.findMethod? owner name = some target) :
    HasCallee Γ (.field (.var type noted place) name field line) arguments target false
  | dropped (base : Expr) (name : String) (noted : Option TypeId) (line : Nat)
    (arguments : List Expr) (target : FunctionId) (owner : TypeId) (typed : HasType Γ base owner)
    (found : p.types.findMethod? (p.types.dereference owner) name = some target)
    (static : (p.function target).traits.isStatic = true) :
    HasCallee Γ (.field base name noted line) arguments target false
  | received (base : Expr) (name : String) (noted : Option TypeId) (line : Nat)
    (rest : List Expr) (target : FunctionId) (owner : TypeId) (typed : HasType Γ base owner)
    (found : p.types.findMethod? (p.types.dereference owner) name = some target)
    (dynamic : (p.function target).traits.isStatic = false) :
    HasCallee Γ (.field base name noted line) (base :: rest) target true

end

/-- The value may be returned: it is what a call of the function itself returns, or its type is the
    decided return type. -/
def Returnable (current : FunctionId) (value : Expr) (type : TypeId) : Prop :=
  isCallOf current value = true ∨
    type ≠ .void ∧ infersReturnType (p.function current) = false ∧
      checkReturned p (p.function current) type = .ok ()

mutual

/-- The statement is checked where the names in the first scopes are visible, and behind it those
    in the other ones are. -/
inductive Checks (current : FunctionId) : Scopes Meaning → Statement → Scopes Meaning → Prop
  | block (Γ Δ : Scopes Meaning) (statements : List Statement) (line : Nat)
    (inside : ChecksAll current (Γ.openSegment []) statements Δ) :
    Checks current Γ (.block statements line) Γ
  | declare (Γ : Scopes Meaning) (name : String) (written : Option TypeId) (value : Expr)
    (nameLine line : Nat) (found type : TypeId) (typed : HasType p returns Γ value found)
    (fresh : Γ.isDeclaredLocal name = false) (filled : found ≠ .void)
    (known : ∀ t ∈ written, p.types.Knows t) (rule : declaredType p found written = .ok type) :
    Checks current Γ (.assign true (.var name (some type) nameLine) written value line)
      (Γ.push name (.value type))
  | assign (Γ : Scopes Meaning) (target : Expr) (written : Option TypeId) (value : Expr)
    (line : Nat) (found type : TypeId) (typed : HasType p returns Γ value found)
    (place : HasType p returns Γ target type) (rule : checkAssigned p found type = .ok ()) :
    Checks current Γ (.assign false target written value line) Γ
  | ret (Γ : Scopes Meaning) (value : Expr) (line : Nat) (type : TypeId)
    (typed : HasType p returns Γ value type) (rule : Returnable p current value type) :
    Checks current Γ (.ret value line) Γ
  | ifThen (Γ Δ : Scopes Meaning) (test : Expr) (body : Statement) (line : Nat)
    (holds : HasType p returns Γ test .bool)
    (inside : Checks current (Γ.openSegment []) body Δ) :
    Checks current Γ (.ifThen test body line) Γ
  | ifElse (Γ Δ Δ' : Scopes Meaning) (test : Expr) (body otherwise : Statement) (line : Nat)
    (holds : HasType p returns Γ test .bool)
    (inside : Checks current (Γ.openSegment []) body Δ)
    (inside' : Checks current (Γ.openSegment []) otherwise Δ') :
    Checks current Γ (.ifElse test body otherwise line) Γ
  | whileLoop (Γ Δ : Scopes Meaning) (test : Expr) (body : Statement) (line : Nat)
    (holds : HasType p returns Γ test .bool)
    (inside : Checks current (Γ.openSegment []) body Δ) :
    Checks current Γ (.whileLoop test body line) Γ
  | forLoop (Γ Γ' Δ : Scopes Meaning) (first : Statement) (test : Expr) (step body : Statement)
    (line : Nat) (begins : Checks current (Γ.openSegment []) first Γ')
    (holds : HasType p returns Γ' test .bool) (steps : Checks current Γ' step Γ')
    (inside : Checks current (Γ'.openSegment []) body Δ) :
    Checks current Γ (.forLoop first test step body line) Γ
  | call (Γ : Scopes Meaning) (callee : Expr) (arguments : List Expr)
    (target : Option FunctionId) (injected : Bool) (line : Nat) (type : TypeId)
    (typed : HasType p returns Γ (.call callee arguments target injected line) type) :
    Checks current Γ (.call callee arguments target injected line) Γ

inductive ChecksAll (current : FunctionId) :
    Scopes Meaning → List Statement → Scopes Meaning → Prop
  | nil (Γ : Scopes Meaning) : ChecksAll current Γ [] Γ
  | cons (Γ Γ' Γ'' : Scopes Meaning) (statement : Statement) (rest : List Statement)
    (head : Checks current Γ statement Γ') (tail : ChecksAll current Γ' rest Γ'') :
    ChecksAll current Γ (statement :: rest) Γ''

end

end Judgements

def KnownScopes (p : Program) (Γ : Scopes Meaning) : Prop :=
  ∀ name type, Γ.get? name = some (.value type) → p.types.Knows type

theorem get_of_element? {r : Registry} {id element : TypeId} (h : r.element? id = some element) :
    r.get id = .array element := by
  unfold Registry.element? at h
  split at h
  · rename_i e he
    cases h
    exact he
  · cases h

theorem knows_element {r : Registry} {id element : TypeId} (h : r.element? id = some element) :
    r.Knows element := by
  have hget := get_of_element? h
  have known : r.Knows id := Registry.knows_of_get_ne_void (by rw [hget]; nofun)
  exact Registry.knows_component known (by simp [hget, Ty.components])

section Known

variable {p : Program} {returns : FunctionId → TypeId → Prop} {Γ : Scopes Meaning}

theorem HasType.knows (hp : p.Tables) (hΓ : KnownScopes p Γ)
    (hr : ∀ f type, returns f type → p.types.Knows type) {e : Expr} {type : TypeId}
    (h : HasType p returns Γ e type) : p.types.Knows type := by
  cases h with
  | binary op lhs rhs line a b _ left right rule =>
    obtain ⟨-, rfl⟩ := binaryType_eq_ok.1 rule
    split
    · exact hp.knows_primitive .bool
    · exact left.knows hp hΓ hr
  | literal value line =>
    exact hp.knows_literal value
  | var name _ line bound => exact hΓ name type bound
  | field base name line owner _ object rule =>
    exact hp.knows_fieldType? (fieldType_eq_ok.1 rule).2
  | new _ line known object => exact known
  | allocate element size line count _ sized rule found => exact (Registry.get_of_find? found).1
  | array element items line types _ literals typed rule found =>
    exact (Registry.get_of_find? found).1
  | index base place line array index _ stored rule placed int =>
    exact knows_element (elementType_eq_ok.1 rule)
  | reference expr line referent _ named typed found => exact (Registry.get_of_find? found).1
  | cast expr _ line source typed known => exact known
  | call callee arguments target injected line types _ leads typed arity pairs receiver result =>
    exact hr target type result
termination_by structural e

theorem HaveTypes.knows (hp : p.Tables) (hΓ : KnownScopes p Γ)
    (hr : ∀ f type, returns f type → p.types.Knows type) {es : List Expr} {types : List TypeId}
    (h : HaveTypes p returns Γ es types) : ∀ t ∈ types, p.types.Knows t := by
  induction es generalizing types with
  | nil =>
    cases h
    exact nofun
  | cons e rest ih =>
    cases h with
    | cons _ _ type types head tail =>
      intro t ht
      rcases List.mem_cons.1 ht with rfl | ht
      · exact head.knows hp hΓ hr
      · exact ih tail t ht

end Known
end ObjectLang.Typing
