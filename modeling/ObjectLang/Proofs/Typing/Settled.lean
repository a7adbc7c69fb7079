import ObjectLang.Proofs.Typing.Judgement
set_option autoImplicit false

/-!
# Settled types

When checking is over, the type of a checked expression can be read off the tree: it is noted there,
or it follows from the return type of the target of a call. While checking went on, a call of a
function that was not left yet was taken for `Void`, and so was arithmetic with such a call on the
left. Everything else had its settled type from the beginning.
-/

namespace ObjectLang

/-- The type of a checked expression under the return types that a program has. -/
def Program.settledType (p : Program) : Expr → TypeId
  | .binary op lhs _ _ => if op.isBoolean then .bool else p.settledType lhs
  | .literal value _ => value.type
  | .var _ type _ => type.getD .void
  | .field _ _ type _ => type.getD .void
  | .new type _ => type
  | .allocate element _ _ => (p.types.findArray? element).getD .void
  | .array element _ _ => (p.types.findArray? element).getD .void
  | .index base _ _ => (p.types.element? (p.types.dereference (p.settledType base))).getD .void
  | .reference expr _ => (p.types.findReference? (p.settledType expr)).getD .void
  | .cast _ type _ => type
  | .call _ _ target _ _ => (target.map fun f => (p.function f).returnType).getD .void

mutual

/-- Whether the operands of every operator have equal settled types. -/
def Expr.agrees (p : Program) (e : Expr) : Bool :=
  match e with
  | .binary _ lhs rhs _ =>
    lhs.agrees p && rhs.agrees p && p.types.equals (p.settledType lhs) (p.settledType rhs)
  | .literal .. | .var .. | .new .. => true
  | .field base _ _ _ => base.agrees p
  | .allocate _ size _ => size.agrees p
  | .array _ items _ => Expr.allAgree p items
  | .index base place _ => base.agrees p && place.agrees p
  | .reference expr _ => expr.agrees p
  | .cast expr _ _ => expr.agrees p
  | .call _ arguments _ _ _ => Expr.allAgree p arguments
termination_by structural e

def Expr.allAgree (p : Program) (es : List Expr) : Bool :=
  match es with
  | [] => true
  | e :: rest => e.agrees p && Expr.allAgree p rest
termination_by structural es

end

mutual

/-- Whether the operands of every operator, and the sides of every assignment that declares
    nothing, have equal settled types. -/
def Statement.agrees (p : Program) (statement : Statement) : Bool :=
  match statement with
  | .block statements _ => Statement.allAgree p statements
  | .assign declares target _ value _ =>
    value.agrees p && (declares || target.agrees p &&
      p.types.equals (p.settledType value) (p.settledType target))
  | .ret value _ => value.agrees p
  | .ifThen condition body _ => condition.agrees p && body.agrees p
  | .ifElse condition body otherwise _ =>
    condition.agrees p && body.agrees p && otherwise.agrees p
  | .whileLoop condition body _ => condition.agrees p && body.agrees p
  | .forLoop first condition step body _ =>
    first.agrees p && condition.agrees p && step.agrees p && body.agrees p
  | .call callee arguments target injected line =>
    (Expr.call callee arguments target injected line).agrees p
termination_by structural statement

def Statement.allAgree (p : Program) (statements : List Statement) : Bool :=
  match statements with
  | [] => true
  | statement :: rest => statement.agrees p && Statement.allAgree p rest
termination_by structural statements

end

namespace Typing

section

variable {p : Program} {returns : FunctionId → TypeId → Prop} {Γ : Scopes Meaning}

theorem HasType.settledType_name {e : Expr} {type : TypeId} (h : HasType p returns Γ e type)
    (named : e.isName = true) : p.settledType e = type := by
  cases h <;> first | rfl | cases named

theorem element?_dereference_void (hp : p.Tables) :
    p.types.element? (p.types.dereference .void) = none := by
  have hget : p.types.get .void = .primitive .void := hp.primitives .void
  simp only [Registry.element?, Registry.dereference, hget]

/-- A type that was found is the settled one, or it was `Void` by then; if `E` is false, every
    call was taken for what its target returns. -/
theorem HasType.settledType_or {E : Prop} (hp : p.Tables)
    (hr : ∀ f type, returns f type → type = (p.function f).returnType ∨ E ∧ type = .void)
    {e : Expr} {type : TypeId} (h : HasType p returns Γ e type) :
    type = p.settledType e ∨ E ∧ type = .void := by
  cases h with
  | binary op lhs rhs line a b _ left right rule =>
    obtain ⟨-, rfl⟩ := binaryType_eq_ok.1 rule
    rw [Program.settledType]
    split
    · exact .inl rfl
    · exact left.settledType_or hp hr
  | literal value line => exact .inl rfl
  | var name _ line bound => exact .inl rfl
  | field base name line owner _ object rule => exact .inl rfl
  | new _ line known object => exact .inl rfl
  | allocate element size line count _ sized rule found =>
    rw [Program.settledType, found]
    exact .inl rfl
  | array element items line types _ literals typed rule found =>
    rw [Program.settledType, found]
    exact .inl rfl
  | index base place line array index _ stored rule placed int =>
    have found := elementType_eq_ok.1 rule
    rcases stored.settledType_or hp hr with settled | ⟨-, void⟩
    · rw [Program.settledType, ← settled, found]
      exact .inl rfl
    · rw [void, element?_dereference_void hp] at found
      cases found
  | reference expr line referent _ named typed found =>
    rw [Program.settledType, typed.settledType_name named, found]
    exact .inl rfl
  | cast expr _ line source typed known => exact .inl rfl
  | call callee arguments target injected line types _ leads typed arity pairs receiver result =>
    exact hr target type result
termination_by structural e

theorem HasType.eq_settledType (hp : p.Tables)
    (hr : ∀ f type, returns f type → type = (p.function f).returnType)
    {e : Expr} {type : TypeId} (h : HasType p returns Γ e type) : type = p.settledType e := by
  rcases h.settledType_or (E := False) hp fun f t ht => .inl (hr f t ht) with settled | ⟨no, -⟩
  · exact settled
  · exact absurd no not_false

theorem HaveTypes.eq_settledType (hp : p.Tables)
    (hr : ∀ f type, returns f type → type = (p.function f).returnType) {es : List Expr}
    {types : List TypeId} (h : HaveTypes p returns Γ es types) :
    types = es.map p.settledType := by
  induction es generalizing types with
  | nil =>
    cases h
    rfl
  | cons e rest ih =>
    cases h with
    | cons _ _ type types head tail => rw [head.eq_settledType hp hr, ih tail, List.map_cons]

end
end Typing
end ObjectLang
