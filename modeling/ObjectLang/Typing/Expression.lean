import ObjectLang.Typing.Visit
set_option autoImplicit false

/-!
# Types of expressions

Expressions are visited from left to right, up to the first error. A call that is not bound yet is
bound first: by name and argument types, or as a method of the type of its receiver. Its target is
checked before the arguments are compared with the parameters, and so has its return type.
-/

namespace ObjectLang.Typing

def visitVar (name : String) (noted : Option TypeId) (line : Nat) (s : State) :
    Visited (Expr.var name noted line).weight :=
  let v := Expr.var name noted line
  match s.scopes.get? name with
  | some (.value type) => ⟨.var name (some type) line, Nat.le_refl _, s, .ok type⟩
  | some (.type _) => .leaf v s (.error (.typeUsedAsValue name))
  | none => .leaf v s (.error (.undeclaredVariable name))

def fieldOf {n : Nat} (base : Visited n) (name : String) (noted : Option TypeId) (line : Nat) :
    Visited (n + 1) :=
  let result := base.result.bind fun type => fieldType base.state.program type name
  let noted := match result with
    | .ok type => some type
    | .error _ => noted
  ⟨.field base.expr name noted line, Nat.succ_le_succ base.weight_le, base.state, result⟩

def arrayType (element : TypeId) (s : State) (checked : Except TypeError Unit) :
    State × Except TypeError TypeId :=
  match checked with
  | .ok () =>
    let (type, program) := s.program.arrayOf element
    ({ s with program }, .ok type)
  | .error e => (s, .error e)

def referenceType {n : Nat} (place : Visited n) : State × Except TypeError TypeId :=
  match place.result with
  | .ok type =>
    let (type, program) := place.state.program.referenceTo type
    ({ place.state with program }, .ok type)
  | .error e => (place.state, .error e)

def namedType? (s : State) : Expr → Option TypeId
  | .var name _ _ =>
    match s.scopes.get? name with
    | some (.type type) => some type
    | _ => none
  | _ => none

/-- Binds a call to a method of its visited receiver, which becomes the first argument unless it
    is one already or the method is static. -/
def bindMethod {n m : Nat} (base : Visited n) (name : String) (noted : Option TypeId)
    (line : Nat) (arguments : List Expr) (injected : Bool) (le : Expr.weights arguments ≤ m) :
    Resolved (n + 1 + m) :=
  let callee := Expr.field base.expr name noted line
  have hb := base.weight_le
  have hc : callee.weight = base.expr.weight + 1 := rfl
  match base.result.bind fun type =>
    methodTarget base.state.program (base.state.program.types.dereference type) name with
  | .error e => .failed e callee arguments base.state (by omega)
  | .ok target =>
    if injected || (base.state.program.function target).traits.isStatic then
      .bound target callee arguments injected base.state (by omega)
    else
      .bound target callee (base.expr :: arguments) true base.state
        (by simp only [Expr.weights]; omega)

mutual

def visit (c : Context) (e : Expr) (s : State) : Visited e.weight :=
  match e with
  | .binary op lhs rhs line =>
    let l := visit c lhs s
    let r := l.next (visit c rhs)
    ⟨.binary op l.expr r.expr line,
      by have := l.weight_le; have := r.weight_le; simp only [Expr.weight]; omega, r.state,
      do binaryType r.state.program op (← l.result) (← r.result)⟩
  | .literal value line => .leaf (.literal value line) s (.ok value.type)
  | .var name noted line => visitVar name noted line s
  | .field base name noted line => fieldOf (visit c base s) name noted line
  | .new type line => .leaf (.new type line) s (.ok type)
  | .allocate element size line =>
    let v := visit c size s
    let (t, result) := arrayType element v.state (v.result.bind (checkSize v.state.program))
    ⟨.allocate element v.expr line, Nat.succ_le_succ v.weight_le, t, result⟩
  | .array element items line =>
    let v := visitAll c (checkItem element) items s
    let (t, result) := arrayType element v.state (v.result.map fun _ => ())
    ⟨.array element v.exprs line, Nat.succ_le_succ v.weights_le, t, result⟩
  | .index array index line =>
    let a := (visit c array s).judge elementType
    let i := a.next (visit c index)
    ⟨.index a.expr i.expr line,
      by have := a.weight_le; have := i.weight_le; simp only [Expr.weight]; omega, i.state,
      do
        checkIndex i.state.program (← i.result)
        a.result⟩
  | .reference expr line =>
    if expr.isName then
      let v := visit c expr s
      let (t, result) := referenceType v
      ⟨.reference v.expr line, Nat.succ_le_succ v.weight_le, t, result⟩
    else .leaf (.reference expr line) s (.error .referenceOfNonVariable)
  | .cast expr type line =>
    let v := visit c expr s
    ⟨.cast v.expr type line, Nat.succ_le_succ v.weight_le, v.state, v.result.map fun _ => type⟩
  | .call callee arguments (some target) injected line =>
    let v := visitAll c (fun _ _ => .ok ()) arguments (c.checkTarget target s)
    ⟨.call callee v.exprs (some target) injected line, Nat.succ_le_succ v.weights_le, v.state,
      v.result.bind (callType v.state.program target injected)⟩
  | .call callee arguments none injected line =>
    match resolve c callee arguments injected s with
    | .failed e callee arguments t le =>
      ⟨.call callee arguments none injected line, Nat.succ_le_succ le, t, .error e⟩
    | .bound target callee bound injected t le =>
      let v := visitAll c (fun _ _ => .ok ()) bound (c.checkTarget target t)
      ⟨.call callee v.exprs (some target) injected line,
        Nat.succ_le_succ (Nat.le_trans v.weights_le le), v.state,
        v.result.bind (callType v.state.program target injected)⟩
termination_by 2 * e.weight
decreasing_by all_goals simp only [Expr.weight]; omega

/-- Visits expressions in order; each of their types must be accepted. -/
def visitAll (c : Context) (accept : Program → TypeId → Except TypeError Unit) (es : List Expr)
    (s : State) : VisitedList (Expr.weights es) :=
  match es with
  | [] => ⟨[], Nat.le_refl _, s, .ok []⟩
  | e :: rest =>
    have _ := e.weight_pos
    let v := visit c e s
    match v.result.bind fun type => (accept v.state.program type).map fun _ => type with
    | .error fault =>
      ⟨v.expr :: rest, Nat.add_le_add_right v.weight_le _, v.state, .error fault⟩
    | .ok type =>
      let vs := visitAll c accept rest v.state
      ⟨v.expr :: vs.exprs, Nat.add_le_add v.weight_le vs.weights_le, vs.state,
        vs.result.map fun types => type :: types⟩
termination_by 2 * Expr.weights es + 1
decreasing_by all_goals simp only [Expr.weights]; omega

/-- Finds the target of a call by its callee and the types of its arguments or receiver. -/
def resolve (c : Context) (callee : Expr) (arguments : List Expr) (injected : Bool) (s : State) :
    Resolved (callee.weight + Expr.weights arguments) :=
  match callee with
  | .var name noted line =>
    let v := visitAll c (fun _ _ => .ok ()) arguments s
    match v.result.bind (freeTarget (c.module? v.state) v.state.program name) with
    | .ok target =>
      .bound target (.var name noted line) v.exprs injected v.state
        (Nat.le_trans v.weights_le (Nat.le_add_left _ _))
    | .error e =>
      .failed e (.var name noted line) v.exprs v.state (Nat.add_le_add_left v.weights_le _)
  | .field base name noted line =>
    match namedType? s base with
    | some type =>
      match methodTarget s.program type name with
      | .ok target =>
        .bound target (.field base name noted line) arguments injected s (Nat.le_add_left _ _)
      | .error e => .failed e (.field base name noted line) arguments s (Nat.le_refl _)
    | none => bindMethod (visit c base s) name noted line arguments injected (Nat.le_refl _)
  | callee => .failed .notCallable callee arguments s (Nat.le_refl _)
termination_by 2 * (callee.weight + Expr.weights arguments) + 1
decreasing_by all_goals simp only [Expr.weight]; omega

end

end ObjectLang.Typing
