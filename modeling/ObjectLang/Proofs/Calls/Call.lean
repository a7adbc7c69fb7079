import ObjectLang.Proofs.Scoping.Site
set_option autoImplicit false

/-!
# Calls of a body

The calls that a tree makes when it runs, as far as they can be told from the tree: what they are bound
to, whether their first argument is the receiver, and with how many arguments. In a body that has been
checked, every call is bound to a function with as many parameters.
-/

namespace ObjectLang

/-- A call as it stands in a tree. -/
structure Call where
  target : Option FunctionId
  /-- The receiver is the first argument. -/
  injected : Bool
  /-- The number of arguments, with the receiver. -/
  count : Nat
  deriving DecidableEq, Repr

mutual

/-- The calls of an expression. The callee of a call is not evaluated. -/
def Expr.calls (e : Expr) : List Call :=
  match e with
  | .binary _ lhs rhs _ => lhs.calls ++ rhs.calls
  | .literal .. | .var .. | .new .. => []
  | .field base _ _ _ => base.calls
  | .allocate _ size _ => size.calls
  | .array _ items _ => Expr.allCalls items
  | .index base place _ => base.calls ++ place.calls
  | .reference expr _ => expr.calls
  | .cast expr _ _ => expr.calls
  | .call _ arguments target injected _ =>
    ⟨target, injected, arguments.length⟩ :: Expr.allCalls arguments
termination_by structural e

def Expr.allCalls (es : List Expr) : List Call :=
  match es with
  | [] => []
  | e :: rest => e.calls ++ Expr.allCalls rest
termination_by structural es

end

namespace Statement

mutual

def calls (statement : Statement) : List Call :=
  match statement with
  | .block statements _ => allCalls statements
  | .assign _ target _ value _ => value.calls ++ target.calls
  | .ret value _ => value.calls
  | .ifThen condition body _ => condition.calls ++ body.calls
  | .ifElse condition body otherwise _ => condition.calls ++ (body.calls ++ otherwise.calls)
  | .whileLoop condition body _ => condition.calls ++ body.calls
  | .forLoop first condition step body _ =>
    first.calls ++ (condition.calls ++ (step.calls ++ body.calls))
  | .call callee arguments target injected line =>
    (Expr.call callee arguments target injected line).calls
termination_by structural statement

def allCalls (statements : List Statement) : List Call :=
  match statements with
  | [] => []
  | statement :: rest => statement.calls ++ allCalls rest
termination_by structural statements

end

end Statement

namespace Typing

variable {p : Program} {returns : FunctionId → TypeId → Prop} {current : FunctionId}
  {Γ Γ' : Scopes Meaning}

/-- The call is bound to a function that calls are taken for, and fits its parameters; a receiver has
    the function as a method. -/
structure Targets (p : Program) (returns : FunctionId → TypeId → Prop) (call : Call)
    (target : FunctionId) : Prop where
  bound : call.target = some target
  returns : ∃ type, returns target type
  arity : (p.function target).parameters.length = call.count
  receiver : call.injected = true → ∃ owner name, p.types.findMethod? owner name = some target

mutual

theorem HasType.targets {e : Expr} {type : TypeId} (h : HasType p returns Γ e type) :
    ∀ call ∈ e.calls, ∃ target, Targets p returns call target := by
  cases h with
  | binary op lhs rhs line a b _ left right rule =>
    exact List.forall_mem_append.2 ⟨left.targets, right.targets⟩
  | literal value line => exact nofun
  | var name _ line visible => exact nofun
  | field base name line owner _ object rule => exact object.targets
  | new _ line known object => exact nofun
  | allocate element size line count _ sized rule found => exact sized.targets
  | array element items line types _ literals typed rule found => exact typed.targets
  | index base place line array index _ stored rule placed int =>
    exact List.forall_mem_append.2 ⟨stored.targets, placed.targets⟩
  | reference expr line referent _ named typed found => exact typed.targets
  | cast expr _ line source typed known => exact typed.targets
  | call callee arguments target injected line types _ leads typed arity pairs receiver result =>
    refine List.forall_mem_cons.2 ⟨⟨target, rfl, ⟨_, result⟩, arity.trans typed.length_eq, ?_⟩,
      typed.targets⟩
    intro has
    obtain ⟨type, rest, rfl, name, found⟩ : ∃ type rest, types = type :: rest ∧
        ∃ name, p.types.findMethod? (p.types.dereference type) name = some target := by
      have receives := receiver has
      cases types with
      | nil => cases receives
      | cons type rest => exact ⟨type, rest, rfl, receives⟩
    exact ⟨_, name, found⟩
termination_by structural e

theorem HaveTypes.targets {es : List Expr} {types : List TypeId}
    (h : HaveTypes p returns Γ es types) :
    ∀ call ∈ Expr.allCalls es, ∃ target, Targets p returns call target := by
  cases h with
  | nil => exact nofun
  | cons e rest type types head tail => exact List.forall_mem_append.2 ⟨head.targets, tail.targets⟩
termination_by structural es

end

mutual

theorem Checks.targets {statement : Statement} {Γ Γ' : Scopes Meaning}
    (h : Checks p returns current Γ statement Γ') :
    ∀ call ∈ statement.calls, ∃ target, Targets p returns call target := by
  cases h with
  | block _ Δ statements line inside => exact inside.targets
  | declare _ name written value nameLine line found type typed fresh filled known rule =>
    exact List.forall_mem_append.2 ⟨typed.targets, nofun⟩
  | assign _ target written value line found type typed place rule =>
    exact List.forall_mem_append.2 ⟨typed.targets, place.targets⟩
  | ret _ value line type typed rule => exact typed.targets
  | ifThen _ Δ test body line holds inside =>
    exact List.forall_mem_append.2 ⟨holds.targets, inside.targets⟩
  | ifElse _ Δ Δ' test body otherwise line holds inside inside' =>
    exact List.forall_mem_append.2
      ⟨holds.targets, List.forall_mem_append.2 ⟨inside.targets, inside'.targets⟩⟩
  | whileLoop _ Δ test body line holds inside =>
    exact List.forall_mem_append.2 ⟨holds.targets, inside.targets⟩
  | forLoop _ Γ'' Δ first test step body line begins holds steps inside =>
    exact List.forall_mem_append.2 ⟨begins.targets, List.forall_mem_append.2
      ⟨holds.targets, List.forall_mem_append.2 ⟨steps.targets, inside.targets⟩⟩⟩
  | call _ callee arguments target injected line type typed => exact typed.targets
termination_by structural statement

theorem ChecksAll.targets {statements : List Statement} {Γ Γ' : Scopes Meaning}
    (h : ChecksAll p returns current Γ statements Γ') :
    ∀ call ∈ Statement.allCalls statements, ∃ target, Targets p returns call target := by
  cases h with
  | nil => exact nofun
  | cons _ Δ _ statement rest head tail =>
    exact List.forall_mem_append.2 ⟨head.targets, tail.targets⟩
termination_by structural statements

end

end Typing

section Scoped

variable {callable : FunctionId → Prop}

mutual

/-- The calls of a scoped tree go to functions that may be called. -/
theorem Expr.callable_of_scoped (e : Expr) {names : List String}
    (h : e.Scoped callable names) :
    ∀ call ∈ e.calls, ∀ f ∈ call.target, callable f := by
  cases e with
  | binary op lhs rhs line =>
    exact List.forall_mem_append.2 ⟨lhs.callable_of_scoped h.1, rhs.callable_of_scoped h.2⟩
  | literal value line => exact nofun
  | var name type line => exact nofun
  | field base name type line => exact base.callable_of_scoped h
  | new type line => exact nofun
  | allocate element size line => exact size.callable_of_scoped h
  | array element items line => exact Expr.allCallable_of_scoped items h
  | index base place line =>
    exact List.forall_mem_append.2 ⟨base.callable_of_scoped h.1, place.callable_of_scoped h.2⟩
  | reference expr line => exact expr.callable_of_scoped h
  | cast expr type line => exact expr.callable_of_scoped h
  | call callee arguments target injected line =>
    exact List.forall_mem_cons.2 ⟨h.2, Expr.allCallable_of_scoped arguments h.1⟩
termination_by structural e

theorem Expr.allCallable_of_scoped (es : List Expr) {names : List String}
    (h : Expr.AllScoped callable names es) :
    ∀ call ∈ Expr.allCalls es, ∀ f ∈ call.target, callable f := by
  cases es with
  | nil => exact nofun
  | cons e rest =>
    exact List.forall_mem_append.2 ⟨e.callable_of_scoped h.1, Expr.allCallable_of_scoped rest h.2⟩
termination_by structural es

end

mutual

theorem Statement.callable_of_scoped (statement : Statement) {names : List String}
    (h : statement.Scoped callable names) :
    ∀ call ∈ statement.calls, ∀ f ∈ call.target, callable f := by
  cases statement with
  | block statements line => exact Statement.allCallable_of_scoped statements h
  | assign declares target written value line =>
    refine List.forall_mem_append.2 ⟨value.callable_of_scoped h.1, ?_⟩
    rcases h.2 with ⟨-, name, type, line, rfl⟩ | ⟨-, stored⟩
    · exact nofun
    · exact target.callable_of_scoped stored
  | ret value line => exact value.callable_of_scoped h
  | ifThen test body line =>
    exact List.forall_mem_append.2 ⟨test.callable_of_scoped h.1, body.callable_of_scoped h.2⟩
  | ifElse test body otherwise line =>
    exact List.forall_mem_append.2 ⟨test.callable_of_scoped h.1, List.forall_mem_append.2
      ⟨body.callable_of_scoped h.2.1, otherwise.callable_of_scoped h.2.2⟩⟩
  | whileLoop test body line =>
    exact List.forall_mem_append.2 ⟨test.callable_of_scoped h.1, body.callable_of_scoped h.2⟩
  | forLoop first test step body line =>
    obtain ⟨begins, holds, ⟨steps, -⟩, inside⟩ := h
    exact List.forall_mem_append.2 ⟨first.callable_of_scoped begins, List.forall_mem_append.2
      ⟨test.callable_of_scoped holds, List.forall_mem_append.2
        ⟨step.callable_of_scoped steps, body.callable_of_scoped inside⟩⟩⟩
  | call callee arguments target injected line =>
    exact Expr.callable_of_scoped (.call callee arguments target injected line) h
termination_by structural statement

theorem Statement.allCallable_of_scoped (statements : List Statement) {names : List String}
    (h : Statement.AllScoped callable names statements) :
    ∀ call ∈ Statement.allCalls statements, ∀ f ∈ call.target, callable f := by
  cases statements with
  | nil => exact nofun
  | cons statement rest =>
    exact List.forall_mem_append.2
      ⟨statement.callable_of_scoped h.1, Statement.allCallable_of_scoped rest h.2⟩
termination_by structural statements

end

end Scoped

end ObjectLang
