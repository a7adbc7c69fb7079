import ObjectLang.Proofs.Calls.Erasure
import ObjectLang.Proofs.Typing.Compiled
set_option autoImplicit false

/-!
# Call nodes

All calls that are written in a body, those in receivers, too, each with the names that are visible
there. When the check records no error, every one of them is bound in the same way: it has a target
with as many parameters as there are arguments, and its receiver is the first argument if and only if
the target wants it.
-/

namespace ObjectLang

open Typing

structure CallNode where
  /-- The names that are visible there. -/
  scopes : Scopes Meaning
  callee : Expr
  arguments : List Expr
  target : Option FunctionId
  injected : Bool

mutual

def Expr.callNodes (Γ : Scopes Meaning) (e : Expr) : List CallNode :=
  match e with
  | .binary _ lhs rhs _ => lhs.callNodes Γ ++ rhs.callNodes Γ
  | .literal .. | .var .. | .new .. => []
  | .field base _ _ _ => base.callNodes Γ
  | .allocate _ size _ => size.callNodes Γ
  | .array _ items _ => Expr.allCallNodes Γ items
  | .index base place _ => base.callNodes Γ ++ place.callNodes Γ
  | .reference expr _ => expr.callNodes Γ
  | .cast expr _ _ => expr.callNodes Γ
  | .call callee arguments target injected _ =>
    ⟨Γ, callee, arguments, target, injected⟩ ::
      (callee.callNodes Γ ++ Expr.allCallNodes Γ arguments)
termination_by structural e

def Expr.allCallNodes (Γ : Scopes Meaning) (es : List Expr) : List CallNode :=
  match es with
  | [] => []
  | e :: rest => e.callNodes Γ ++ Expr.allCallNodes Γ rest
termination_by structural es

end

namespace Statement

/-- The names that are visible behind a checked statement. -/
def scopesBehind (Γ : Scopes Meaning) : Statement → Scopes Meaning
  | .assign true (.var name (some type) _) _ _ _ => Γ.push name (.value type)
  | _ => Γ

mutual

def callNodes (Γ : Scopes Meaning) (statement : Statement) : List CallNode :=
  match statement with
  | .block statements _ => allCallNodes (Γ.openSegment []) statements
  | .assign _ target _ value _ => value.callNodes Γ ++ target.callNodes Γ
  | .ret value _ => value.callNodes Γ
  | .ifThen condition body _ => condition.callNodes Γ ++ body.callNodes (Γ.openSegment [])
  | .ifElse condition body otherwise _ =>
    condition.callNodes Γ ++
      (body.callNodes (Γ.openSegment []) ++ otherwise.callNodes (Γ.openSegment []))
  | .whileLoop condition body _ => condition.callNodes Γ ++ body.callNodes (Γ.openSegment [])
  | .forLoop first condition step body _ =>
    let inside := first.scopesBehind (Γ.openSegment [])
    first.callNodes (Γ.openSegment []) ++ (condition.callNodes inside ++
      (step.callNodes inside ++ body.callNodes (inside.openSegment [])))
  | .call callee arguments target injected line =>
    (Expr.call callee arguments target injected line).callNodes Γ
termination_by structural statement

def allCallNodes (Γ : Scopes Meaning) (statements : List Statement) : List CallNode :=
  match statements with
  | [] => []
  | statement :: rest => statement.callNodes Γ ++ allCallNodes (statement.scopesBehind Γ) rest
termination_by structural statements

end

end Statement

def Typing.namesType (Γ : Scopes Meaning) : Expr → Bool
  | .var name _ _ =>
    match Γ.get? name with
    | some (.type _) => true
    | _ => false
  | _ => false

namespace CallNode

def OnValue (n : CallNode) : Prop :=
  ∃ base name noted line, n.callee = .field base name noted line ∧ namesType n.scopes base = false

/-- The call goes to the target, with as many arguments as that has parameters; its receiver is put in
    front of them if it has one and the target wants it. -/
structure BoundTo (p : Program) (n : CallNode) (target : FunctionId) : Prop where
  target_eq : n.target = some target
  arity : n.arguments.length = (p.function target).parameters.length
  injected_iff : n.injected = true ↔ n.OnValue ∧ (p.function target).traits.isStatic = false
  receiver : n.injected = true →
    ∃ base name noted line rest, n.callee = .field base name noted line ∧ n.arguments = base :: rest

end CallNode

namespace Typing

variable {p : Program} {returns : FunctionId → TypeId → Prop} {current : FunctionId}
  {Γ Γ' : Scopes Meaning}

/-- The call is bound to the target, its callee leads there, and there are as many arguments as
    parameters. -/
structure BindsNode (p : Program) (returns : FunctionId → TypeId → Prop) (n : CallNode)
    (target : FunctionId) : Prop where
  target_eq : n.target = some target
  arity : n.arguments.length = (p.function target).parameters.length
  leads : HasCallee p returns n.scopes n.callee n.arguments target n.injected

theorem HasType.namesType_eq_false {e : Expr} {type : TypeId} (h : HasType p returns Γ e type) :
    namesType Γ e = false := by
  cases h with
  | var name _ line bound => rw [namesType, bound]
  | _ => rfl

/-- The receiver is injected if and only if there is one and the target wants it. -/
theorem HasCallee.injected_iff {callee : Expr} {arguments : List Expr} {target : FunctionId}
    {injected : Bool} (h : HasCallee p returns Γ callee arguments target injected) :
    injected = true ↔ CallNode.OnValue ⟨Γ, callee, arguments, some target, injected⟩ ∧
      (p.function target).traits.isStatic = false := by
  cases h with
  | free name noted line =>
    refine ⟨fun given => Bool.noConfusion given, ?_⟩
    rintro ⟨⟨_, _, _, _, ⟨⟩, -⟩, -⟩
  | made _ _ _ makes =>
    refine ⟨fun given => Bool.noConfusion given, ?_⟩
    rintro ⟨-, dynamic⟩
    have static : (p.function target).traits.isStatic = true := congrArg Prod.snd makes.kind
    rw [static] at dynamic
    cases dynamic
  | named type noted place name field line _ _ owner bound found =>
    refine ⟨fun given => Bool.noConfusion given, ?_⟩
    rintro ⟨⟨_, _, _, _, ⟨⟩, value⟩, -⟩
    rw [namesType, bound] at value
    cases value
  | dropped base name noted line _ _ owner typed found static =>
    refine ⟨fun given => Bool.noConfusion given, ?_⟩
    rintro ⟨-, dynamic⟩
    rw [static] at dynamic
    cases dynamic
  | received base name noted line rest _ owner typed found dynamic =>
    exact ⟨fun _ => ⟨⟨base, name, noted, line, rfl, typed.namesType_eq_false⟩, dynamic⟩,
      fun _ => rfl⟩

theorem HasCallee.receiver {callee : Expr} {arguments : List Expr} {target : FunctionId}
    (h : HasCallee p returns Γ callee arguments target true) :
    ∃ base name noted line rest,
      callee = .field base name noted line ∧ arguments = base :: rest := by
  cases h with
  | received base name noted line rest => exact ⟨base, name, noted, line, rest, rfl, rfl⟩

theorem BindsNode.boundTo {n : CallNode} {target : FunctionId}
    (h : BindsNode p returns n target) : n.BoundTo p target where
  target_eq := h.target_eq
  arity := h.arity
  injected_iff := by
    rw [h.leads.injected_iff, ← h.target_eq]
  receiver injected := by
    have leads := h.leads
    rw [injected] at leads
    exact leads.receiver

mutual

theorem HasType.binds {e : Expr} {type : TypeId} (h : HasType p returns Γ e type) :
    ∀ n ∈ e.callNodes Γ, ∃ target, BindsNode p returns n target := by
  cases h with
  | binary op lhs rhs line a b _ left right rule =>
    exact List.forall_mem_append.2 ⟨left.binds, right.binds⟩
  | literal value line => exact nofun
  | var name _ line visible => exact nofun
  | field base name line owner _ object rule => exact object.binds
  | new _ line known object => exact nofun
  | allocate element size line count _ sized rule found => exact sized.binds
  | array element items line types _ literals typed rule found => exact typed.binds
  | index base place line array index _ stored rule placed int =>
    exact List.forall_mem_append.2 ⟨stored.binds, placed.binds⟩
  | reference expr line referent _ named typed found => exact typed.binds
  | cast expr _ line source typed known => exact typed.binds
  | call callee arguments target injected line types _ leads typed arity pairs receiver result =>
    have node : BindsNode p returns ⟨Γ, callee, arguments, some target, injected⟩ target :=
      ⟨rfl, typed.length_eq.symm.trans arity.symm, leads⟩
    exact List.forall_mem_cons.2 ⟨⟨target, node⟩,
      List.forall_mem_append.2 ⟨leads.binds, typed.binds⟩⟩
termination_by structural e

theorem HaveTypes.binds {es : List Expr} {types : List TypeId}
    (h : HaveTypes p returns Γ es types) :
    ∀ n ∈ Expr.allCallNodes Γ es, ∃ target, BindsNode p returns n target := by
  cases h with
  | nil => exact nofun
  | cons e rest type types head tail => exact List.forall_mem_append.2 ⟨head.binds, tail.binds⟩
termination_by structural es

theorem HasCallee.binds {callee : Expr} {arguments : List Expr} {target : FunctionId}
    {injected : Bool} (h : HasCallee p returns Γ callee arguments target injected) :
    ∀ n ∈ callee.callNodes Γ, ∃ target, BindsNode p returns n target := by
  cases h with
  | free => exact nofun
  | made _ _ _ makes =>
    obtain ⟨name, type, line, place, rfl⟩ := makes.named
    exact nofun
  | named => exact nofun
  | dropped base name noted line _ _ owner typed found static => exact typed.binds
  | received base name noted line rest _ owner typed found dynamic => exact typed.binds
termination_by structural callee

end

theorem Checks.scopesBehind {statement : Statement} (h : Checks p returns current Γ statement Γ') :
    Γ' = statement.scopesBehind Γ := by
  cases h with
  | assign _ target written value line found type typed place rule =>
    cases target <;> rfl
  | _ => rfl

mutual

theorem Checks.binds {statement : Statement} {Γ Γ' : Scopes Meaning}
    (h : Checks p returns current Γ statement Γ') :
    ∀ n ∈ statement.callNodes Γ, ∃ target, BindsNode p returns n target := by
  cases h with
  | block _ Δ statements line inside => exact inside.binds
  | declare _ name written value nameLine line found type typed fresh filled known rule =>
    exact List.forall_mem_append.2 ⟨typed.binds, nofun⟩
  | assign _ target written value line found type typed place rule =>
    exact List.forall_mem_append.2 ⟨typed.binds, place.binds⟩
  | ret _ value line type typed rule => exact typed.binds
  | ifThen _ Δ test body line holds inside =>
    exact List.forall_mem_append.2 ⟨holds.binds, inside.binds⟩
  | ifElse _ Δ Δ' test body otherwise line holds inside inside' =>
    exact List.forall_mem_append.2
      ⟨holds.binds, List.forall_mem_append.2 ⟨inside.binds, inside'.binds⟩⟩
  | whileLoop _ Δ test body line holds inside =>
    exact List.forall_mem_append.2 ⟨holds.binds, inside.binds⟩
  | forLoop _ Γ'' Δ first test step body line begins holds steps inside =>
    obtain rfl := begins.scopesBehind
    exact List.forall_mem_append.2 ⟨begins.binds, List.forall_mem_append.2
      ⟨holds.binds, List.forall_mem_append.2 ⟨steps.binds, inside.binds⟩⟩⟩
  | call _ callee arguments target injected line type typed => exact typed.binds
termination_by structural statement

theorem ChecksAll.binds {statements : List Statement} {Γ Γ' : Scopes Meaning}
    (h : ChecksAll p returns current Γ statements Γ') :
    ∀ n ∈ Statement.allCallNodes Γ statements, ∃ target, BindsNode p returns n target := by
  cases h with
  | nil => exact nofun
  | cons _ Δ _ statement rest head tail =>
    obtain rfl := head.scopesBehind
    exact List.forall_mem_append.2 ⟨head.binds, tail.binds⟩
termination_by structural statements

end

end Typing

/-- As it was read, the receiver of a call is not among its arguments, and only what constructs a list
    is bound. -/
structure CallNode.Formed (p : Program) (n : CallNode) : Prop where
  uninjected : n.injected = false
  makes : ∀ f ∈ n.target, p.Makes n.callee f

section Formed

variable {p : Program}

theorem Expr.allCallNodes_literals (Γ : Scopes Meaning) {es : List Expr}
    (literals : ∀ e ∈ es, e.isLiteral = true) : Expr.allCallNodes Γ es = [] := by
  induction es with
  | nil => rfl
  | cons e rest ih =>
    obtain ⟨first, others⟩ := List.forall_mem_cons.1 literals
    have none : e.callNodes Γ = [] := by
      cases e with
      | literal value line => rfl
      | _ => cases first
    rw [Expr.allCallNodes, none, ih others, List.append_nil]

mutual

theorem Expr.formed_callNodes (Γ : Scopes Meaning) (e : Expr) (h : e.Formed p) :
    ∀ n ∈ e.callNodes Γ, n.Formed p := by
  cases e with
  | binary op lhs rhs line =>
    exact List.forall_mem_append.2 ⟨lhs.formed_callNodes Γ h.1, rhs.formed_callNodes Γ h.2⟩
  | literal value line => exact nofun
  | var name type line => exact nofun
  | field base name type line => exact base.formed_callNodes Γ h
  | new type line => exact nofun
  | allocate element size line => exact size.formed_callNodes Γ h.2
  | array element items line =>
    rw [Expr.callNodes, Expr.allCallNodes_literals Γ h.2]
    exact nofun
  | index base place line =>
    exact List.forall_mem_append.2 ⟨base.formed_callNodes Γ h.1, place.formed_callNodes Γ h.2⟩
  | reference expr line => exact expr.formed_callNodes Γ h
  | cast expr type line => exact expr.formed_callNodes Γ h.1
  | call callee arguments target injected line =>
    obtain ⟨called, given, makes, uninjected⟩ := h
    exact List.forall_mem_cons.2 ⟨⟨uninjected, makes⟩, List.forall_mem_append.2
      ⟨callee.formed_callNodes Γ called, Expr.formed_allCallNodes Γ arguments given⟩⟩
termination_by structural e

theorem Expr.formed_allCallNodes (Γ : Scopes Meaning) (es : List Expr)
    (h : Expr.FormedAll p es) : ∀ n ∈ Expr.allCallNodes Γ es, n.Formed p := by
  cases es with
  | nil => exact nofun
  | cons e rest =>
    exact List.forall_mem_append.2
      ⟨e.formed_callNodes Γ h.1, Expr.formed_allCallNodes Γ rest h.2⟩
termination_by structural es

end

mutual

theorem Statement.formed_callNodes (Γ : Scopes Meaning) (statement : Statement)
    (h : statement.Formed p) : ∀ n ∈ statement.callNodes Γ, n.Formed p := by
  cases statement with
  | block statements line => exact Statement.formed_allCallNodes _ statements h
  | assign declares target written value line =>
    obtain ⟨stored, -, given⟩ := h
    exact List.forall_mem_append.2
      ⟨value.formed_callNodes Γ given, target.formed_callNodes Γ stored⟩
  | ret value line => exact value.formed_callNodes Γ h
  | ifThen test body line =>
    exact List.forall_mem_append.2
      ⟨test.formed_callNodes Γ h.1, Statement.formed_callNodes _ body h.2⟩
  | ifElse test body otherwise line =>
    exact List.forall_mem_append.2 ⟨test.formed_callNodes Γ h.1, List.forall_mem_append.2
      ⟨Statement.formed_callNodes _ body h.2.1, Statement.formed_callNodes _ otherwise h.2.2⟩⟩
  | whileLoop test body line =>
    exact List.forall_mem_append.2
      ⟨test.formed_callNodes Γ h.1, Statement.formed_callNodes _ body h.2⟩
  | forLoop first test step body line =>
    obtain ⟨begins, tested, ⟨steps, -⟩, inside⟩ := h
    exact List.forall_mem_append.2 ⟨Statement.formed_callNodes _ first begins,
      List.forall_mem_append.2 ⟨test.formed_callNodes _ tested, List.forall_mem_append.2
        ⟨Statement.formed_callNodes _ step steps, Statement.formed_callNodes _ body inside⟩⟩⟩
  | call callee arguments target injected line =>
    exact Expr.formed_callNodes Γ (.call callee arguments target injected line) h
termination_by structural statement

theorem Statement.formed_allCallNodes (Γ : Scopes Meaning) (statements : List Statement)
    (h : Statement.FormedAll p statements) :
    ∀ n ∈ Statement.allCallNodes Γ statements, n.Formed p := by
  cases statements with
  | nil => exact nofun
  | cons statement rest =>
    exact List.forall_mem_append.2 ⟨Statement.formed_callNodes Γ statement h.1,
      Statement.formed_allCallNodes _ rest h.2⟩
termination_by structural statements

end

end Formed

namespace Compilation

variable {c : Compilation} {f : FunctionId}

def callNodes (c : Compilation) (f : FunctionId) : List CallNode :=
  match c.modules[(c.program.function f).module]? with
  | some m => Statement.allCallNodes (functionScopes m c.program (c.program.function f))
      (c.program.function f).body
  | none => []

/-- If a check of all modules records no error, then in every function that it enters, every call is
    bound, has as many arguments as its target has parameters, and has its receiver among them if and
    only if there is one and the target is not static. What is read had no receivers among its
    arguments, and without those that are there now the body is what was read. -/
theorem checkAll_binds_calls (read : Written c.modules c.program)
    (accepted : c.checkAll.diagnostics.hasError = false) (entered : f ∈ c.entered)
    (written : (c.checkAll.program.function f).isNative = false) :
    (∃ m, c.checkAll.modules[(c.checkAll.program.function f).module]? = some m) ∧
      (∀ n ∈ c.checkAll.callNodes f, ∃ target, n.BoundTo c.checkAll.program target) ∧
      (∀ n ∈ c.callNodes f, n.injected = false) ∧
      Statement.allErased (c.checkAll.program.function f).body =
        Statement.allErased (c.program.function f).body := by
  have first := accepted_checkFrom read.library accepted
  obtain ⟨m, Γ, found, typed⟩ :=
    (first.correct f entered).resolve_left (Bool.eq_false_iff.1 written)
  obtain ⟨_, depth, v, -, -, -, -, -, walked⟩ :=
    (first.walked f entered).resolve_left (Bool.eq_false_iff.1 written)
  refine ⟨⟨m, found⟩, ?_, ?_, ?_⟩
  · have found : c.checkAll.modules[(c.checkAll.program.function f).module]? = some m := found
    rw [callNodes, found]
    exact fun n hn => (typed.binds n hn).imp fun target binds => binds.boundTo
  · intro n hn
    unfold callNodes at hn
    split at hn
    · exact (Statement.formed_allCallNodes _ _ (read.library.program.bodies f) n hn).uninjected
    · cases hn
  · change Statement.allErased ((c.checkFrom 1 c.unchecked).program.function f).body = _
    rw [walked, erased_checkAll]

/-- Calls in receivers and in arguments, of functions, of methods with and without a receiver, and of
    what constructs a list. -/
theorem checkAll_binds_calls_nested :
    let c := new.readAll [lex ⟨"m.kv",
      "type A { } fn A.new() { } fn A.me(x: Int) -> A => self; fn f(x: Int) -> Int => x;
      let xs = [1]; A.new().me(f(f(2))).me(xs.at(0));"⟩]
    c.checkAll.diagnostics.hasError = false ∧ ⟨6⟩ ∈ c.entered ∧
      (c.checkAll.program.function ⟨6⟩).isNative = false ∧
      (c.checkAll.callNodes ⟨6⟩).length = 13 ∧
      ∀ n ∈ c.checkAll.callNodes ⟨6⟩, ∃ target, n.BoundTo c.checkAll.program target := by
  intro c
  have facts : c.checkAll.diagnostics.hasError = false ∧ ⟨6⟩ ∈ c.entered ∧
      (c.checkAll.program.function ⟨6⟩).isNative = false ∧
      (c.checkAll.callNodes ⟨6⟩).length = 13 := by decide +kernel
  obtain ⟨accepted, entered, written, many⟩ := facts
  exact ⟨accepted, entered, written, many,
    (checkAll_binds_calls (written_readAll written_new _) accepted entered written).2.1⟩

end Compilation
end ObjectLang
