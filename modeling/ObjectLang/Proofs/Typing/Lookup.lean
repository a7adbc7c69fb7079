import ObjectLang.Proofs.Calls.Node
import ObjectLang.Proofs.Program.Builtin
set_option autoImplicit false

/-!
# Types looked up again

After a check the type of an expression is looked up on its tree: it is noted there, or follows from
what is noted. It is the type that the check has found, with the return types as they are by then,
unless the expression is, or does arithmetic on, an element that was reached through a reference. The
check looks through the reference; the lookup does not and finds no type.
-/

namespace ObjectLang

open Typing

/-- The function whose call gives an expression its type. -/
def Expr.decidedBy? : Expr → Option FunctionId
  | .binary op lhs _ _ => if op.isBoolean then none else lhs.decidedBy?
  | .call _ _ target _ _ => target
  | _ => none

/-- The type that was found for an expression, with the return types that a program has. -/
def Program.updatedType (p : Program) (e : Expr) (found : TypeId) : TypeId :=
  match e.decidedBy? with
  | some f => (p.function f).returnType
  | none => found

/-- Whether the type of an expression is that of an element which was reached through a reference, or
    of an element of such an element, and so on. -/
def Expr.throughReference (p : Program) : Expr → Bool
  | .binary op lhs _ _ => !op.isBoolean && lhs.throughReference p
  | .index base _ _ =>
    base.throughReference p || p.types.dereference (p.settledType base) != p.settledType base
  | _ => false

theorem Registry.element?_of_dereference_ne {r : Registry} {id : TypeId}
    (ne : r.dereference id ≠ id) : r.element? id = none := by
  unfold dereference at ne
  unfold element?
  split
  · rename_i element get
    rw [get] at ne
    exact absurd rfl ne
  · rfl

namespace Typing

section Lookup

variable {p : Program} {returns : FunctionId → TypeId → Prop} {Γ : Scopes Meaning}

/-- The settled type is the one that was found, once return types are what they are in the end. -/
theorem HasType.settledType_eq (hp : p.Tables)
    (hr : ∀ f type, returns f type → type = (p.function f).returnType ∨ type = .void)
    {e : Expr} {found : TypeId} (h : HasType p returns Γ e found) :
    p.settledType e = p.updatedType e found := by
  cases h with
  | binary op lhs rhs line a b _ left right rule =>
    obtain ⟨-, rfl⟩ := binaryType_eq_ok.1 rule
    have same := left.settledType_eq hp hr
    rw [Program.updatedType] at same
    rw [Program.settledType, Program.updatedType, Expr.decidedBy?]
    split
    · rfl
    · exact same
  | allocate element size line count _ sized rule array => rw [Program.settledType, array]; rfl
  | array element items line types _ literals typed rule array =>
    rw [Program.settledType, array]
    rfl
  | index base place line array index _ stored rule placed int =>
    rw [Program.settledType, elementType_eq_ok.1 (stored.elementType_settled hp hr rule)]
    rfl
  | reference expr line referent _ named typed reference =>
    rw [Program.settledType, typed.settledType_name named, reference]
    rfl
  | _ => rfl
termination_by structural e

theorem HasType.typeOf?_name {e : Expr} {found : TypeId} (h : HasType p returns Γ e found)
    (named : e.isName = true) : p.typeOf? e = some found := by
  cases h <;> first | rfl | cases named

/-- The settled type is looked up, but not through references. -/
theorem HasType.typeOf?_eq (hp : p.Tables)
    (hr : ∀ f type, returns f type → type = (p.function f).returnType ∨ type = .void)
    {e : Expr} {found : TypeId} (h : HasType p returns Γ e found) :
    p.typeOf? e = if e.throughReference p then none else some (p.settledType e) := by
  cases h with
  | binary op lhs rhs line a b _ left right rule =>
    rw [Program.typeOf?, Program.settledType, Expr.throughReference, left.typeOf?_eq hp hr]
    cases op.isBoolean <;> rfl
  | allocate element size line count _ sized rule array =>
    rw [Program.typeOf?, Program.settledType, array]
    rfl
  | array element items line types _ literals typed rule array =>
    rw [Program.typeOf?, Program.settledType, array]
    rfl
  | index base place line array index type stored rule placed int =>
    have element := elementType_eq_ok.1 (stored.elementType_settled hp hr rule)
    rw [Program.typeOf?, Program.settledType, Expr.throughReference, stored.typeOf?_eq hp hr, element]
    cases base.throughReference p with
    | true => rfl
    | false =>
      by_cases direct : p.types.dereference (p.settledType base) = p.settledType base
      · rw [direct] at element ⊢
        simp [element]
      · have hidden : p.types.element? (p.settledType base) = none :=
          Registry.element?_of_dereference_ne direct
        simp [hidden, direct]
  | reference expr line referent _ named typed reference =>
    rw [Program.typeOf?, Program.settledType, typed.settledType_name named, typed.typeOf?_name named]
    have known : (p.types.findReference? referent).getD .void = found := by rw [reference]; rfl
    rw [known]
    exact reference
  | _ => rfl
termination_by structural e

end Lookup
end Typing

structure ExprNode where
  /-- The names that are visible there. -/
  scopes : Scopes Meaning
  expr : Expr

def Expr.isValue (Γ : Scopes Meaning) : Expr → Bool
  | .var name noted _ =>
    match Γ.get? name with
    | some (.value type) => noted == some type
    | _ => false
  | _ => true

mutual

/-- The expressions that a check visits in one: all its parts, but of a callee only the receiver. -/
def Expr.nodes (Γ : Scopes Meaning) (e : Expr) : List ExprNode :=
  ⟨Γ, e⟩ ::
    match e with
    | .binary _ lhs rhs _ => lhs.nodes Γ ++ rhs.nodes Γ
    | .literal .. | .var .. | .new .. => []
    | .field base _ _ _ => base.nodes Γ
    | .allocate _ size _ => size.nodes Γ
    | .array _ items _ => Expr.allNodes Γ items
    | .index base place _ => base.nodes Γ ++ place.nodes Γ
    | .reference expr _ => expr.nodes Γ
    | .cast expr _ _ => expr.nodes Γ
    | .call callee arguments _ _ _ => callee.receiverNodes Γ ++ Expr.allNodes Γ arguments
termination_by structural e

def Expr.receiverNodes (Γ : Scopes Meaning) (callee : Expr) : List ExprNode :=
  match callee with
  | .field base _ _ _ => if base.isValue Γ then base.nodes Γ else []
  | _ => []
termination_by structural callee

def Expr.allNodes (Γ : Scopes Meaning) (es : List Expr) : List ExprNode :=
  match es with
  | [] => []
  | e :: rest => e.nodes Γ ++ Expr.allNodes Γ rest
termination_by structural es

end

namespace Statement

mutual

/-- The expressions that a checked statement is made of, where these names are visible. A variable
    that it declares is not among them. -/
def roots (Γ : Scopes Meaning) (statement : Statement) : List ExprNode :=
  match statement with
  | .block statements _ => allRoots (Γ.openSegment []) statements
  | .assign declares target _ value _ => ⟨Γ, value⟩ :: if declares then [] else [⟨Γ, target⟩]
  | .ret value _ => [⟨Γ, value⟩]
  | .ifThen condition body _ => ⟨Γ, condition⟩ :: body.roots (Γ.openSegment [])
  | .ifElse condition body otherwise _ =>
    ⟨Γ, condition⟩ :: (body.roots (Γ.openSegment []) ++ otherwise.roots (Γ.openSegment []))
  | .whileLoop condition body _ => ⟨Γ, condition⟩ :: body.roots (Γ.openSegment [])
  | .forLoop first condition step body _ =>
    let inside := first.scopesBehind (Γ.openSegment [])
    first.roots (Γ.openSegment []) ++
      ⟨inside, condition⟩ :: (step.roots inside ++ body.roots (inside.openSegment []))
  | .call callee arguments target injected line =>
    [⟨Γ, .call callee arguments target injected line⟩]
termination_by structural statement

def allRoots (Γ : Scopes Meaning) (statements : List Statement) : List ExprNode :=
  match statements with
  | [] => []
  | statement :: rest => statement.roots Γ ++ allRoots (statement.scopesBehind Γ) rest
termination_by structural statements

end

def allExprNodes (Γ : Scopes Meaning) (statements : List Statement) : List ExprNode :=
  (allRoots Γ statements).flatMap fun n => n.expr.nodes n.scopes

end Statement

namespace Typing

variable {p : Program} {returns : FunctionId → TypeId → Prop} {current : FunctionId}

/-- The check has found a type for the node. -/
def Found (p : Program) (returns : FunctionId → TypeId → Prop) (n : ExprNode) : Prop :=
  ∃ found, HasType p returns n.scopes n.expr found

theorem found_of_isValue {Γ : Scopes Meaning} {name : String} {noted : Option TypeId} {line : Nat}
    (h : (Expr.var name noted line).isValue Γ = true) :
    Found p returns ⟨Γ, .var name noted line⟩ := by
  rw [Expr.isValue] at h
  split at h
  · rename_i type bound
    rw [beq_iff_eq.1 h]
    exact ⟨type, .var name type line bound⟩
  · cases h

mutual

theorem HasType.nodes {Γ : Scopes Meaning} {e : Expr} {type : TypeId}
    (h : HasType p returns Γ e type) : ∀ n ∈ e.nodes Γ, Found p returns n := by
  have self : Found p returns ⟨Γ, e⟩ := ⟨type, h⟩
  cases h with
  | binary op lhs rhs line a b _ left right rule =>
    exact List.forall_mem_cons.2 ⟨self, List.forall_mem_append.2 ⟨left.nodes, right.nodes⟩⟩
  | literal value line => exact List.forall_mem_cons.2 ⟨self, nofun⟩
  | var name _ line visible => exact List.forall_mem_cons.2 ⟨self, nofun⟩
  | field base name line owner _ object rule => exact List.forall_mem_cons.2 ⟨self, object.nodes⟩
  | new _ line known object => exact List.forall_mem_cons.2 ⟨self, nofun⟩
  | allocate element size line count _ sized rule found =>
    exact List.forall_mem_cons.2 ⟨self, sized.nodes⟩
  | array element items line types _ literals typed rule found =>
    exact List.forall_mem_cons.2 ⟨self, typed.nodes⟩
  | index base place line array index _ stored rule placed int =>
    exact List.forall_mem_cons.2 ⟨self, List.forall_mem_append.2 ⟨stored.nodes, placed.nodes⟩⟩
  | reference expr line referent _ named typed found =>
    exact List.forall_mem_cons.2 ⟨self, typed.nodes⟩
  | cast expr _ line source typed known => exact List.forall_mem_cons.2 ⟨self, typed.nodes⟩
  | call callee arguments target injected line types _ leads typed arity pairs receiver result =>
    exact List.forall_mem_cons.2 ⟨self, List.forall_mem_append.2 ⟨leads.nodes, typed.nodes⟩⟩
termination_by structural e

theorem HaveTypes.nodes {Γ : Scopes Meaning} {es : List Expr} {types : List TypeId}
    (h : HaveTypes p returns Γ es types) : ∀ n ∈ Expr.allNodes Γ es, Found p returns n := by
  cases h with
  | nil => exact nofun
  | cons e rest type types head tail => exact List.forall_mem_append.2 ⟨head.nodes, tail.nodes⟩
termination_by structural es

theorem HasCallee.nodes {Γ : Scopes Meaning} {callee : Expr} {arguments : List Expr}
    {target : FunctionId} {injected : Bool}
    (h : HasCallee p returns Γ callee arguments target injected) :
    ∀ n ∈ callee.receiverNodes Γ, Found p returns n := by
  cases h with
  | free => exact nofun
  | made _ _ _ makes =>
    -- The name of a list type stands for no value. Where one had it, its type would be the noted one.
    obtain ⟨name, type, line, place, rfl⟩ := makes.named
    rw [Expr.receiverNodes]
    split
    · exact List.forall_mem_singleton.2 (found_of_isValue ‹_›)
    · exact nofun
  | named type noted place name field line _ _ owner bound found =>
    rw [Expr.receiverNodes, Expr.isValue, bound]
    exact nofun
  | dropped base name noted line _ _ owner typed found static =>
    rw [Expr.receiverNodes]
    split
    · exact typed.nodes
    · exact nofun
  | received base name noted line rest _ owner typed found dynamic =>
    rw [Expr.receiverNodes]
    split
    · exact typed.nodes
    · exact nofun
termination_by structural callee

end

mutual

theorem Checks.roots {statement : Statement} {Γ Γ' : Scopes Meaning}
    (h : Checks p returns current Γ statement Γ') : ∀ n ∈ statement.roots Γ, Found p returns n := by
  cases h with
  | block _ Δ statements line inside => exact inside.roots
  | declare _ name written value nameLine line found type typed fresh filled known rule =>
    exact List.forall_mem_singleton.2 ⟨_, typed⟩
  | assign _ target written value line found type typed place rule =>
    exact List.forall_mem_cons.2 ⟨⟨_, typed⟩, List.forall_mem_singleton.2 ⟨_, place⟩⟩
  | ret _ value line type typed rule => exact List.forall_mem_singleton.2 ⟨_, typed⟩
  | ifThen _ Δ test body line holds inside =>
    exact List.forall_mem_cons.2 ⟨⟨_, holds⟩, inside.roots⟩
  | ifElse _ Δ Δ' test body otherwise line holds inside inside' =>
    exact List.forall_mem_cons.2 ⟨⟨_, holds⟩, List.forall_mem_append.2 ⟨inside.roots, inside'.roots⟩⟩
  | whileLoop _ Δ test body line holds inside =>
    exact List.forall_mem_cons.2 ⟨⟨_, holds⟩, inside.roots⟩
  | forLoop _ Γ'' Δ first test step body line begins holds steps inside =>
    obtain rfl := begins.scopesBehind
    exact List.forall_mem_append.2 ⟨begins.roots, List.forall_mem_cons.2
      ⟨⟨_, holds⟩, List.forall_mem_append.2 ⟨steps.roots, inside.roots⟩⟩⟩
  | call _ callee arguments target injected line type typed =>
    exact List.forall_mem_singleton.2 ⟨_, typed⟩
termination_by structural statement

theorem ChecksAll.roots {statements : List Statement} {Γ Γ' : Scopes Meaning}
    (h : ChecksAll p returns current Γ statements Γ') :
    ∀ n ∈ Statement.allRoots Γ statements, Found p returns n := by
  cases h with
  | nil => exact nofun
  | cons _ Δ _ statement rest head tail =>
    obtain rfl := head.scopesBehind
    exact List.forall_mem_append.2 ⟨head.roots, tail.roots⟩
termination_by structural statements

end

theorem ChecksAll.exprNodes {statements : List Statement} {Γ Γ' : Scopes Meaning}
    (h : ChecksAll p returns current Γ statements Γ') :
    ∀ n ∈ Statement.allExprNodes Γ statements, Found p returns n := by
  intro n hn
  obtain ⟨root, hroot, part⟩ := List.mem_flatMap.1 hn
  obtain ⟨found, typed⟩ := h.roots root hroot
  exact typed.nodes n part

end Typing

namespace Compilation

variable {c : Compilation} {f : FunctionId}

def exprNodes (c : Compilation) (f : FunctionId) : List ExprNode :=
  match c.modules[(c.program.function f).module]? with
  | some m => Statement.allExprNodes (functionScopes m c.program (c.program.function f))
      (c.program.function f).body
  | none => []

/-- If a check of all modules records no error, it has found a type for every expression that it visits
    in the functions that it enters. -/
theorem found_exprNodes (read : Written c.modules c.program)
    (accepted : c.checkAll.diagnostics.hasError = false) (entered : f ∈ c.entered)
    (written : (c.checkAll.program.function f).isNative = false) :
    ∀ n ∈ c.checkAll.exprNodes f,
      Found c.checkAll.program (Accounts (c.checkFrom 1 c.unchecked)) n := by
  have first := accepted_checkFrom read.library accepted
  obtain ⟨m, Γ, found, typed⟩ :=
    (first.correct f entered).resolve_left (Bool.eq_false_iff.1 written)
  have found : c.checkAll.modules[(c.checkAll.program.function f).module]? = some m := found
  rw [exprNodes, found]
  exact typed.exprNodes

theorem settledType_of_found (read : Written c.modules c.program)
    (accepted : c.checkAll.diagnostics.hasError = false) {n : ExprNode} {found : TypeId}
    (typed : HasType c.checkAll.program (Accounts (c.checkFrom 1 c.unchecked)) n.scopes n.expr found) :
    c.checkAll.program.settledType n.expr = c.checkAll.program.updatedType n.expr found :=
  typed.settledType_eq (accepted_checkFrom read.library accepted).tables fun _ _ h => h.2

theorem typeOf?_of_found (read : Written c.modules c.program)
    (accepted : c.checkAll.diagnostics.hasError = false) {n : ExprNode}
    (has : Found c.checkAll.program (Accounts (c.checkFrom 1 c.unchecked)) n) :
    c.checkAll.program.typeOf? n.expr = if n.expr.throughReference c.checkAll.program then none
      else some (c.checkAll.program.settledType n.expr) := by
  obtain ⟨found, typed⟩ := has
  exact typed.typeOf?_eq (accepted_checkFrom read.library accepted).tables fun _ _ h => h.2

/-- Whatever a check without an error has found for an expression that it visits, that is the type that
    is looked up afterwards, with the return types as they are then, unless it was reached through a
    reference: then none is. -/
theorem checkAll_typeOf? (read : Written c.modules c.program)
    (accepted : c.checkAll.diagnostics.hasError = false) (entered : f ∈ c.entered)
    (written : (c.checkAll.program.function f).isNative = false) :
    let p := c.checkAll.program
    let accounts := Accounts (c.checkFrom 1 c.unchecked)
    ∀ n ∈ c.checkAll.exprNodes f, (∃ found, HasType p accounts n.scopes n.expr found) ∧
      ∀ found, HasType p accounts n.scopes n.expr found →
        p.typeOf? n.expr =
          if n.expr.throughReference p then none else some (p.updatedType n.expr found) := by
  intro p accounts n hn
  refine ⟨found_exprNodes read accepted entered written n hn, fun found typed => ?_⟩
  rw [← settledType_of_found read accepted typed]
  exact typeOf?_of_found read accepted ⟨found, typed⟩

def elementRead : Compilation :=
  new.readAll [lex ⟨"m.kv", "let a = <1, 2>;\nlet r = &a;\nlet x: Int = r[0];"⟩]

theorem written_elementRead : Written elementRead.modules elementRead.program :=
  written_readAll written_new _

theorem elementRead_facts :
    elementRead.checkAll.diagnostics.hasError = false ∧ ⟨6⟩ ∈ elementRead.entered ∧
      (elementRead.checkAll.program.function ⟨6⟩).isNative = false ∧
      (elementRead.checkAll.exprNodes ⟨6⟩).map (fun n => n.expr.throughReference
        elementRead.checkAll.program) = [false, false, false, false, false, true, false, false] ∧
      (elementRead.checkAll.exprNodes ⟨6⟩).any (fun n =>
        n.expr.throughReference elementRead.checkAll.program && n.expr.decidedBy?.isNone &&
          elementRead.checkAll.program.settledType n.expr == .int) = true := by
  rw [elementRead, new_eq]
  decide +kernel

/-- Eight expressions are visited, and for seven of them a type is looked up. -/
theorem checkAll_typeOf?_elementRead :
    let p := elementRead.checkAll.program
    let accounts := Accounts (elementRead.checkFrom 1 elementRead.unchecked)
    (elementRead.checkAll.exprNodes ⟨6⟩).map (fun n => n.expr.throughReference p) =
      [false, false, false, false, false, true, false, false] ∧
    ∀ n ∈ elementRead.checkAll.exprNodes ⟨6⟩, n.expr.throughReference p = false →
      ∃ found, HasType p accounts n.scopes n.expr found ∧
        p.typeOf? n.expr = some (p.updatedType n.expr found) := by
  obtain ⟨accepted, entered, written, hidden, -⟩ := elementRead_facts
  refine ⟨hidden, fun n hn direct => ?_⟩
  obtain ⟨⟨found, typed⟩, all⟩ :=
    checkAll_typeOf? written_elementRead accepted entered written n hn
  exact ⟨found, typed, (all found typed).trans (if_neg (Bool.eq_false_iff.1 direct))⟩

/-- The element `r[0]` is accepted as the value of an `Int`, and no type is looked up for it. -/
theorem typeOf?_element_of_reference :
    let p := elementRead.checkAll.program
    elementRead.checkAll.diagnostics.hasError = false ∧ ⟨6⟩ ∈ elementRead.entered ∧
      ∃ n ∈ elementRead.checkAll.exprNodes ⟨6⟩,
        HasType p (Accounts (elementRead.checkFrom 1 elementRead.unchecked)) n.scopes n.expr .int ∧
          p.updatedType n.expr .int = .int ∧ p.typeOf? n.expr = none := by
  intro p
  obtain ⟨accepted, entered, written, -, element⟩ := elementRead_facts
  obtain ⟨n, hn, element⟩ := List.any_eq_true.1 element
  simp only [Bool.and_eq_true, beq_iff_eq, Option.isNone_iff_eq_none] at element
  obtain ⟨⟨hidden, decided⟩, int⟩ := element
  obtain ⟨found, typed⟩ := found_exprNodes written_elementRead accepted entered written n hn
  have updated (type : TypeId) : p.updatedType n.expr type = type := by
    rw [Program.updatedType, decided]
  have settled := settledType_of_found written_elementRead accepted typed
  obtain rfl : TypeId.int = found := int.symm.trans (settled.trans (updated found))
  have lookup := typeOf?_of_found written_elementRead accepted ⟨.int, typed⟩
  exact ⟨accepted, entered, n, hn, typed, updated _, lookup.trans (if_pos hidden)⟩

end Compilation
end ObjectLang
