import ObjectLang.Proofs.Typing.Statement
set_option autoImplicit false

/-!
# Sites

A variable is bound by a parameter or by a declaration: that is its site. The checker and the
interpreter both keep names in scopes, and each name there can be labelled with its site. Here it is
said which names a body needs, and that a typed body finds them among its labels.
-/

namespace ObjectLang

abbrev Place := List Nat

/-- What binds a name. Types are seen by the checker only. -/
inductive Site
  | parameter (number : Nat)
  | declaration (place : Place)
  | type
  deriving DecidableEq, Repr

abbrev Sites := List (String × Site)

def Sites.names (sites : Sites) : List String := sites.map Prod.fst

/-- The newest binding of the name is the one that was made at the site. -/
structure Scopes.FoundAt {α : Type} (scopes : Scopes α) (sites : Sites) (name : String)
    (site : Site) : Prop where
  aligned : scopes.bindings.map Prod.fst = sites.names
  newest : sites.lookup name = some site

mutual

/-- Every variable that an expression reads is visible, and its calls go to functions that may be
    called. The callee of a bound call is not evaluated. -/
def Expr.Scoped (callable : FunctionId → Prop) (names : List String) (e : Expr) : Prop :=
  match e with
  | .binary _ lhs rhs _ => lhs.Scoped callable names ∧ rhs.Scoped callable names
  | .literal .. | .new .. => True
  | .var name _ _ => name ∈ names
  | .field base _ _ _ => base.Scoped callable names
  | .allocate _ size _ => size.Scoped callable names
  | .array _ items _ => Expr.AllScoped callable names items
  | .index base place _ => base.Scoped callable names ∧ place.Scoped callable names
  | .reference expr _ => expr.Scoped callable names
  | .cast expr _ _ => expr.Scoped callable names
  | .call _ arguments target _ _ =>
    Expr.AllScoped callable names arguments ∧ ∀ f ∈ target, callable f
termination_by structural e

def Expr.AllScoped (callable : FunctionId → Prop) (names : List String) (es : List Expr) : Prop :=
  match es with
  | [] => True
  | e :: rest => e.Scoped callable names ∧ Expr.AllScoped callable names rest
termination_by structural es

end

namespace Statement

def declared? : Statement → Option String
  | .assign true (.var name _ _) _ _ _ => some name
  | _ => none

def namesBehind (statement : Statement) (names : List String) : List String :=
  match statement.declared? with
  | some name => name :: names
  | none => names

def sitesBehind (statement : Statement) (place : Place) (sites : Sites) : Sites :=
  match statement.declared? with
  | some name => (name, .declaration place) :: sites
  | none => sites

mutual

def Scoped (callable : FunctionId → Prop) (names : List String) (statement : Statement) : Prop :=
  match statement with
  | .block statements _ => AllScoped callable names statements
  | .assign declares target _ value _ =>
    value.Scoped callable names ∧
      ((declares = true ∧ ∃ name type line, target = .var name type line) ∨
        declares = false ∧ target.Scoped callable names)
  | .ret value _ => value.Scoped callable names
  | .ifThen condition body _ => condition.Scoped callable names ∧ body.Scoped callable names
  | .ifElse condition body otherwise _ =>
    condition.Scoped callable names ∧ body.Scoped callable names ∧
      otherwise.Scoped callable names
  | .whileLoop condition body _ => condition.Scoped callable names ∧ body.Scoped callable names
  | .forLoop first condition step body _ =>
    let inside := first.namesBehind names
    first.Scoped callable names ∧ condition.Scoped callable inside ∧
      (step.Scoped callable inside ∧ step.declared? = none) ∧ body.Scoped callable inside
  | .call callee arguments target injected line =>
    (Expr.call callee arguments target injected line).Scoped callable names
termination_by structural statement

def AllScoped (callable : FunctionId → Prop) (names : List String)
    (statements : List Statement) : Prop :=
  match statements with
  | [] => True
  | statement :: rest =>
    statement.Scoped callable names ∧ AllScoped callable (statement.namesBehind names) rest
termination_by structural statements

end

theorem names_sitesBehind (statement : Statement) (place : Place) (sites : Sites) :
    (statement.sitesBehind place sites).names = statement.namesBehind sites.names := by
  unfold sitesBehind namesBehind
  cases statement.declared? <;> rfl

end Statement

section More

variable {callable callable' : FunctionId → Prop}

mutual

theorem Expr.scoped_mono (reach : ∀ f, callable f → callable' f)
    {names names' : List String} (more : names ⊆ names') (e : Expr)
    (h : e.Scoped callable names) : e.Scoped callable' names' := by
  cases e with
  | binary op lhs rhs line =>
    exact ⟨lhs.scoped_mono reach more h.1, rhs.scoped_mono reach more h.2⟩
  | literal value line => trivial
  | var name type line => exact more h
  | field base name type line => exact base.scoped_mono reach more h
  | new type line => trivial
  | allocate element size line => exact size.scoped_mono reach more h
  | array element items line => exact Expr.allScoped_mono reach more items h
  | index base place line =>
    exact ⟨base.scoped_mono reach more h.1, place.scoped_mono reach more h.2⟩
  | reference expr line => exact expr.scoped_mono reach more h
  | cast expr type line => exact expr.scoped_mono reach more h
  | call callee arguments target injected line =>
    exact ⟨Expr.allScoped_mono reach more arguments h.1, fun f hf => reach f (h.2 f hf)⟩
termination_by structural e

theorem Expr.allScoped_mono (reach : ∀ f, callable f → callable' f)
    {names names' : List String} (more : names ⊆ names') (es : List Expr)
    (h : Expr.AllScoped callable names es) : Expr.AllScoped callable' names' es := by
  cases es with
  | nil => trivial
  | cons e rest => exact ⟨e.scoped_mono reach more h.1, Expr.allScoped_mono reach more rest h.2⟩
termination_by structural es

end

theorem Statement.namesBehind_subset {names names' : List String} (more : names ⊆ names')
    (statement : Statement) : statement.namesBehind names ⊆ statement.namesBehind names' := by
  unfold Statement.namesBehind
  split
  · exact List.cons_subset_cons _ more
  · exact more

mutual

theorem Statement.scoped_mono (reach : ∀ f, callable f → callable' f)
    {names names' : List String} (more : names ⊆ names') (statement : Statement)
    (h : statement.Scoped callable names) : statement.Scoped callable' names' := by
  cases statement with
  | block statements line => exact Statement.allScoped_mono reach more statements h
  | assign declares target written value line =>
    refine ⟨value.scoped_mono reach more h.1, h.2.imp id ?_⟩
    exact fun stored => ⟨stored.1, target.scoped_mono reach more stored.2⟩
  | ret value line => exact value.scoped_mono reach more h
  | ifThen test body line =>
    exact ⟨test.scoped_mono reach more h.1, body.scoped_mono reach more h.2⟩
  | ifElse test body otherwise line =>
    exact ⟨test.scoped_mono reach more h.1, body.scoped_mono reach more h.2.1,
      otherwise.scoped_mono reach more h.2.2⟩
  | whileLoop test body line =>
    exact ⟨test.scoped_mono reach more h.1, body.scoped_mono reach more h.2⟩
  | forLoop first test step body line =>
    have behind := first.namesBehind_subset more
    obtain ⟨begins, holds, ⟨steps, undeclared⟩, inside⟩ := h
    exact ⟨first.scoped_mono reach more begins, test.scoped_mono reach behind holds,
      ⟨step.scoped_mono reach behind steps, undeclared⟩, body.scoped_mono reach behind inside⟩
  | call callee arguments target injected line =>
    exact Expr.scoped_mono reach more (.call callee arguments target injected line) h
termination_by structural statement

theorem Statement.allScoped_mono (reach : ∀ f, callable f → callable' f)
    {names names' : List String} (more : names ⊆ names') (statements : List Statement)
    (h : Statement.AllScoped callable names statements) :
    Statement.AllScoped callable' names' statements := by
  cases statements with
  | nil => trivial
  | cons statement rest =>
    exact ⟨statement.scoped_mono reach more h.1,
      Statement.allScoped_mono reach (statement.namesBehind_subset more) rest h.2⟩
termination_by structural statements

end

end More

namespace Typing

variable {p : Program} {returns : FunctionId → TypeId → Prop} {current : FunctionId}
  {callable : FunctionId → Prop} {names : List String} {Γ Γ' : Scopes Meaning}

/-- The values in scopes are among the names. -/
def Covers (Γ : Scopes Meaning) (names : List String) : Prop :=
  ∀ name type, Γ.get? name = some (.value type) → name ∈ names

mutual

theorem HasType.scoped (bound : ∀ f type, returns f type → callable f) (covers : Covers Γ names)
    {e : Expr} {type : TypeId} (h : HasType p returns Γ e type) : e.Scoped callable names := by
  cases h with
  | binary op lhs rhs line a b _ left right rule =>
    exact ⟨left.scoped bound covers, right.scoped bound covers⟩
  | literal value line => trivial
  | var name _ line visible => exact covers name type visible
  | field base name line owner _ object rule => exact object.scoped bound covers
  | new _ line known object => trivial
  | allocate element size line count _ sized rule found => exact sized.scoped bound covers
  | array element items line types _ literals typed rule found =>
    exact typed.scoped bound covers
  | index base place line array index _ stored rule placed int =>
    exact ⟨stored.scoped bound covers, placed.scoped bound covers⟩
  | reference expr line referent _ named typed found => exact typed.scoped bound covers
  | cast expr _ line source typed known => exact typed.scoped bound covers
  | call callee arguments target injected line types _ leads typed arity pairs receiver result =>
    refine ⟨typed.scoped bound covers, ?_⟩
    rintro _ ⟨⟩
    exact bound target type result
termination_by structural e

theorem HaveTypes.scoped (bound : ∀ f type, returns f type → callable f)
    (covers : Covers Γ names) {es : List Expr} {types : List TypeId}
    (h : HaveTypes p returns Γ es types) : Expr.AllScoped callable names es := by
  cases h with
  | nil => trivial
  | cons e rest type types head tail =>
    exact ⟨head.scoped bound covers, tail.scoped bound covers⟩
termination_by structural es

end

theorem Covers.push (covers : Covers Γ names) (name : String) (type : TypeId) :
    Covers (Γ.push name (.value type)) (name :: names) := by
  intro other found visible
  by_cases same : other = name
  · exact same ▸ List.mem_cons_self
  · rw [Scopes.get?_push_of_ne Γ same] at visible
    exact List.mem_cons_of_mem _ (covers other found visible)

theorem Covers.openSegment (covers : Covers Γ names) : Covers (Γ.openSegment []) names := covers

theorem Checks.behind {statement : Statement} (h : Checks p returns current Γ statement Γ') :
    statement.declared? = none ∧ Γ' = Γ ∨
      ∃ name type, statement.declared? = some name ∧ Γ' = Γ.push name (.value type) := by
  cases h with
  | declare _ name written value nameLine line found type => exact .inr ⟨name, type, rfl, rfl⟩
  | _ => exact .inl ⟨rfl, rfl⟩

theorem Checks.covers (covers : Covers Γ names) {statement : Statement}
    (h : Checks p returns current Γ statement Γ') : Covers Γ' (statement.namesBehind names) := by
  rw [Statement.namesBehind]
  rcases h.behind with ⟨none, same⟩ | ⟨name, type, some, same⟩
  · rw [none, same]
    exact covers
  · rw [some, same]
    exact covers.push name type

theorem Checks.declared?_eq_none {statement : Statement}
    (h : Checks p returns current Γ statement Γ) : statement.declared? = none := by
  rcases h.behind with ⟨none, -⟩ | ⟨name, type, -, same⟩
  · exact none
  · have longer := congrArg (fun Δ => Δ.bindings.length) same
    simp [Scopes.push] at longer

mutual

theorem Checks.scoped (bound : ∀ f type, returns f type → callable f) {statement : Statement}
    {names : List String} {Γ Γ' : Scopes Meaning} (covers : Covers Γ names)
    (h : Checks p returns current Γ statement Γ') : statement.Scoped callable names := by
  cases h with
  | block _ Δ statements line inside => exact inside.scoped bound covers.openSegment
  | declare _ name written value nameLine line found type typed fresh filled known rule =>
    exact ⟨typed.scoped bound covers, .inl ⟨rfl, name, some type, nameLine, rfl⟩⟩
  | assign _ target written value line found type typed place rule =>
    exact ⟨typed.scoped bound covers, .inr ⟨rfl, place.scoped bound covers⟩⟩
  | ret _ value line type typed rule => exact typed.scoped bound covers
  | ifThen _ Δ test body line holds inside =>
    exact ⟨holds.scoped bound covers, inside.scoped bound covers.openSegment⟩
  | ifElse _ Δ Δ' test body otherwise line holds inside inside' =>
    exact ⟨holds.scoped bound covers, inside.scoped bound covers.openSegment,
      inside'.scoped bound covers.openSegment⟩
  | whileLoop _ Δ test body line holds inside =>
    exact ⟨holds.scoped bound covers, inside.scoped bound covers.openSegment⟩
  | forLoop _ Γ'' Δ first test step body line begins holds steps inside =>
    have behind := begins.covers covers.openSegment
    exact ⟨begins.scoped bound covers.openSegment, holds.scoped bound behind,
      ⟨steps.scoped bound behind, steps.declared?_eq_none⟩,
      inside.scoped bound behind.openSegment⟩
  | call _ callee arguments target injected line type typed => exact typed.scoped bound covers
termination_by structural statement

theorem ChecksAll.scoped (bound : ∀ f type, returns f type → callable f)
    {statements : List Statement} {names : List String} {Γ Γ' : Scopes Meaning}
    (covers : Covers Γ names) (h : ChecksAll p returns current Γ statements Γ') :
    Statement.AllScoped callable names statements := by
  cases h with
  | nil => trivial
  | cons _ Δ _ statement rest head tail =>
    exact ⟨head.scoped bound covers, tail.scoped bound (head.covers covers)⟩
termination_by structural statements

end

end Typing
end ObjectLang
