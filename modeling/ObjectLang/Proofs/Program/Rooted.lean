import ObjectLang.Proofs.Program.Formed
set_option autoImplicit false

/-!
# What trees mention

A tree is rooted in a program if the types that it spells and the functions that its calls are bound
to are known there. A tree is rooted as it is read, and it stays so while it is annotated, wherever
that stops.
-/

namespace ObjectLang

mutual

def Expr.Rooted (p : Program) (e : Expr) : Prop :=
  match e with
  | .binary _ lhs rhs _ => lhs.Rooted p ∧ rhs.Rooted p
  | .literal .. | .var .. => True
  | .field base _ _ _ => base.Rooted p
  | .new type _ => p.types.Knows type
  | .allocate element size _ => p.types.Knows element ∧ size.Rooted p
  | .array element items _ => p.types.Knows element ∧ Expr.RootedAll p items
  | .index base place _ => base.Rooted p ∧ place.Rooted p
  | .reference expr _ => expr.Rooted p
  | .cast expr type _ => expr.Rooted p ∧ p.types.Knows type
  | .call callee arguments target _ _ =>
    callee.Rooted p ∧ Expr.RootedAll p arguments ∧ ∀ f ∈ target, p.Declares f
termination_by structural e

def Expr.RootedAll (p : Program) (es : List Expr) : Prop :=
  match es with
  | [] => True
  | e :: rest => e.Rooted p ∧ Expr.RootedAll p rest
termination_by structural es

end

namespace Statement

mutual

def Rooted (p : Program) (statement : Statement) : Prop :=
  match statement with
  | .block statements _ => RootedAll p statements
  | .assign _ target written value _ =>
    target.Rooted p ∧ (∀ t ∈ written, p.types.Knows t) ∧ value.Rooted p
  | .ret value _ => value.Rooted p
  | .ifThen condition body _ => condition.Rooted p ∧ body.Rooted p
  | .ifElse condition body otherwise _ =>
    condition.Rooted p ∧ body.Rooted p ∧ otherwise.Rooted p
  | .whileLoop condition body _ => condition.Rooted p ∧ body.Rooted p
  | .forLoop first condition step body _ =>
    first.Rooted p ∧ condition.Rooted p ∧ step.Rooted p ∧ body.Rooted p
  | .call callee arguments target injected line =>
    (Expr.call callee arguments target injected line).Rooted p
termination_by structural statement

def RootedAll (p : Program) (statements : List Statement) : Prop :=
  match statements with
  | [] => True
  | statement :: rest => statement.Rooted p ∧ RootedAll p rest
termination_by structural statements

end
end Statement

section Mono

variable {p q : Program}

mutual

theorem Expr.rooted_mono (h : p.Extends q) (e : Expr) (he : e.Rooted p) : e.Rooted q := by
  cases e with
  | binary op lhs rhs line => exact ⟨lhs.rooted_mono h he.1, rhs.rooted_mono h he.2⟩
  | literal value line => trivial
  | var name type line => trivial
  | field base name type line => exact base.rooted_mono h he
  | new type line => exact h.knows he
  | allocate element size line => exact ⟨h.knows he.1, size.rooted_mono h he.2⟩
  | array element items line => exact ⟨h.knows he.1, Expr.rootedAll_mono h items he.2⟩
  | index array index line => exact ⟨array.rooted_mono h he.1, index.rooted_mono h he.2⟩
  | reference expr line => exact expr.rooted_mono h he
  | cast expr type line => exact ⟨expr.rooted_mono h he.1, h.knows he.2⟩
  | call callee arguments target injected line =>
    obtain ⟨hcallee, harguments, htarget⟩ := he
    exact ⟨callee.rooted_mono h hcallee, Expr.rootedAll_mono h arguments harguments,
      fun f hf => h.declares (htarget f hf)⟩
termination_by structural e

theorem Expr.rootedAll_mono (h : p.Extends q) (es : List Expr) (hes : Expr.RootedAll p es) :
    Expr.RootedAll q es := by
  cases es with
  | nil => trivial
  | cons e rest => exact ⟨e.rooted_mono h hes.1, Expr.rootedAll_mono h rest hes.2⟩
termination_by structural es

end

mutual

theorem Statement.rooted_mono (h : p.Extends q) (statement : Statement)
    (hs : statement.Rooted p) : statement.Rooted q := by
  cases statement with
  | block statements line => exact Statement.rootedAll_mono h statements hs
  | assign declares target written value line =>
    obtain ⟨htarget, hwritten, hvalue⟩ := hs
    exact ⟨target.rooted_mono h htarget, fun t ht => h.knows (hwritten t ht),
      value.rooted_mono h hvalue⟩
  | ret value line => exact value.rooted_mono h hs
  | ifThen condition body line => exact ⟨condition.rooted_mono h hs.1, body.rooted_mono h hs.2⟩
  | ifElse condition body otherwise line =>
    obtain ⟨hcondition, hbody, hotherwise⟩ := hs
    exact ⟨condition.rooted_mono h hcondition, body.rooted_mono h hbody,
      otherwise.rooted_mono h hotherwise⟩
  | whileLoop condition body line =>
    exact ⟨condition.rooted_mono h hs.1, body.rooted_mono h hs.2⟩
  | forLoop first condition step body line =>
    obtain ⟨hfirst, hcondition, hstep, hbody⟩ := hs
    exact ⟨first.rooted_mono h hfirst, condition.rooted_mono h hcondition,
      step.rooted_mono h hstep, body.rooted_mono h hbody⟩
  | call callee arguments target injected line =>
    exact (Expr.call callee arguments target injected line).rooted_mono h hs
termination_by structural statement

theorem Statement.rootedAll_mono (h : p.Extends q) (statements : List Statement)
    (hs : Statement.RootedAll p statements) : Statement.RootedAll q statements := by
  cases statements with
  | nil => trivial
  | cons statement rest =>
    exact ⟨statement.rooted_mono h hs.1, Statement.rootedAll_mono h rest hs.2⟩
termination_by structural statements

end

end Mono

section Formed

variable {p : Program}

theorem Expr.rootedAll_of_literals {items : List Expr} (literals : ∀ e ∈ items, e.isLiteral) :
    Expr.RootedAll p items := by
  induction items with
  | nil => trivial
  | cons e rest ih =>
    refine ⟨?_, ih fun x hx => literals x (List.mem_cons_of_mem _ hx)⟩
    have literal := literals e List.mem_cons_self
    cases e with
    | literal value line => trivial
    | _ => cases literal

mutual

theorem Expr.Formed.rooted {e : Expr} (he : e.Formed p) : e.Rooted p := by
  cases e with
  | binary op lhs rhs line => exact ⟨Expr.Formed.rooted he.1, Expr.Formed.rooted he.2⟩
  | literal value line => trivial
  | var name type line => trivial
  | field base name type line => exact Expr.Formed.rooted (e := base) he
  | new type line => exact he.1
  | allocate element size line => exact ⟨he.1, Expr.Formed.rooted he.2⟩
  | array element items line => exact ⟨he.1, Expr.rootedAll_of_literals he.2⟩
  | index array index line => exact ⟨Expr.Formed.rooted he.1, Expr.Formed.rooted he.2⟩
  | reference expr line => exact Expr.Formed.rooted (e := expr) he
  | cast expr type line => exact ⟨Expr.Formed.rooted he.1, he.2⟩
  | call callee arguments target injected line =>
    obtain ⟨hcallee, harguments, htarget, -⟩ := he
    exact ⟨Expr.Formed.rooted hcallee, Expr.FormedAll.rooted harguments,
      fun f hf => (htarget f hf).declared⟩
termination_by structural e

theorem Expr.FormedAll.rooted {es : List Expr} (hes : Expr.FormedAll p es) :
    Expr.RootedAll p es := by
  cases es with
  | nil => trivial
  | cons e rest => exact ⟨Expr.Formed.rooted hes.1, Expr.FormedAll.rooted hes.2⟩
termination_by structural es

end

mutual

theorem Statement.Formed.rooted {statement : Statement} (hs : statement.Formed p) :
    statement.Rooted p := by
  cases statement with
  | block statements line =>
    have inside : Statement.FormedAll p statements := hs
    exact Statement.FormedAll.rooted inside
  | assign declares target written value line => exact ⟨hs.1.rooted, hs.2.1, hs.2.2.rooted⟩
  | ret value line => exact Expr.Formed.rooted (e := value) hs
  | ifThen condition body line => exact ⟨hs.1.rooted, Statement.Formed.rooted hs.2⟩
  | ifElse condition body otherwise line =>
    exact ⟨hs.1.rooted, Statement.Formed.rooted hs.2.1, Statement.Formed.rooted hs.2.2⟩
  | whileLoop condition body line => exact ⟨hs.1.rooted, Statement.Formed.rooted hs.2⟩
  | forLoop first condition step body line =>
    obtain ⟨hfirst, hcondition, ⟨hstep, -⟩, hbody⟩ := hs
    exact ⟨Statement.Formed.rooted hfirst, hcondition.rooted, Statement.Formed.rooted hstep,
      Statement.Formed.rooted hbody⟩
  | call callee arguments target injected line =>
    exact Expr.Formed.rooted (e := .call callee arguments target injected line) hs
termination_by structural statement

theorem Statement.FormedAll.rooted {statements : List Statement}
    (hs : Statement.FormedAll p statements) : Statement.RootedAll p statements := by
  cases statements with
  | nil => trivial
  | cons statement rest =>
    exact ⟨Statement.Formed.rooted hs.1, Statement.FormedAll.rooted hs.2⟩
termination_by structural statements

end

end Formed
end ObjectLang
