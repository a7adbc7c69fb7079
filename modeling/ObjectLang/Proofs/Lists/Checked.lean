import ObjectLang.Proofs.Lists.Bare
import ObjectLang.Proofs.Lists.Made
import ObjectLang.Proofs.Scoping.Site
import ObjectLang.Proofs.Typing.Compiled
set_option autoImplicit false

/-!
# List methods after the check

The bodies of list methods are written as trees and are checked like all others. What the check makes
of them is the tree that was written, with its calls bound: `memcpy` and `panic` to host functions of
the builtin module, `reSize` to the method of the same list, with `self` as its first argument.
-/

namespace ObjectLang

open ListMethod

namespace Typing

/-- What becomes of a statement of a list method. Its expressions only get notes; its calls go to free
    functions that satisfy `free`, or to a method that satisfies `resizes`. -/
inductive Binds (free : String → FunctionId → Prop) (resizes : FunctionId → Prop) :
    Statement → Statement → Prop
  | assign (declares : Bool) (target target' : Expr) (written : Option TypeId)
    (value value' : Expr) (line : Nat) (place : target'.bare = target.bare)
    (same : value'.bare = value.bare) :
    Binds free resizes (.assign declares target written value line)
      (.assign declares target' written value' line)
  | ret (value value' : Expr) (line : Nat) (same : value'.bare = value.bare) :
    Binds free resizes (.ret value line) (.ret value' line)
  | free (name : String) (callee : Expr) (arguments arguments' : List Expr) (f : FunctionId)
    (found : free name f) (same : Expr.bareAll arguments' = Expr.bareAll arguments) :
    Binds free resizes (perform (var name) arguments) (.call callee arguments' (some f) false 0)
  | method (callee : Expr) (arguments arguments' : List Expr) (f : FunctionId) (found : resizes f)
    (same : Expr.bareAll arguments' = var receiverName :: Expr.bareAll arguments) :
    Binds free resizes (perform (own "reSize") arguments) (.call callee arguments' (some f) true 0)
  | ifThen (test test' : Expr) (body body' : Statement) (line : Nat)
    (same : test'.bare = test.bare) (inside : Binds free resizes body body') :
    Binds free resizes (.ifThen test body line) (.ifThen test' body' line)

/-- Statements as they stand in list methods: `self` stays the list, and calls stand alone. -/
inductive Plain : Statement → Prop
  | declare (name : String) (value : Expr) (other : name ≠ receiverName)
    (calls : value.callFree = true) : Plain (.declare (var name) value 0)
  | assign (target value : Expr) (place : target.callFree = true) (calls : value.callFree = true) :
    Plain (ListMethod.assign target value)
  | ret (value : Expr) (calls : value.callFree = true) : Plain (.ret value 0)
  | free (name : String) (arguments : List Expr) (calls : Expr.allCallFree arguments = true) :
    Plain (perform (var name) arguments)
  | method (arguments : List Expr) (calls : Expr.allCallFree arguments = true) :
    Plain (perform (own "reSize") arguments)
  | ifThen (test : Expr) (body : Statement) (calls : test.callFree = true) (inside : Plain body) :
    Plain (.ifThen test body 0)

variable {c : Context} {s : State}

/-- Where the check is inside a method of a list of the module `m`, since it was in `p`. -/
structure Within (c : Context) (m : Module) (p : Program) (list : TypeId) (s : State) : Prop where
  entered : c.current ∈ s.checked
  evolves : p.Evolves s.program
  found : c.modules[(p.function c.current).module]? = some m
  receiver : s.scopes.get? receiverName = some (.value list)

namespace Within

variable {m : Module} {p : Program} {list : TypeId}

theorem later {t : State} {O : FunctionId → Prop} (h : Within c m p list s) (later : Later O s t)
    (receiver : t.scopes.get? receiverName = some (.value list)) : Within c m p list t :=
  ⟨later.mem h.entered, h.evolves.trans later.evolves, h.found, receiver⟩

theorem keeps {t : State} (h : Within c m p list s) (keeps : Keeps s t) : Within c m p list t :=
  h.later keeps.toLater (keeps.scopes ▸ h.receiver)

theorem module?_eq (h : Within c m p list s) : c.module? s = some m := by
  rw [Context.module?, h.evolves.module_eq]
  exact h.found

end Within

theorem result_checkCall {callee : Expr} {arguments : List Expr} {target : Option FunctionId}
    {injected : Bool} {line : Nat} : (checkCall c callee arguments target injected line s).result =
      (visit c (.call callee arguments target injected line) s).result.map fun _ => () := by
  unfold checkCall
  dsimp only
  split <;> rfl

theorem state_checkCall {callee : Expr} {arguments : List Expr} {target : Option FunctionId}
    {injected : Bool} {line : Nat} : (checkCall c callee arguments target injected line s).state =
      (visit c (.call callee arguments target injected line) s).state := by
  unfold checkCall
  dsimp only
  split <;> rfl

theorem statement_checkCall_eq {callee callee' : Expr} {arguments arguments' : List Expr}
    {target target' : Option FunctionId} {injected injected' : Bool} {line line' : Nat}
    (h : (visit c (.call callee arguments target injected line) s).expr =
      .call callee' arguments' target' injected' line') :
    (checkCall c callee arguments target injected line s).statement =
      .call callee' arguments' target' injected' line' := by
  unfold checkCall
  dsimp only
  rw [h]

section Calls

variable {m : Module} {p : Program} {list : TypeId}

theorem name_of_freeTarget {q : Program} {name : String} {types : List TypeId} {f : FunctionId}
    (h : freeTarget (some m) q name types = .ok f) :
    f ∈ m.functions ∧ (q.function f).name = name := by
  obtain ⟨_, ⟨⟩, found⟩ := freeTarget_eq_ok.1 h
  have agrees := List.find?_some found
  simp only [Signature.agrees, Function.signature, Bool.and_eq_true, beq_iff_eq] at agrees
  exact ⟨List.mem_of_find?_eq_some found, agrees.1.1.2⟩

theorem resolve_free (hc : c.Keeping) (h : Within c m p list s) {name : String}
    {arguments : List Expr} (calls : Expr.allCallFree arguments = true) {f : FunctionId}
    {callee : Expr} {bound : List Expr} {injected : Bool} {t : State}
    {le : Expr.weights bound ≤ (var name).weight + Expr.weights arguments}
    (resolved : resolve c (var name) arguments false s = .bound f callee bound injected t le) :
    (f ∈ m.functions ∧ (p.function f).name = name) ∧ injected = false ∧
      Expr.bareAll bound = Expr.bareAll arguments := by
  have visited := h.keeps (keeps_visitAll hc (fun _ _ => .ok ()) arguments s)
  have same := bare_visitAll (c := c) (fun _ _ => .ok ()) arguments s calls
  unfold var at resolved
  rw [resolve] at resolved
  split at resolved
  · rename_i target found
    cases resolved
    obtain ⟨types, -, free⟩ := bind_eq_ok.1 found
    rw [visited.module?_eq] at free
    obtain ⟨mem, named⟩ := name_of_freeTarget free
    rw [visited.evolves.name_eq] at named
    exact ⟨⟨mem, named⟩, rfl, same⟩
  · cases resolved

theorem resolve_method (h : Within c m p list s) (known : p.types.Knows list)
    (direct : p.types.dereference list = list)
    (dynamic : ∀ f, p.types.findMethod? list "reSize" = some f →
      (p.function f).traits.isStatic = false)
    {arguments : List Expr} {f : FunctionId} {callee : Expr} {bound : List Expr} {injected : Bool}
    {t : State} {le : Expr.weights bound ≤ (own "reSize").weight + Expr.weights arguments}
    (resolved : resolve c (own "reSize") arguments false s = .bound f callee bound injected t le) :
    p.types.findMethod? list "reSize" = some f ∧ injected = true ∧
      bound = .var receiverName (some list) 0 :: arguments := by
  have object : visitVar receiverName none 0 s =
      ⟨.var receiverName (some list) 0, Nat.le_refl _, s, .ok list⟩ := by
    unfold visitVar
    rw [h.receiver]
  have unnamed : namedType? s (.var receiverName none 0) = none := by
    simp only [namedType?, h.receiver]
  unfold own var at resolved
  rw [resolve, unnamed, visit, object] at resolved
  unfold bindMethod at resolved
  dsimp only at resolved
  split at resolved
  · cases resolved
  · rename_i target found
    rw [Except.bind, h.evolves.types.dereference_eq known, direct, methodTarget_eq_ok,
      h.evolves.types.findMethod?_eq known] at found
    split at resolved
    · rename_i receiverless
      rw [h.evolves.traits_eq, dynamic target found] at receiverless
      cases receiverless
    · cases resolved
      exact ⟨found, rfl, rfl⟩

theorem visit_unbound {callee : Expr} {arguments : List Expr} {line : Nat} {type : TypeId}
    (ok : (visit c (.call callee arguments none false line) s).result = .ok type) :
    ∃ f callee' bound injected t le,
      resolve c callee arguments false s = .bound f callee' bound injected t le ∧
      (visit c (.call callee arguments none false line) s).expr =
        .call callee' (visitAll c (fun _ _ => .ok ()) bound (c.checkTarget f t)).exprs (some f)
          injected line := by
  rw [visit] at ok ⊢
  split at ok
  · cases ok
  · rename_i f callee' bound injected t le resolved
    exact ⟨f, callee', bound, injected, t, le, resolved, rfl⟩

theorem bareAll_visited {es bound : List Expr} (calls : Expr.allCallFree es = true)
    (same : Expr.bareAll bound = Expr.bareAll es) :
    Expr.bareAll (visitAll c (fun _ _ => .ok ()) bound s).exprs = Expr.bareAll es := by
  rw [← Expr.allCallFree_bareAll, ← same, Expr.allCallFree_bareAll] at calls
  rw [bare_visitAll _ bound s calls, same]

end Calls

section Statements

variable {m : Module} {p : Program} {list : TypeId}

theorem checkAssign_place {target value : Expr} {written : Option TypeId} {line : Nat}
    (ok : (checkAssign c false target written value line s).result = .ok ()) :
    let v := visit c value s
    let w := visit c target v.state
    (checkAssign c false target written value line s).statement =
        .assign false w.expr written v.expr line ∧
      (checkAssign c false target written value line s).state = w.state := by
  unfold checkAssign at ok ⊢
  dsimp only at ok ⊢
  split at ok
  · cases ok
  · rename_i type found
    exact ⟨rfl, rfl⟩

theorem checkAssign_declare {target value : Expr} {written : Option TypeId} {line : Nat}
    (ok : (checkAssign c true target written value line s).result = .ok ()) :
    let v := visit c value s
    ∃ found name noted at_ type, v.result = .ok found ∧ target = .var name noted at_ ∧
      declaredType v.state.program found written = .ok type ∧
      checkAssign c true target written value line s =
        ⟨.assign true (.var name (some type) at_) written v.expr line,
          { v.state with scopes := v.state.scopes.push name (.value type) }, .ok ()⟩ := by
  unfold checkAssign at ok ⊢
  dsimp only at ok ⊢
  split at ok
  · cases ok
  · rename_i found result
    rw [if_pos rfl] at ok ⊢
    split at ok
    · cases ok
    · rename_i target' t declared
      obtain ⟨name, noted, at_, type, rfl, -, -, rule, rfl, rfl⟩ := declare_eq_ok declared
      exact ⟨found, name, noted, at_, type, result, rfl, rule, rfl⟩

structure Bound (c : Context) (m : Module) (p : Program) (list : TypeId) (s : State)
    (statement : Statement) (v : Checked) : Prop where
  binds : Binds (fun name f => f ∈ m.functions ∧ (p.function f).name = name)
    (fun f => p.types.findMethod? list "reSize" = some f) statement v.statement
  within : Within c m p list v.state
  closes : v.state.scopes.closeSegment = s.scopes.closeSegment

theorem check_bound (hc : c.Keeping) (known : p.types.Knows list)
    (direct : p.types.dereference list = list)
    (dynamic : ∀ f, p.types.findMethod? list "reSize" = some f →
      (p.function f).traits.isStatic = false)
    {statement : Statement} (plain : Plain statement) (h : Within c m p list s)
    (ok : (check c statement s).result = .ok ()) :
    Bound c m p list s statement (check c statement s) := by
  induction plain generalizing s with
  | declare name value other calls =>
    obtain ⟨found, _, noted, at_, type, -, ⟨⟩, -, same⟩ := checkAssign_declare ok
    have visited := keeps_visit hc value s
    rw [Statement.declare, check, same]
    refine ⟨.assign _ _ _ _ _ _ _ rfl (bare_visit value s calls), ?_, ?_⟩
    · refine (h.keeps visited).later (later_scopes (fun _ => False) _ _) ?_
      rw [Scopes.get?_push_of_ne _ other.symm, visited.scopes, h.receiver]
    · rw [Scopes.closeSegment_push, visited.scopes]
  | assign target value place calls =>
    obtain ⟨statement, state⟩ := checkAssign_place ok
    have visited := (keeps_visit hc value s).trans (keeps_visit hc target _)
    rw [ListMethod.assign, check]
    refine ⟨?_, ?_, ?_⟩
    · rw [statement]
      exact .assign _ _ _ _ _ _ _ (bare_visit target _ place) (bare_visit value s calls)
    · rw [state]
      exact h.keeps visited
    · rw [state, visited.scopes]
  | ret value calls =>
    have scopes := scopes_checkReturn (s := s) hc value 0
    rw [check]
    refine ⟨?_, h.later (later_checkReturn hc h.entered value 0) (scopes ▸ h.receiver), ?_⟩
    · rw [statement_checkReturn]
      exact .ret _ _ _ (bare_visit value s calls)
    · rw [scopes]
  | free name arguments calls =>
    rw [perform, check] at ok ⊢
    rw [result_checkCall] at ok
    obtain ⟨type, ok, -⟩ := map_eq_ok.1 ok
    obtain ⟨f, callee, bound, injected, t, le, resolved, expr⟩ := visit_unbound ok
    obtain ⟨found, rfl, same⟩ := resolve_free hc h calls resolved
    have visited := keeps_visit hc (.call (var name) arguments none false 0) s
    refine ⟨?_, ?_, ?_⟩
    · rw [statement_checkCall_eq expr]
      exact .free name callee arguments _ f found (bareAll_visited calls same)
    · rw [state_checkCall]
      exact h.keeps visited
    · rw [state_checkCall, visited.scopes]
  | method arguments calls =>
    rw [perform, check] at ok ⊢
    rw [result_checkCall] at ok
    obtain ⟨type, ok, -⟩ := map_eq_ok.1 ok
    obtain ⟨f, callee, bound, injected, t, le, resolved, expr⟩ := visit_unbound ok
    obtain ⟨found, rfl, rfl⟩ := resolve_method h known direct dynamic resolved
    have visited := keeps_visit hc (.call (own "reSize") arguments none false 0) s
    have all : Expr.allCallFree (.var receiverName (some list) 0 :: arguments) = true := calls
    refine ⟨?_, ?_, ?_⟩
    · rw [statement_checkCall_eq expr]
      exact .method callee arguments _ f found (bareAll_visited all rfl)
    · rw [state_checkCall]
      exact h.keeps visited
    · rw [state_checkCall, visited.scopes]
  | ifThen test body calls inside ih =>
    rw [check] at ok ⊢
    dsimp only at ok ⊢
    obtain ⟨holds, same⟩ := Checked.next_ok ok
    rw [same] at ok ⊢
    have visited : Keeps s (visitCondition c test s).2.1 := keeps_visit hc test s
    have at_ := h.keeps visited
    have outside : Within c m p list ((visitCondition c test s).2.1.openScope []) :=
      ⟨at_.entered, at_.evolves, at_.found, at_.receiver⟩
    have bound := ih outside ok
    have scopes : (check c body ((visitCondition c test s).2.1.openScope [])).state.scopes.closeSegment =
        s.scopes := by
      rw [bound.closes, ← visited.scopes]
      exact Scopes.closeSegment_openSegment _ _
    refine ⟨.ifThen _ _ _ _ _ (bare_visit test s calls) bound.binds, ?_, ?_⟩
    · exact bound.within.later (later_scopes (fun _ => False) _ _)
        ((congrArg (·.get? receiverName) scopes).trans h.receiver)
    · exact congrArg Scopes.closeSegment scopes

theorem checkAll_bound (hc : c.Keeping) (known : p.types.Knows list)
    (direct : p.types.dereference list = list)
    (dynamic : ∀ f, p.types.findMethod? list "reSize" = some f →
      (p.function f).traits.isStatic = false)
    {statements : List Statement} (plain : ∀ x ∈ statements, Plain x) (h : Within c m p list s)
    (clean : (checkAll c statements s).2.Clean) :
    List.Forall₂ (Binds (fun name f => f ∈ m.functions ∧ (p.function f).name = name)
      (fun f => p.types.findMethod? list "reSize" = some f)) statements
      (checkAll c statements s).1 := by
  induction statements generalizing s with
  | nil => exact .nil
  | cons statement rest ih =>
    obtain ⟨plain, plains⟩ := List.forall_mem_cons.1 plain
    obtain ⟨ok, -⟩ := ok_of_clean hc h.entered clean
    have bound := check_bound hc known direct dynamic plain h ok
    rw [checkAll_cons rest ok] at clean ⊢
    exact .cons bound.binds (ih plains bound.within clean)

end Statements

end Typing

/-- The statement of a list method with its calls bound. -/
def Statement.bound (host : String → FunctionId) (resize : FunctionId) : Statement → Statement
  | .call (.var name type at_) arguments _ _ line =>
    .call (.var name type at_) arguments (some (host name)) false line
  | .call callee arguments _ _ line =>
    .call callee (var receiverName :: arguments) (some resize) true line
  | .ifThen test body line => .ifThen test (body.bound host resize) line
  | statement => statement

namespace Machine

open Typing

variable {free : String → FunctionId → Prop} {resizes : FunctionId → Prop}
  {host : String → FunctionId} {resize : FunctionId} {c : Context}

theorem evalAll_of_bareAll {es es' : List Expr} (h : Expr.bareAll es' = Expr.bareAll es) :
    evalAll c es' = evalAll c es := by
  rw [← evalAll_bare, h, evalAll_bare]

theorem condition_of_bare {e e' : Expr} (h : e'.bare = e.bare) (line : Nat) :
    condition c e' line = condition c e line := by
  rw [← condition_bare, h, condition_bare]

theorem exec_of_binds (frees : ∀ name f, free name f → f = host name)
    (methods : ∀ f, resizes f → f = resize) {statement statement' : Statement}
    (h : Binds free resizes statement statement') :
    exec c statement' = exec c (statement.bound host resize) := by
  induction h with
  | assign declares target target' written value value' line place same =>
    change _ = exec c (.assign declares target written value line)
    rw [exec, exec, ← assign_bare, place, same, assign_bare]
  | ret value value' line same =>
    change _ = exec c (.ret value line)
    rw [exec, exec, ← eval_bare, same, eval_bare]
  | free name callee arguments arguments' f found same =>
    obtain rfl := frees name f found
    change _ = exec c (.call (var name) arguments (some (host name)) false 0)
    simp only [exec, evalAll_of_bareAll same]
  | method callee arguments arguments' f found same =>
    obtain rfl := methods f found
    have same : Expr.bareAll arguments' = Expr.bareAll (var receiverName :: arguments) := same
    change _ = exec c (.call (own "reSize") (var receiverName :: arguments) (some f) true 0)
    simp only [exec, evalAll_of_bareAll same]
  | ifThen test test' body body' line same inside ih =>
    change _ = exec c (.ifThen test (body.bound host resize) line)
    rw [exec, exec, condition_of_bare same, ih]

theorem execAll_of_binds (frees : ∀ name f, free name f → f = host name)
    (methods : ∀ f, resizes f → f = resize) {statements statements' : List Statement}
    (h : List.Forall₂ (Binds free resizes) statements statements') :
    execAll c statements' = execAll c (statements.map (·.bound host resize)) := by
  induction h with
  | nil => rfl
  | cons first _ ih => rw [List.map_cons, execAll, execAll, exec_of_binds frees methods first, ih]

end Machine
end ObjectLang
