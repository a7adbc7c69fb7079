import ObjectLang.Machine.Run
import ObjectLang.Proofs.Scoping.Agreement
import ObjectLang.Proofs.Scoping.Library
import ObjectLang.Proofs.Typing.Compiled
set_option autoImplicit false

/-!
# Accepted programs find their variables

A call comes to functions that the check has entered, or to methods of lists that it has not. Both
find all their variables, so no run of an accepted program misses one. And in a body that was
checked, what the interpreter finds under a name was bound where the checker has found it.
-/

namespace ObjectLang

open Typing

def Function.sites (f : Function) : Sites :=
  (f.parameters.zipIdx.map fun x => (x.1.name, Site.parameter x.2)).reverse

def Module.typeSites (m : Module) (p : Program) : Sites :=
  ((m.visibleObjectTypes p).map fun t => (p.types.name t, Site.type)).reverse

theorem Function.names_sites (f : Function) : f.sites.names = f.frameNames := by
  have names (parameters : List Parameter) (n : Nat) :
      ((parameters.zipIdx n).map fun x => (x.1.name, Site.parameter x.2)).map Prod.fst =
        parameters.map Parameter.name := by
    induction parameters generalizing n with
    | nil => rfl
    | cons x rest ih => simpa using ih (n + 1)
  rw [sites, Sites.names, List.map_reverse, names, frameNames]

theorem aligned_functionScopes (m : Module) (p : Program) (f : Function) :
    (functionScopes m p f).bindings.map Prod.fst = (f.sites ++ m.typeSites p).names := by
  have own := f.names_sites
  rw [Sites.names] at own
  rw [Sites.names, List.map_append, own]
  simp [functionScopes, Scopes.openSegment, Scopes.empty, Function.frameNames, Module.typeSites,
    Function.comp_def]

namespace Compilation

variable {files : List SourceFile} {c : Compilation} {t : Typing.State}

/-- What calls of an accepted program come to: functions that are checked, and others that need
    nothing. -/
def Reached (t : Typing.State) (f : FunctionId) : Prop :=
  f ∈ t.checked ∨ (t.program.function f).Harmless

theorem sources_nil (c : Compilation) : ((c.addSources []).recordLexed []).readAll [] = c := rfl

theorem afterReading_nil : afterReading [] = new := sources_nil new

theorem orderly_afterReading (files : List SourceFile) :
    Library.Orderly (afterReading files).modules (afterReading files).program :=
  afterReading_induct (fun library behind h => h.file library behind) orderly_new files

theorem Accepted.checked_of_shown {r : Compilation} (h : r.Accepted t) {f : FunctionId}
    (shown : Shown r.modules f) : f ∈ t.checked := by
  obtain ⟨i, m, positive, found, own⟩ := shown
  exact h.entered i m positive found f own

theorem Compiled.reached_of_harmless (h : Compiled files c t) {f : FunctionId}
    (harmless : ((afterReading files).program.function f).Harmless) : Reached t f := by
  by_cases checked : f ∈ t.checked
  · exact .inl checked
  · refine .inr ?_
    rw [h.accepted.later.untouched f checked]
    exact harmless

theorem Compiled.scoped (h : Compiled files c t) : t.program.Scoped (Reached t) where
  bodies f reached := by
    rcases reached with checked | native | sees
    · rcases h.accepted.correct f checked with native | ⟨m, Γ, -, typed⟩
      · exact .inl native
      · exact .inr (typed.scoped (fun g type known => .inl known.1) (covers_functionScopes m _ _))
    · exact .inl native
    · exact .inr (Statement.allScoped_mono (fun _ no => no.elim) (List.Subset.refl _) _ sees)
  methods type name f found := by
    have method : (afterReading files).program.IsMethod f :=
      Program.isMethod_of_members h.accepted.later.evolves.members
        (Program.isMethod_of_findMethod? found)
    rcases (orderly_afterReading files).methods f method with shown | harmless
    · exact .inl (h.accepted.checked_of_shown shown)
    · exact h.reached_of_harmless harmless

theorem length_modules_readAll (c : Compilation) (files : List (String × Lexed)) :
    (c.readAll files).modules.length = c.modules.length + files.length := by
  induction files generalizing c with
  | nil => rfl
  | cons file rest ih =>
    rw [readAll, List.foldl_cons, ← readAll, ih]
    simp only [read, List.length_append, List.length_cons, List.length_nil]
    omega

/-- The functions of the last module are checked, unless that is the builtin module, where all bodies
    are empty. -/
theorem Compiled.checked_or_empty (h : Compiled files c t) {m : Module}
    (last : c.modules.getLast? = some m) {f : FunctionId} (own : f ∈ m.ownFunctions) :
    f ∈ t.checked ∨ (t.program.function f).body = [] := by
  rw [h.modules] at last
  have untouched (unchecked : f ∉ t.checked) :
      t.program.function f = (afterReading files).program.function f :=
    h.accepted.later.untouched f unchecked
  cases files with
  | nil =>
    by_cases checked : f ∈ t.checked
    · exact .inl checked
    · rw [untouched checked]
      rw [afterReading_nil] at last ⊢
      exact .inr (List.isEmpty_iff.1 ((builtin.2.1 m (List.mem_of_getLast? last)).2 f own))
  | cons file rest =>
    have length := length_modules_readAll
      ((new.addSources (file :: rest)).recordLexed ((file :: rest).map lex)) ((file :: rest).map lex)
    rw [List.getLast?_eq_getElem?] at last
    refine .inl (h.accepted.checked_of_shown ⟨_, m, ?_, last, own⟩)
    have builtin := List.length_pos_iff.2 modules_new_ne_nil
    rw [← modules_sources new (file :: rest)] at builtin
    rw [afterReading, length, List.length_map, List.length_cons]
    omega

theorem Compiled.reached_own (h : Compiled files c t) {m : Module}
    (last : c.modules.getLast? = some m) {f : FunctionId} (own : f ∈ m.ownFunctions) :
    Reached t f :=
  (h.checked_or_empty last own).imp_right Function.harmless_of_empty

theorem Compiled.body_own (h : Compiled files c t) {m : Module} (read : m ∈ c.modules)
    {f : FunctionId} (body : m.body = some f) : f ∈ m.ownFunctions :=
  (orderly_afterReading files).bodies m (h.modules ▸ read) f body

theorem main_own {m : Module} {p : Program} {f : FunctionId} (h : m.main? p = some f) :
    f ∈ m.ownFunctions :=
  (List.mem_filter.1 (List.mem_of_find?_eq_some h)).1

end Compilation

namespace Machine

theorem finds_callIfAny {callable : FunctionId → Prop} {p : Program} (h : p.Scoped callable)
    {names : List String} (bound : Nat) {id : Option FunctionId} (known : ∀ f ∈ id, callable f)
    (line : FunctionId → Nat) (value : Value) : Finds names (callIfAny p bound id line value) := by
  cases id with
  | none => exact .pure value
  | some f => exact finds_callWithin h bound bound (known f rfl) [] (line f)

theorem finds_run {callable : FunctionId → Prop} {p : Program} (h : p.Scoped callable)
    {names : List String} (bound : Nat) {entry : Option Entry}
    (body : ∀ e ∈ entry, ∀ f ∈ e.body, callable f) (main : ∀ e ∈ entry, ∀ f ∈ e.main, callable f) :
    Finds names (run p bound entry) := by
  cases entry with
  | none => exact fun _ _ => trivial
  | some e =>
    refine .bind (finds_callIfAny h bound (body e rfl) _ _) fun value => ?_
    refine .bind (finds_callIfAny h bound (main e rfl) _ _) fun value => ?_
    exact .bind (.of_blames (.onConsole 0 _) (.onConsole 0 fun c => c.plain_flush.bound))
      fun _ => .pure value

end Machine

namespace Compilation

variable {files : List SourceFile} {c : Compilation} {t : Typing.State}

theorem Compiled.finds_run (h : Compiled files c t) (bound : Nat) {names : List String} :
    Machine.Finds names
      (Machine.run c.program bound (c.modules.getLast?.map (Machine.Entry.ofModule c.program))) := by
  rw [h.program]
  refine Machine.finds_run h.scoped bound ?_ ?_
  · rintro e he f hf
    obtain ⟨m, last, rfl⟩ := Option.map_eq_some_iff.1 he
    exact h.reached_own last (h.body_own (List.mem_of_getLast? last) hf)
  · rintro e he f hf
    obtain ⟨m, last, rfl⟩ := Option.map_eq_some_iff.1 he
    exact h.reached_own last (main_own hf)

/-- A run of a body, begun in `s`, and the walk of the checker over it, begun in `v`: whenever the
    run looks a variable up, or assigns to it, the binding that is found was made where the checker
    found that name when it visited what the expression stems from. The checker sees the types of
    the module below. -/
def SitesAgree (m : Machine.Context) (body : List Statement) (s : Machine.State)
    (k : Typing.Context) (raw : List Statement) (v : Typing.State) (σ types : Sites) : Prop :=
  ∀ π e w τ name u, Machine.ComesAll m π e w τ body [] 0 s σ → Machine.Uses m name u e w →
    ∃ site, u.scopes.FoundAt τ name site ∧ ∃ unbound t,
      VisitsAll k π unbound t (τ ++ types) raw [] 0 v (σ ++ types) ∧
        (visit k unbound t).expr = e ∧ t.scopes.FoundAt (τ ++ types) name site

theorem sitesAgree {callable : FunctionId → Prop} {m : Machine.Context} (safe : m.Safe callable)
    {k : Typing.Context} (hk : k.Keeping) {raw : List Statement} {v : Typing.State}
    (current : k.current ∈ v.checked) (clean : (Typing.checkAll k raw v).2.Clean) {s : Machine.State}
    {σ types : Sites} (bound : s.names = σ.names) (aligned : Aligned v (σ ++ types))
    (sees : Statement.AllScoped callable σ.names (Typing.checkAll k raw v).1) :
    SitesAgree m (Typing.checkAll k raw v).1 s k raw v σ types := by
  intro π e w τ name u comes uses
  obtain ⟨needs, names⟩ := comes.found safe sees bound
  obtain ⟨visible, names'⟩ := uses.found safe needs names
  obtain ⟨unbound, t, visits, same⟩ := stemsAll_of_comesAll hk current clean sees types comes
  obtain ⟨site, newest⟩ : ∃ site, τ.lookup name = some site := by
    cases found : τ.lookup name with
    | some site => exact ⟨site, rfl⟩
    | none => exact absurd visible (Machine.not_mem_of_lookup_eq_none found)
  refine ⟨site, ⟨names', newest⟩, unbound, t, visits, same, visits.aligned hk aligned, ?_⟩
  rw [List.lookup_append, newest, Option.some_or]

/-- No run of an accepted program misses a variable. And in the body of a function that the check
    entered, a run finds every variable bound where the check found it. -/
theorem variables_found (accepted : new.compile files = (.ok (), c)) :
    (∀ bound console line name s,
      c.run bound console ≠ .fault (.at line (.unknownVariable name)) s) ∧
    ∀ f ∈ (afterReading files).entered, (c.program.function f).isNative = false →
      ∃ (m : Module) (k : Typing.Context) (v : Typing.State),
        c.modules[(c.program.function f).module]? = some m ∧ k.modules = c.modules ∧
        k.current = f ∧ v.scopes = functionScopes m c.program (c.program.function f) ∧
        (Typing.checkAll k ((afterReading files).program.function f).body v).1 =
          (c.program.function f).body ∧
        ∀ (rounds depth : Nat) (s : Machine.State) (arguments : List Value),
          arguments.length = (c.program.function f).parameters.length →
          s.scopes = Scopes.empty.openSegment
            (((c.program.function f).parameters.map Parameter.name).zip arguments) →
          SitesAgree
            { program := c.program, call := Machine.callWithin c.program rounds depth, rounds }
            (c.program.function f).body s k ((afterReading files).program.function f).body v
            (c.program.function f).sites (m.typeSites c.program) := by
  have h := compiled accepted
  unfold entered
  generalize (afterReading files).checkFrom 1 (afterReading files).unchecked = t at h ⊢
  constructor
  · intro bound console line name s missed
    have meets := h.finds_run bound { console : Machine.State } rfl
    rw [run] at missed
    rw [missed] at meets
    exact meets
  · intro f checked written
    rw [h.program] at written ⊢
    obtain ⟨m, depth, v, found, scopes, entered, -, clean, body⟩ :=
      (h.accepted.walked f checked).resolve_left (Bool.eq_false_iff.1 written)
    refine ⟨m, _, v, h.modules ▸ found, h.modules.symm, rfl, scopes, body.symm, ?_⟩
    intro rounds depth s arguments arity frame
    have safe : Machine.Context.Safe (Reached t)
        { program := t.program, call := Machine.callWithin t.program rounds depth, rounds } :=
      ⟨fun _ arguments line _ known => Machine.finds_callWithin h.scoped _ _ known arguments line,
        fun _ receiver heap known => Machine.callable_dispatch h.scoped known receiver heap⟩
    have sees := (h.scoped.bodies f (.inl checked)).resolve_left (Bool.eq_false_iff.1 written)
    rw [← Function.names_sites] at sees
    rw [body] at sees ⊢
    refine sitesAgree safe (fun target s => keeps_checkWithin _ _ target s) entered clean ?_ ?_ sees
    · rw [Function.names_sites, Machine.State.names, frame]
      exact Machine.names_frame (arity.trans (List.length_map _).symm)
    · rw [Aligned, scopes]
      exact aligned_functionScopes _ _ _

/-- A loop whose rounds shadow the parameter that its condition reads. -/
theorem variables_found_shadowed :
    let files : List SourceFile :=
      [⟨"m.kv",
        "fn f(n: Int) { while n > 0: { let n = n * 2; n = n + 1; ret n; } ret 0; } let x = f(3);"⟩]
    let c := (new.compile files).2
    new.compile files = (.ok (), c) ∧
      ∀ bound console line name s,
        c.run bound console ≠ .fault (.at line (.unknownVariable name)) s := by
  intro files c
  have accepted : new.compile files = (.ok (), c) := compile_eq_of_ok (by decide +kernel)
  exact ⟨accepted, (variables_found accepted).1⟩

end Compilation
end ObjectLang
