import ObjectLang.Proofs.Grammar.Log
import ObjectLang.Proofs.Program.Builtin
import ObjectLang.Proofs.Typing.Compiled
import ObjectLang.Proofs.Typing.Trail
set_option autoImplicit false

/-!
# Phases of a compilation

Each phase runs over all files and adds to the log. A compilation ends behind the first phase that
has recorded an error, with the errors of that phase and an empty log, and what later phases would
have changed is left as it was.
-/

namespace ObjectLang

namespace Diagnostics

variable {d e : Diagnostics} {new : List Diagnostic}

theorem hasError_eq_false : d.hasError = false ↔ d.errorCount = 0 := by
  unfold hasError errorCount
  rw [List.countP_eq_zero, ← Bool.not_eq_true, Array.any_eq_true']
  simp only [Array.mem_toList_iff, not_exists, not_and]

def since (d e : Diagnostics) : List Diagnostic := e.entries.toList.drop d.entries.size

theorem Logs.since_eq (h : Logs d new e) : d.since e = new := by
  rw [since, h.entries, ← Array.length_toList, List.drop_left]

theorem Logs.errorCount_eq (h : Logs d new e) :
    e.errorCount = d.errorCount + (new.filter isError).length := by
  rw [errorCount, h.entries, List.countP_append]
  exact congrArg (d.errorCount + ·) List.countP_eq_length_filter

theorem logs_error (d : Diagnostics) (entry : Diagnostic) (error : isError entry = true) :
    d.Logs [entry] (d.push entry) := by
  have severe : entry.severity = .error := beq_iff_eq.1 error
  rw [push, severe]
  exact ⟨Array.toList_push, fun _ => ⟨rfl, List.forall_mem_singleton.2 error⟩⟩

theorem logs_extend (d : Diagnostics) {entries : List Diagnostic}
    (errors : ∀ x ∈ entries, isError x = true) : d.Logs entries (d.extend entries) := by
  induction entries generalizing d with
  | nil => exact .refl d
  | cons x rest ih =>
    obtain ⟨error, errors⟩ := List.forall_mem_cons.1 errors
    exact (logs_error d x error).trans (ih (d.push x) errors)

def reports {σ α : Type} (log : σ → Diagnostics) (step : σ → α → σ) (s : σ) :
    List α → List (List Diagnostic)
  | [] => []
  | a :: rest => (log s).since (log (step s a)) :: reports log step (step s a) rest

theorem logs_foldl {σ α : Type} (log : σ → Diagnostics) (step : σ → α → σ)
    (logs : ∀ s a, ∃ new, (log s).Logs new (log (step s a))) (s : σ) (as : List α) :
    (log s).Logs (reports log step s as).flatten (log (as.foldl step s)) := by
  induction as generalizing s with
  | nil => exact .refl _
  | cons a rest ih =>
    obtain ⟨new, first⟩ := logs s a
    rw [reports, first.since_eq]
    exact first.trans (ih (step s a))

theorem reports_eq_map {σ α : Type} (log : σ → Diagnostics) {step : σ → α → σ}
    {new : α → List Diagnostic} (logs : ∀ s a, (log s).Logs (new a) (log (step s a))) (s : σ)
    (as : List α) : reports log step s as = as.map new := by
  induction as generalizing s with
  | nil => rfl
  | cons a rest ih => rw [reports, (logs s a).since_eq, ih, List.map_cons]

end Diagnostics

namespace Typing

def State.Logs (s t : State) : Prop := ∃ new, s.diagnostics.Logs new t.diagnostics

theorem State.Logs.refl (s : State) : s.Logs s := ⟨[], .refl _⟩

theorem State.Logs.trans {s t u : State} (h : s.Logs t) (h' : t.Logs u) : s.Logs u := by
  obtain ⟨new, first⟩ := h
  obtain ⟨new', second⟩ := h'
  exact ⟨new ++ new', first.trans second⟩

theorem Change.logs {current : FunctionId} {s t : State} (h : Change current s t) : s.Logs t := by
  cases h with
  | error line e =>
    have located : ({ s.diagnostics with line } : Diagnostics).Logs _ _ :=
      Diagnostics.logs_error _ ⟨.error, s.diagnostics.file, line, e.message⟩ rfl
    exact ⟨_, located.entries, located.strict⟩
  | _ => exact ⟨[], .refl _⟩

def Context.Logging (c : Context) : Prop := ∀ target (s : State), s.Logs (c.checkTarget target s)

theorem Traced.logs {α : Type} {c : Context} {F : Context → α} {s t : State}
    (h : Traced c s F t) (logging : c.Logging) : s.Logs t := by
  obtain ⟨log, trail, given, -⟩ := h
  exact (trail.keeps (R := State.Logs) .refl State.Logs.trans Change.logs fun a ha =>
    given a ha ▸ logging a.target a.before).1

theorem logs_checkBody {c : Context} (logging : c.Logging) (m : Module) (s : State) :
    s.Logs (checkBody c m s) := by
  let f := s.program.function c.current
  obtain ⟨new, inside⟩ := (traced_checkAll (c := c) f.body (s.enter m f)).logs logging
  exact ⟨new, inside.entries, inside.strict⟩

theorem logs_checkWithin (modules : List Module) (depth : Nat) (id : FunctionId) (s : State) :
    s.Logs (checkWithin modules depth id s) := by
  induction depth generalizing id s with
  | zero => exact .refl s
  | succ depth ih =>
    have marked : s.Logs (s.markChecked id) := ⟨[], .refl _⟩
    unfold checkWithin
    split
    · exact .refl s
    · dsimp only
      split
      · exact marked
      · split
        · exact marked
        · rename_i m _
          exact marked.trans (logs_checkBody (c := ⟨modules, id, checkWithin modules depth⟩) ih m
            (s.markChecked id))

theorem logs_checkModule (modules : List Module) (index : Nat) (s : State) :
    s.Logs (checkModule modules index s) := by
  unfold checkModule
  split
  · exact .refl s
  · rename_i m _
    exact ⟨_, Diagnostics.logs_foldl State.diagnostics (fun s id => checkFunction modules id s)
      (fun s id => logs_checkWithin modules _ id s) s m.ownFunctions⟩

end Typing

inductive Phase
  | lexing | reading | checking
  deriving DecidableEq, Repr

def Phase.earlier : Phase → List Phase
  | lexing => []
  | reading => [lexing]
  | checking => [lexing, reading]

namespace Compilation

section Phases

variable (c : Compilation) (files : List SourceFile)

def after : Phase → Compilation
  | .lexing => (c.addSources files).recordLexed (files.map lex)
  | .reading => ((c.addSources files).recordLexed (files.map lex)).readAll (files.map lex)
  | .checking =>
    (((c.addSources files).recordLexed (files.map lex)).readAll (files.map lex)).checkAll

/-- What a phase records: while files are cut into tokens or read for each file, and while modules
    are checked for each of them but the builtin one. -/
def reports : Phase → List (List Diagnostic)
  | .lexing =>
    Diagnostics.reports id (fun d file => d.extend (lex file).2.diagnostics)
      (c.addSources files).diagnostics files
  | .reading =>
    Diagnostics.reports Compilation.diagnostics (fun c file => c.read file.1 file.2)
      (c.after files .lexing) (files.map lex)
  | .checking =>
    let read := c.after files .reading
    Diagnostics.reports Typing.State.diagnostics
      (fun s index => Typing.checkModule read.modules index s) read.unchecked
      ((List.range read.modules.length).drop 1)

def errors (phase : Phase) : List Diagnostic :=
  (c.reports files phase).flatten.filter Diagnostics.isError

def FailsIn (phase : Phase) : Prop :=
  c.errors files phase ≠ [] ∧ ∀ before ∈ phase.earlier, c.errors files before = []

def cleared : Compilation := { c with diagnostics := c.diagnostics.cleared }

structure Idle : Prop where
  entries : c.diagnostics.entries = #[]
  strict : c.diagnostics.verbosity.recordsWarnings = false

/-- The call ends with the errors of a phase. It has done what that phase and those before it do, and
    only the log is empty. -/
structure StopsIn (phase : Phase) : Prop where
  result : (c.compile files).1 = .error
    (.rejected (c.errors files phase).length (c.after files phase).diagnostics.report)
  state : (c.compile files).2 = (c.after files phase).cleared

structure Gated : Prop where
  /-- It succeeds if no phase records an error. -/
  accepts : (c.compile files).1 = .ok () ↔ ∀ phase, c.errors files phase = []
  /-- Else it ends behind the first phase that does. -/
  refuses : ∀ phase, c.FailsIn files phase → c.StopsIn files phase
  /-- Whatever is in the log has been reported by the phases, one behind the other. -/
  recorded : ∀ phase, (c.after files phase).diagnostics.entries.toList =
    c.diagnostics.entries.toList ++
      (phase.earlier ++ [phase]).flatMap fun p => (c.reports files p).flatten
  lexed : c.errors files .lexing = files.flatMap fun file => (lex file).2.diagnostics
  /-- Where some text cannot be cut into tokens, no file is read. -/
  unread : ∀ file ∈ files, (lex file).2.hasError = true → c.StopsIn files .lexing ∧
    (c.compile files).2.modules = c.modules ∧ (c.compile files).2.program = c.program
  /-- Where some file cannot be read, no function is checked. -/
  unchecked : c.FailsIn files .reading →
    (c.compile files).2.program = (c.after files .reading).program
  clean : (c.compile files).2.diagnostics.hasError = false
  idle : c.Idle → (c.compile files).2.Idle

end Phases

variable {c : Compilation} {files : List SourceFile}

theorem logs_addSources (c : Compilation) (files : List SourceFile) :
    c.diagnostics.Logs [] (c.addSources files).diagnostics := by
  have known (d : Diagnostics) (file : SourceFile) :
      d.Logs [] (d.addSource file.path file.text) := ⟨(List.append_nil _).symm, fun _ => ⟨rfl, nofun⟩⟩
  suffices h : ∀ d : Diagnostics,
      d.Logs [] (files.foldl (fun d file => d.addSource file.path file.text) d) from h c.diagnostics
  induction files with
  | nil => exact .refl
  | cons file rest ih => exact fun d => (known d file).trans (ih _)

theorem isError_of_mem_lex {file : SourceFile} {x : Diagnostic}
    (hx : x ∈ (lex file).2.diagnostics) : Diagnostics.isError x = true := by
  obtain ⟨e, -, rfl⟩ := List.mem_map.1 hx
  rfl

theorem logs_lex (d : Diagnostics) (file : SourceFile) :
    d.Logs (lex file).2.diagnostics (d.extend (lex file).2.diagnostics) :=
  Diagnostics.logs_extend d fun _ hx => isError_of_mem_lex hx

theorem logs_lexing (c : Compilation) (files : List SourceFile) :
    (c.addSources files).diagnostics.Logs (c.reports files .lexing).flatten
      (c.after files .lexing).diagnostics := by
  have logs := Diagnostics.logs_foldl id
    (fun (d : Diagnostics) (file : SourceFile) => d.extend (lex file).2.diagnostics)
    (fun d file => ⟨_, logs_lex d file⟩) (c.addSources files).diagnostics files
  unfold after recordLexed
  rw [List.foldl_map]
  exact logs

theorem logs_reading (c : Compilation) (files : List SourceFile) :
    (c.after files .lexing).diagnostics.Logs (c.reports files .reading).flatten
      (c.after files .reading).diagnostics :=
  Diagnostics.logs_foldl Compilation.diagnostics
    (fun (c : Compilation) (file : String × Lexed) => c.read file.1 file.2)
    (fun c file => ⟨_, Grammar.logs_readFile c.modules file.1 _ c.program c.diagnostics⟩) _ _

theorem logs_checking (c : Compilation) (files : List SourceFile) :
    (c.after files .reading).diagnostics.Logs (c.reports files .checking).flatten
      (c.after files .checking).diagnostics :=
  Diagnostics.logs_foldl Typing.State.diagnostics
    (fun s index => Typing.checkModule (c.after files .reading).modules index s)
    (fun s index => Typing.logs_checkModule _ index s) (c.after files .reading).unchecked
    ((List.range (c.after files .reading).modules.length).drop 1)

/-- A call records what its phases report, one behind the other. -/
theorem logs_after (c : Compilation) (files : List SourceFile) (phase : Phase) :
    c.diagnostics.Logs ((phase.earlier ++ [phase]).flatMap fun p => (c.reports files p).flatten)
      (c.after files phase).diagnostics := by
  have lexed := (logs_addSources c files).trans (logs_lexing c files)
  have read := lexed.trans (logs_reading c files)
  have checked := read.trans (logs_checking c files)
  cases phase with
  | lexing => simpa [Phase.earlier] using lexed
  | reading => simpa [Phase.earlier] using read
  | checking => simpa [Phase.earlier] using checked

theorem errorCount_after (clean : c.diagnostics.hasError = false) {phase : Phase}
    (passed : ∀ before ∈ phase.earlier, c.errors files before = []) :
    (c.after files phase).diagnostics.errorCount = (c.errors files phase).length := by
  have none := Diagnostics.hasError_eq_false.1 clean
  have before : phase.earlier.flatMap (c.errors files) = [] := List.flatMap_eq_nil_iff.2 passed
  have all : ((phase.earlier ++ [phase]).flatMap fun p => (c.reports files p).flatten).filter
      Diagnostics.isError = c.errors files phase := by
    rw [List.filter_flatMap]
    change (phase.earlier ++ [phase]).flatMap (c.errors files) = _
    rw [List.flatMap_append, before, List.nil_append, List.flatMap_singleton]
  rw [(logs_after c files phase).errorCount_eq, none, all, Nat.zero_add]

section Gates

variable {next : Compilation → Except CompileError Unit × Compilation}

theorem gate_eq_const (c : Compilation)
    (next : Compilation → Except CompileError Unit × Compilation) :
    c.gate next = c.gate fun _ => next c := rfl

theorem gate_passes (none : c.diagnostics.errorCount = 0) : c.gate next = next c := by
  rw [gate, Diagnostics.hasError_eq_false.2 none]
  rfl

theorem gate_stops (some : c.diagnostics.errorCount ≠ 0) :
    c.gate next =
      (.error (.rejected c.diagnostics.errorCount c.diagnostics.report), c.cleared) := by
  have found : c.diagnostics.hasError = true :=
    Bool.not_eq_false _ ▸ mt Diagnostics.hasError_eq_false.1 some
  rw [gate, if_pos found]
  rfl

end Gates

/-- Behind each phase stands a gate. -/
theorem compile_eq_gates (c : Compilation) (files : List SourceFile) :
    c.compile files = (c.after files .lexing).gate fun _ =>
      (c.after files .reading).gate fun _ =>
        (c.after files .checking).gate fun d => (.ok (), d) := by
  have read := gate_eq_const (c.after files .reading) fun d => d.checkAll.gate fun d => (.ok (), d)
  have lexed := gate_eq_const (c.after files .lexing) fun d =>
    (d.readAll (files.map lex)).gate fun d => d.checkAll.gate fun d => (.ok (), d)
  exact lexed.trans (congrArg (fun rest => (c.after files .lexing).gate fun _ => rest) read)

theorem stopsIn (clean : c.diagnostics.hasError = false) {phase : Phase}
    (fails : c.FailsIn files phase) : c.StopsIn files phase := by
  obtain ⟨found, passed⟩ := fails
  have count := errorCount_after clean passed
  have some : (c.after files phase).diagnostics.errorCount ≠ 0 := by
    rw [count]
    exact mt List.length_eq_zero_iff.1 found
  have pass {before : Phase} (mem : before ∈ phase.earlier)
      (first : ∀ p ∈ before.earlier, p ∈ phase.earlier) :
      (c.after files before).diagnostics.errorCount = 0 := by
    rw [errorCount_after clean fun p hp => passed p (first p hp), passed before mem]
    rfl
  have ends : c.compile files =
      (.error (.rejected (c.errors files phase).length (c.after files phase).diagnostics.report),
        (c.after files phase).cleared) := by
    rw [← count, compile_eq_gates]
    cases phase with
    | lexing => exact gate_stops some
    | reading =>
      have lexed : (c.after files .lexing).diagnostics.errorCount = 0 := pass (by decide) (by decide)
      rw [gate_passes lexed]
      exact gate_stops some
    | checking =>
      have lexed : (c.after files .lexing).diagnostics.errorCount = 0 := pass (by decide) (by decide)
      have read : (c.after files .reading).diagnostics.errorCount = 0 := pass (by decide) (by decide)
      rw [gate_passes lexed, gate_passes read]
      exact gate_stops some
  exact ⟨congrArg Prod.fst ends, congrArg Prod.snd ends⟩

theorem errorCount_of_passes (clean : c.diagnostics.hasError = false)
    (passes : ∀ phase, c.errors files phase = []) (phase : Phase) :
    (c.after files phase).diagnostics.errorCount = 0 := by
  rw [errorCount_after clean fun p _ => passes p, passes phase]
  rfl

theorem compile_eq_of_passes (clean : c.diagnostics.hasError = false)
    (passes : ∀ phase, c.errors files phase = []) :
    c.compile files = (.ok (), c.after files .checking) := by
  have pass := errorCount_of_passes clean passes
  rw [compile_eq_gates, gate_passes (pass .lexing), gate_passes (pass .reading)]
  exact gate_passes (pass .checking)

theorem failsIn_or_passes (c : Compilation) (files : List SourceFile) :
    (∃ phase, c.FailsIn files phase) ∨ ∀ phase, c.errors files phase = [] := by
  by_cases lexed : c.errors files .lexing = []
  · by_cases read : c.errors files .reading = []
    · by_cases checked : c.errors files .checking = []
      · refine .inr fun phase => ?_
        cases phase <;> assumption
      · exact .inl ⟨.checking, checked, by simp [Phase.earlier, lexed, read]⟩
    · exact .inl ⟨.reading, read, by simp [Phase.earlier, lexed]⟩
  · exact .inl ⟨.lexing, lexed, nofun⟩

theorem errors_lexing (c : Compilation) (files : List SourceFile) :
    c.errors files .lexing = files.flatMap fun file => (lex file).2.diagnostics := by
  have reports : c.reports files .lexing = files.map fun file => (lex file).2.diagnostics :=
    Diagnostics.reports_eq_map id logs_lex (c.addSources files).diagnostics files
  have severe : ∀ x ∈ files.flatMap fun file => (lex file).2.diagnostics,
      Diagnostics.isError x = true := by
    intro x hx
    obtain ⟨file, -, hx⟩ := List.mem_flatMap.1 hx
    exact isError_of_mem_lex hx
  rw [errors, reports, ← List.flatMap_def, List.filter_eq_self.2 severe]

theorem failsIn_lexing {file : SourceFile} (mem : file ∈ files)
    (broken : (lex file).2.hasError = true) : c.FailsIn files .lexing := by
  refine ⟨fun none => ?_, nofun⟩
  rw [errors_lexing, List.flatMap_eq_nil_iff] at none
  rw [Lexed.hasError, none file mem] at broken
  cases broken

theorem idle_of_errorCount {d : Compilation} (idle : c.Idle) {new : List Diagnostic}
    (logs : c.diagnostics.Logs new d.diagnostics) (clean : d.diagnostics.errorCount = 0) :
    d.Idle := by
  obtain ⟨same, errors⟩ := logs.strict idle.strict
  have entries : d.diagnostics.entries.toList = new := by
    rw [logs.entries, idle.entries]
    rfl
  rw [Diagnostics.errorCount, List.countP_eq_zero, entries] at clean
  have none : new = [] := List.eq_nil_iff_forall_not_mem.2 fun x hx => clean x hx (errors x hx)
  exact ⟨Array.toList_eq_nil_iff.1 (entries.trans none), same ▸ idle.strict⟩

theorem gated (clean : c.diagnostics.hasError = false) : c.Gated files where
  accepts := by
    refine ⟨fun accepted => ?_, fun passes => congrArg Prod.fst (compile_eq_of_passes clean passes)⟩
    refine (failsIn_or_passes c files).resolve_left fun ⟨phase, fails⟩ => ?_
    cases (stopsIn clean fails).result.symm.trans accepted
  refuses _ fails := stopsIn clean fails
  recorded phase := (logs_after c files phase).entries
  lexed := errors_lexing c files
  unread file mem broken := by
    have stops := stopsIn clean (failsIn_lexing (c := c) mem broken)
    rw [stops.state]
    exact ⟨stops, rfl, rfl⟩
  unchecked fails := by
    rw [(stopsIn clean fails).state]
    rfl
  clean := by
    rcases failsIn_or_passes c files with ⟨phase, fails⟩ | passes
    · rw [(stopsIn clean fails).state]
      exact Diagnostics.hasError_fail _
    · rw [compile_eq_of_passes clean passes]
      exact Diagnostics.hasError_eq_false.2 (errorCount_of_passes clean passes .checking)
  idle idle := by
    rcases failsIn_or_passes c files with ⟨phase, fails⟩ | passes
    · rw [(stopsIn clean fails).state]
      exact ⟨rfl, ((logs_after c files phase).strict idle.strict).1 ▸ idle.strict⟩
    · rw [compile_eq_of_passes clean passes]
      exact idle_of_errorCount idle (logs_after c files .checking)
        (errorCount_of_passes clean passes .checking)

def compileEach (c : Compilation) (calls : List (List SourceFile)) : Compilation :=
  calls.foldl (fun c files => (c.compile files).2) c

/-- Before any sequence of calls and between them, a compilation lets a phase begin only if no error was
    found before. -/
theorem compile_gated (c : Compilation) (clean : c.diagnostics.hasError = false)
    (calls : List (List SourceFile)) :
    (∀ files, (c.compileEach calls).Gated files) ∧ (c.Idle → (c.compileEach calls).Idle) := by
  induction calls generalizing c with
  | nil => exact ⟨fun _ => gated clean, fun idle => idle⟩
  | cons files rest ih =>
    have first : c.Gated files := gated clean
    obtain ⟨later, idle⟩ := ih (c.compile files).2 first.clean
    exact ⟨later, fun before => idle (first.idle before)⟩

theorem Idle.clean (h : c.Idle) : c.diagnostics.hasError = false := by
  rw [Diagnostics.hasError_eq_false, Diagnostics.errorCount, h.entries]
  rfl

theorem idle_new : new.Idle := by
  rw [new_eq]
  exact ⟨by decide +kernel, by decide +kernel⟩

/-- The case of a compilation that has refused a file. -/
theorem compile_gated_refused :
    let c := new.compileEach [[⟨"a.kv", "fn f() \x7b let ; \x7d"⟩]]
    new.diagnostics.hasError = false ∧ (∀ files, c.Gated files) ∧ c.Idle := by
  obtain ⟨gated, idle⟩ := compile_gated new idle_new.clean
    [[⟨"a.kv", "fn f() \x7b let ; \x7d"⟩]]
  exact ⟨idle_new.clean, gated, idle idle_new⟩

end Compilation
end ObjectLang
