import ObjectLang.Proofs.Calls.Override
import ObjectLang.Proofs.Lists.Ready
set_option autoImplicit false

/-!
# Calls with as many arguments as parameters

A call is checked against its target. If that is virtual, another method of its name may run, and
the numbers of their parameters are never compared. If all methods of that name have equally many
parameters, a call fits whatever it runs. Functions of the host count their arguments once more.
-/

namespace ObjectLang

open Typing

namespace Program

/-- All methods by the name of a function that is looked up for every call have as many parameters
    as that function. -/
def Uniform (p : Program) : Prop :=
  ∀ f ∈ p.functions.functions, f.traits.isDispatched = true →
    ∀ g ∈ p.functions.functions, g.parent.isSome = true → g.name = f.name →
      g.parameters.length = f.parameters.length

instance (p : Program) : Decidable p.Uniform := by
  unfold Uniform
  infer_instance

variable {p : Program} {P : FunctionId → Prop}

theorem Uniform.dispatch (uniform : p.Uniform) (owned : p.Owned P) (target : FunctionId)
    (receiver : Option Value) (heap : Heap) :
    (p.function (Machine.dispatch p target receiver heap)).parameters.length =
      (p.function target).parameters.length := by
  rcases p.eq_or_found_of_dispatch target receiver heap with same | ⟨ref, -, dispatched, found⟩
  · rw [same]
  · obtain ⟨owner, -, -, proper⟩ := owned.found found
    have method : (p.function (Machine.dispatch p target receiver heap)).parent.isSome = true := by
      rw [proper.parent]
      rfl
    exact uniform _ (mem_functions (declares_of_isDispatched dispatched)) dispatched _
      (mem_functions (declares_of_isSome_parent method)) method proper.name

end Program

namespace Compilation

def HostsBuiltin (c : Compilation) : Prop :=
  ∀ i < c.program.functions.size, (c.program.function ⟨i⟩).isNative = true → new.program.Declares ⟨i⟩

instance (c : Compilation) : Decidable c.HostsBuiltin := by
  unfold HostsBuiltin Program.Declares
  infer_instance

variable {files : List SourceFile} {c : Compilation} {t : Typing.State} {f : FunctionId}

theorem Compiled.arity_host (h : Compiled files c t) (declares : new.program.Declares f)
    (isNative : (t.program.function f).isNative = true) {native : Machine.Native}
    (named : Machine.Native.named? (t.program.function f).name = some native) :
    native.arity = (t.program.function f).parameters.length := by
  have evolves : (afterReading files).program.Evolves t.program := h.accepted.later.evolves
  have same := function_afterReading files declares
  rw [evolves.isNative_eq, same] at isNative
  rw [evolves.name_eq, same] at named
  rw [evolves.parameters_eq, same]
  exact builtin.2.2 _ (Program.mem_functions (Program.declares_of_isNative isNative)) isNative native named

/-- If methods of the name of a virtual one have equally many parameters, and only the builtin module
    declares functions of the host, every call that a run comes to has as many arguments as the
    function that runs has parameters, and no run ends with a wrong number of arguments. -/
theorem calls_fit (accepted : new.compile files = (.ok (), c)) (hosts : c.HostsBuiltin)
    (uniform : c.program.Uniform) :
    (∀ bound console line name expected found s,
      c.run bound console ≠ .fault (.at line (.argumentCount name expected found)) s) ∧
    ∀ f, c.program.Reaches c.Starts f → (c.program.function f).isNative = false →
      ∀ call ∈ Statement.allCalls (c.program.function f).body, ∀ target, call.target = some target →
        ∀ receiver heap,
          (c.program.function (Machine.dispatch c.program target receiver heap)).parameters.length =
            call.count := by
  have h := compiled accepted
  generalize (afterReading files).checkFrom 1 (afterReading files).unchecked = t at h
  have fits (f : FunctionId) (reaches : c.program.Reaches c.Starts f)
      (written : (c.program.function f).isNative = false) (call : Call)
      (calls : call ∈ Statement.allCalls (c.program.function f).body) (target : FunctionId)
      (bound : call.target = some target) (receiver : Option Value) (heap : Heap) :
      (c.program.function (Machine.dispatch c.program target receiver heap)).parameters.length =
        call.count := by
    rw [h.program] at uniform reaches written calls ⊢
    rw [uniform.dispatch h.owned]
    exact (h.targets_of_bound (h.reached reaches) written calls bound).arity
  refine ⟨?_, fits⟩
  let P (cause : Fault.Cause) : Prop :=
    ∀ name expected found, cause ≠ .argumentCount name expected found
  have upholds : Machine.Upholds P c.program (c.program.Reaches c.Starts) := by
    refine ⟨?_, nofun, nofun, ?_, nofun, ?_⟩
    · rintro cause plain name expected found rfl
      cases plain
    · intro f reaches isNative native named
      have declares := hosts f.index (Program.declares_of_isNative isNative) isNative
      rw [h.program] at isNative named ⊢
      exact .inl (h.arity_host declares isNative named).symm
    · intro f reaches written call calls target bound receiver heap receives
      exact ⟨.call reaches written calls bound receives,
        .inl (fits f reaches written call calls target bound receiver heap).symm⟩
  have starts (f : FunctionId) (first : c.Starts f) : c.program.Reaches c.Starts f ∧
      Machine.Fits P (c.program.function f).parameters.length 0 := by
    refine ⟨.start first, .inl ?_⟩
    rw [h.program, h.parameters_of_starts first]
    rfl
  intro bound console line name expected found s
  exact run_ne_fault upholds starts (fun never => never name expected found rfl) bound console line s

theorem shadowed_uniform : ∀ parameters ∈ ["", "x: Int"],
    (new.compile (shadowing parameters "")).1 = .ok () ∧
      (shadowed parameters "").HostsBuiltin ∧
      ((shadowed parameters "").program.Uniform ↔ parameters = "") ∧
      (parameters ≠ "" → ((shadowed parameters "").run 10 {}).fault? =
        some (.at 1 (.argumentCount "f" 2 1))) ∧
      (shadowed parameters "").modules.getLast?.bind Module.body = some ⟨6⟩ ∧
      ((shadowed parameters "").program.function ⟨6⟩).isNative = false ∧
      ⟨some ⟨8⟩, true, 1⟩ ∈
        Statement.allCalls ((shadowed parameters "").program.function ⟨6⟩).body ∧
      Machine.dispatch (shadowed parameters "").program ⟨8⟩ none {} = ⟨8⟩ ∧
      ((shadowed parameters "").program.function ⟨8⟩).isNative = false ∧
      ⟨some ⟨7⟩, true, 1⟩ ∈
        Statement.allCalls ((shadowed parameters "").program.function ⟨8⟩).body := by
  simp only [shadowed, HostsBuiltin, Program.Declares, new_eq]
  decide +kernel

/-- Methods of the same number of parameters fit, whichever runs. -/
theorem calls_fit_shadowed :
    (∀ bound console line name expected found s,
      (shadowed "" "").run bound console ≠ .fault (.at line (.argumentCount name expected found)) s) ∧
    ∀ receiver heap, ((shadowed "" "").program.function
      (Machine.dispatch (shadowed "" "").program ⟨7⟩ receiver heap)).parameters.length = 1 := by
  obtain ⟨ok, hosts, uniform, -, starts, written, calls, runs, written', calls'⟩ :=
    shadowed_uniform "" (by decide)
  have reaches := reaches_of_body starts written calls rfl (fun _ => rfl) runs
  obtain ⟨never, fits⟩ := calls_fit (compile_shadowing ok) hosts (uniform.2 rfl)
  exact ⟨never, fits ⟨8⟩ reaches written' _ calls' ⟨7⟩ rfl⟩

/-- A method with a parameter more runs with an argument less. -/
theorem shadowed_misfits :
    new.compile (shadowing "x: Int" "") = (.ok (), shadowed "x: Int" "") ∧
      (shadowed "x: Int" "").HostsBuiltin ∧
      ∃ s, (shadowed "x: Int" "").run 10 {} = .fault (.at 1 (.argumentCount "f" 2 1)) s := by
  obtain ⟨ok, hosts, -, fails, -⟩ := shadowed_uniform "x: Int" (by decide)
  exact ⟨compile_shadowing ok, hosts, Machine.Outcome.exists_fault (fails (by decide))⟩

end Compilation
end ObjectLang
