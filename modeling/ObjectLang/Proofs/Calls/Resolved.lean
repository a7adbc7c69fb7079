import ObjectLang.Proofs.Calls.Accepted
import ObjectLang.Proofs.Program.Builtin
set_option autoImplicit false

/-!
# Calls that are bound

The methods of a list are checked only if a call is bound to one. A call may run one all the same,
if its target is virtual and has the name of such a method. Otherwise a run comes to nothing but
checked functions, and all calls in them are bound.
-/

namespace ObjectLang

open Typing

namespace Program

/-- No list has a method by the name of a function that is looked up for every call. -/
def ListsApart (p : Program) : Prop :=
  ∀ i < p.types.size, (p.types.get ⟨i⟩).isList = true →
    ∀ f ∈ p.functions.functions, f.traits.isDispatched = true →
      (p.types.get ⟨i⟩).ownMethod? f.name = none

instance (p : Program) : Decidable p.ListsApart := by
  unfold ListsApart
  infer_instance

variable {p : Program} {P : FunctionId → Prop}

theorem ListsApart.dispatch (apart : p.ListsApart) (owned : p.Owned P) (target : FunctionId)
    (receiver : Option Value) (heap : Heap) :
    Machine.dispatch p target receiver heap = target ∨
      P (Machine.dispatch p target receiver heap) := by
  rcases p.eq_or_found_of_dispatch target receiver heap with same | ⟨ref, -, dispatched, found⟩
  · exact .inl same
  · obtain ⟨owner, -, own, proper⟩ := owned.found found
    refine .inr (proper.shown.resolve_right fun list => ?_)
    have known := (hasEntry_of_ownMethod? own).knows
    rw [apart owner.index known list _ (mem_functions (declares_of_isDispatched dispatched))
      dispatched] at own
    cases own

end Program

namespace Compilation

variable {files : List SourceFile} {c : Compilation} {t : Typing.State} {f : FunctionId}

/-- If lists have no methods by the names of virtual ones, a run comes to checked functions. -/
theorem Compiled.checked_of_reaches (h : Compiled files c t) (apart : t.program.ListsApart)
    (reaches : t.program.Reaches c.Starts f) :
    f ∈ t.checked ∨ (t.program.function f).body = [] := by
  induction reaches with
  | start first =>
    obtain ⟨m, last, own⟩ := h.own_of_starts first
    exact h.checked_or_empty last own
  | call reaches written calls bound receives ih =>
    obtain ⟨type, checked, -⟩ := (h.targets_of_bound (h.reached reaches) written calls bound).returns
    rcases apart.dispatch h.owned _ _ _ with same | shown
    · exact .inl (same.symm ▸ checked)
    · exact .inl shown

theorem Compiled.bound_of_reaches (h : Compiled files c t) (apart : t.program.ListsApart)
    (reaches : t.program.Reaches c.Starts f) (written : (t.program.function f).isNative = false)
    {call : Call} (calls : call ∈ Statement.allCalls (t.program.function f).body) :
    ∃ target, call.target = some target := by
  rcases h.checked_of_reaches apart reaches with checked | empty
  · obtain ⟨target, targets⟩ := h.targets checked written calls
    exact ⟨target, targets.bound⟩
  · rw [empty] at calls
    cases calls

/-- If lists have no methods by the names of virtual ones, every function with a body that a run
    comes to was checked, all its calls are bound, and no run ends with an unbound call. -/
theorem calls_bound (accepted : new.compile files = (.ok (), c)) (apart : c.program.ListsApart) :
    (∀ bound console line name s,
      c.run bound console ≠ .fault (.at line (.unresolvedCall name)) s) ∧
    ∀ f, c.program.Reaches c.Starts f →
      (f ∈ (afterReading files).entered ∨ (c.program.function f).body = []) ∧
        ((c.program.function f).isNative = false →
          ∀ call ∈ Statement.allCalls (c.program.function f).body,
            ∃ target, call.target = some target) := by
  have h := compiled accepted
  unfold entered
  generalize (afterReading files).checkFrom 1 (afterReading files).unchecked = t at h ⊢
  have targeted (f : FunctionId) (reaches : c.program.Reaches c.Starts f)
      (written : (c.program.function f).isNative = false) (call : Call)
      (calls : call ∈ Statement.allCalls (c.program.function f).body) :
      ∃ target, call.target = some target := by
    rw [h.program] at apart reaches written calls
    exact h.bound_of_reaches apart reaches written calls
  constructor
  · let P (cause : Fault.Cause) : Prop := ∀ name, cause ≠ .unresolvedCall name
    have upholds : Machine.Upholds P c.program (c.program.Reaches c.Starts) := by
      refine ⟨?_, nofun, nofun, fun _ _ _ _ _ => .inr nofun, ?_, ?_⟩
      · rintro cause plain name rfl
        cases plain
      · intro f reaches written call calls free
        obtain ⟨target, bound⟩ := targeted f reaches written call calls
        rw [free] at bound
        cases bound
      · intro f reaches written call calls target bound receiver heap receives
        exact ⟨.call reaches written calls bound receives, .inr nofun⟩
    intro bound console line name s
    exact run_ne_fault upholds (fun f first => ⟨.start first, .inr nofun⟩) (fun never => never name rfl)
      bound console line s
  · intro f reaches
    refine ⟨?_, targeted f reaches⟩
    rw [h.program] at apart reaches ⊢
    exact h.checked_of_reaches apart reaches

/-- A list that is taken for an object of a type with a virtual method. -/
def castList (name : String) : List SourceFile :=
  [⟨"m.kv", "type A { } fn A." ++ name ++ "(x: Int) [virtual] { } let a = [1] as A; a." ++ name ++
    "(2);"⟩]

def castListRead (name : String) : Compilation := (new.compile (castList name)).2

theorem compile_castList {name : String} (ok : (new.compile (castList name)).1 = .ok ()) :
    new.compile (castList name) = (.ok (), castListRead name) :=
  compile_eq_of_ok ok

theorem castList_compiled : ∀ name ∈ ["add", "append"],
    (new.compile (castList name)).1 = .ok () ∧
      ((castListRead name).program.ListsApart ↔ name = "add") ∧
      (name ≠ "add" → ((castListRead name).run 10 {}).fault? =
        some (.at 0 (.unresolvedCall "reSize"))) ∧
      (castListRead name).modules.getLast?.bind Module.body = some ⟨6⟩ ∧
      ((castListRead name).program.function ⟨6⟩).isNative = false := by
  simp only [castListRead, new_eq]
  decide +kernel

/-- A virtual method that no list has by name. -/
theorem calls_bound_cast :
    (∀ bound console line name s,
      (castListRead "add").run bound console ≠ .fault (.at line (.unresolvedCall name)) s) ∧
    ∀ call ∈ Statement.allCalls ((castListRead "add").program.function ⟨6⟩).body,
      ∃ target, call.target = some target := by
  obtain ⟨ok, apart, -, starts, written⟩ := castList_compiled "add" (by decide)
  obtain ⟨m, last, first⟩ := Option.bind_eq_some_iff.1 starts
  obtain ⟨never, reached⟩ := calls_bound (compile_castList ok) (apart.2 rfl)
  exact ⟨never, (reached ⟨6⟩ (.start ⟨m, last, .inl first⟩)).2 written⟩

/-- The method of the list runs in place of the virtual one, and nothing has checked it. -/
theorem castList_unbound :
    new.compile (castList "append") = (.ok (), castListRead "append") ∧
      ∃ s, (castListRead "append").run 10 {} = .fault (.at 0 (.unresolvedCall "reSize")) s := by
  obtain ⟨ok, -, fails, -⟩ := castList_compiled "append" (by decide)
  exact ⟨compile_castList ok, Machine.Outcome.exists_fault (fails (by decide))⟩

end Compilation
end ObjectLang
