import ObjectLang.Proofs.Calls.Method
import ObjectLang.Proofs.Calls.Reach
import ObjectLang.Proofs.Scoping.Run
import ObjectLang.Proofs.Ty.Ancestry
set_option autoImplicit false

/-!
# Calls of accepted programs

In an accepted program, what a run comes to is a function that the check has entered, with every call
in it bound and of the right number of arguments, or it has no bound calls. The functions in the
method tables are checked, except for the methods of lists.
-/

namespace ObjectLang

open Typing

def Traits.isDispatched (t : Traits) : Bool := t.isVirtual || t.isOverride

namespace Program

variable {p : Program} {P : FunctionId → Prop} {type : TypeId} {name : String} {f : FunctionId}

theorem Owned.found (h : p.Owned P) (found : p.types.findMethod? type name = some f) :
    ∃ owner, p.types.derivesFrom type owner = true ∧
      (p.types.get owner).ownMethod? name = some f ∧ p.Proper P owner name f := by
  obtain ⟨owner, derives, own⟩ := Registry.exists_owner found
  exact ⟨owner, derives, own, h owner name f (hasEntry_of_ownMethod? own)⟩

theorem declares_of_ne (h : p.function f ≠ { name := "", module := 0, line := 0 }) :
    p.Declares f := by
  rw [function, Arena.get] at h
  cases found : p.functions.functions[f.index]? with
  | none =>
    rw [found] at h
    exact absurd rfl h
  | some g => exact (Array.getElem?_eq_some_iff.1 found).1

theorem mem_functions (h : p.Declares f) : p.function f ∈ p.functions.functions := by
  rw [function, Arena.get, Array.getElem?_eq_getElem h]
  exact Array.getElem_mem h

theorem declares_of_isDispatched (h : (p.function f).traits.isDispatched = true) : p.Declares f :=
  declares_of_ne fun blank => Bool.noConfusion ((congrArg (·.traits.isDispatched) blank).symm.trans h)

theorem declares_of_isSome_parent (h : (p.function f).parent.isSome = true) : p.Declares f :=
  declares_of_ne fun blank => Bool.noConfusion ((congrArg (·.parent.isSome) blank).symm.trans h)

theorem declares_of_isNative (h : (p.function f).isNative = true) : p.Declares f :=
  declares_of_ne fun blank => Bool.noConfusion ((congrArg (·.isNative) blank).symm.trans h)

/-- Another function than the target runs only if the target is looked up, in the type of an object. -/
theorem eq_or_found_of_dispatch (p : Program) (target : FunctionId) (receiver : Option Value)
    (heap : Heap) : Machine.dispatch p target receiver heap = target ∨
      ∃ ref, receiver = some (.object ref) ∧ (p.function target).traits.isDispatched = true ∧
        p.types.findMethod? (heap.object ref).type (p.function target).name =
          some (Machine.dispatch p target receiver heap) := by
  unfold Machine.dispatch
  dsimp only
  split
  · rename_i ref
    split
    · rename_i dispatched
      cases found : p.types.findMethod? (heap.object ref).type (p.function target).name with
      | none => exact .inl rfl
      | some f => exact .inr ⟨ref, rfl, dispatched, found⟩
    · exact .inl rfl
  · exact .inl rfl

end Program

namespace Compilation

/-- A run begins with the body of the last module, and goes on with its function `main`. -/
def Starts (c : Compilation) (f : FunctionId) : Prop :=
  ∃ m ∈ c.modules.getLast?, m.body = some f ∨ m.main? c.program = some f

variable {files : List SourceFile} {c : Compilation} {t : Typing.State} {f : FunctionId}

theorem Compiled.shown (h : Compiled files c t) :
    t.program.Owned (Shown (afterReading files).modules) := by
  intro type name f entry
  have evolves : (afterReading files).program.Evolves t.program := h.accepted.later.evolves
  have read := Program.hasEntry_of_members evolves.members entry
  exact ((tabled_afterReading files).methods type name f read).transport read.knows
    evolves.types.keepsShape (evolves.name_eq f) (evolves.parent_eq f)

theorem Compiled.owned (h : Compiled files c t) : t.program.Owned (· ∈ t.checked) :=
  fun type name f entry => (h.shown type name f entry).mono fun _ => h.accepted.checked_of_shown

theorem Compiled.own_of_starts (h : Compiled files c t) (starts : c.Starts f) :
    ∃ m, c.modules.getLast? = some m ∧ f ∈ m.ownFunctions := by
  obtain ⟨m, last, body | main⟩ := starts
  · exact ⟨m, last, h.body_own (List.mem_of_getLast? last) body⟩
  · exact ⟨m, last, main_own main⟩

theorem Compiled.parameters_of_starts (h : Compiled files c t) (starts : c.Starts f) :
    (t.program.function f).parameters = [] := by
  obtain ⟨m, last, body | main⟩ := starts
  · rw [h.accepted.later.evolves.parameters_eq]
    exact (tabled_afterReading files).bodies m (h.modules ▸ List.mem_of_getLast? last) f body
  · rw [Module.main?, h.program] at main
    have empty := List.find?_some main
    exact List.isEmpty_iff.1 empty

/-- A run fails for no cause outside `P`, if the functions that it comes to uphold `P`. -/
theorem run_ne_fault {P : Fault.Cause → Prop} {reached : FunctionId → Prop}
    (upholds : Machine.Upholds P c.program reached)
    (starts : ∀ f, c.Starts f → reached f ∧
      Machine.Fits P (c.program.function f).parameters.length 0)
    {cause : Fault.Cause} (never : ¬P cause) (bound : Nat) (console : Console) (line : Nat)
    (s : Machine.State) : c.run bound console ≠ .fault (.at line cause) s := by
  intro failed
  have blames : Machine.Blames P
      (Machine.run c.program bound (c.modules.getLast?.map (Machine.Entry.ofModule c.program))) := by
    refine Machine.blames_run upholds bound ?_ ?_
    · rintro e he f hf
      obtain ⟨m, last, rfl⟩ := Option.map_eq_some_iff.1 he
      exact starts f ⟨m, last, .inl hf⟩
    · rintro e he f hf
      obtain ⟨m, last, rfl⟩ := Option.map_eq_some_iff.1 he
      exact starts f ⟨m, last, .inr hf⟩
  have meets := blames { console }
  rw [run] at failed
  rw [failed] at meets
  exact never meets

theorem Compiled.targets (h : Compiled files c t) (checked : f ∈ t.checked)
    (written : (t.program.function f).isNative = false) {call : Call}
    (calls : call ∈ Statement.allCalls (t.program.function f).body) :
    ∃ target, Targets t.program (Accounts t) call target := by
  obtain ⟨m, Γ, -, typed⟩ := (h.accepted.correct f checked).resolve_left (Bool.eq_false_iff.1 written)
  exact typed.targets call calls

theorem checked_of_target (reached : Reached t f)
    (written : (t.program.function f).isNative = false) {call : Call}
    (calls : call ∈ Statement.allCalls (t.program.function f).body) {target : FunctionId}
    (bound : call.target = some target) : f ∈ t.checked := by
  rcases reached with checked | native | sees
  · exact checked
  · exact absurd native (Bool.eq_false_iff.1 written)
  · exact (Statement.allCallable_of_scoped _ sees call calls target bound).elim

theorem Compiled.targets_of_bound (h : Compiled files c t) (reached : Reached t f)
    (written : (t.program.function f).isNative = false) {call : Call}
    (calls : call ∈ Statement.allCalls (t.program.function f).body) {target : FunctionId}
    (bound : call.target = some target) : Targets t.program (Accounts t) call target := by
  obtain ⟨other, targets⟩ := h.targets (checked_of_target reached written calls bound) written calls
  obtain rfl : target = other := Option.some.inj (bound.symm.trans targets.bound)
  exact targets

theorem Compiled.reached (h : Compiled files c t) (reaches : t.program.Reaches c.Starts f) :
    Reached t f := by
  induction reaches with
  | start first =>
    obtain ⟨m, last, own⟩ := h.own_of_starts first
    exact h.reached_own last own
  | call reaches written calls bound receives ih =>
    obtain ⟨type, checked, -⟩ := (h.targets_of_bound ih written calls bound).returns
    exact Machine.callable_dispatch h.scoped (.inl checked) _ _

/-- What a call in the body of the last module runs is reached. -/
theorem reaches_of_body {body : FunctionId} (starts : c.modules.getLast?.bind Module.body = some body)
    (written : (c.program.function body).isNative = false) {call : Call}
    (calls : call ∈ Statement.allCalls (c.program.function body).body) {target : FunctionId}
    (bound : call.target = some target) {receiver : Option Value} (receives : call.Receives receiver)
    {heap : Heap} (runs : Machine.dispatch c.program target receiver heap = f) :
    c.program.Reaches c.Starts f := by
  obtain ⟨m, last, first⟩ := Option.bind_eq_some_iff.1 starts
  exact runs ▸ .call (.start ⟨m, last, .inl first⟩) written calls bound receives

end Compilation
end ObjectLang
