import ObjectLang.Proofs.Calls.Accepted
import ObjectLang.Proofs.Program.Builtin
set_option autoImplicit false

/-!
# Methods that override

A call of a virtual method runs whatever the type of the receiver has under its name. If no type hides
a virtual method behind one that does not override it, then that is the virtual method itself or one
that overrides it.
-/

namespace ObjectLang

open Typing

namespace Program

/-- Methods by the names of inherited ones that are virtual, or override such, override them. -/
def Overriding (p : Program) : Prop :=
  ∀ i < p.types.size, ∀ f ∈ p.types.ownMethods ⟨i⟩,
    ∀ inherited ∈ p.inheritedTraits? ⟨i⟩ (p.function f).name,
      inherited.isDispatched = true → (p.function f).traits.isOverride = true

instance (p : Program) : Decidable p.Overriding := by
  unfold Overriding
  infer_instance

variable {p : Program} {P : FunctionId → Prop} {type owner : TypeId} {name : String}
  {f target : FunctionId}

theorem HasEntry.mem_ownMethods (h : p.HasEntry type name f) : f ∈ p.types.ownMethods type := by
  obtain ⟨m, hm, hx⟩ := h
  rw [Registry.ownMethods, Option.mem_def.1 hm]
  exact List.mem_map_of_mem hx

theorem Overriding.isOverride (h : p.Overriding) (entry : p.HasEntry type name f)
    (named : (p.function f).name = name) {parent : TypeId} (derives : p.types.parent? type = some parent)
    {inherited : FunctionId} (found : p.types.findMethod? parent name = some inherited)
    (dispatched : (p.function inherited).traits.isDispatched = true) :
    (p.function f).traits.isOverride = true := by
  refine h type.index entry.knows f entry.mem_ownMethods (p.function inherited).traits ?_ dispatched
  rw [named, inheritedTraits?, derives]
  simp [found]

/-- The method stands in for `target`, a method of `owner`: it is the same, or it overrides it for a
    type in between. -/
def StandsIn (p : Program) (type owner : TypeId) (target f : FunctionId) : Prop :=
  f = target ∨ (p.function f).traits.isOverride = true ∧ ∃ declarer,
    (p.function f).parent = some declarer ∧ p.types.derivesFrom type declarer = true ∧
      p.types.derivesFrom declarer owner = true

theorem StandsIn.isDispatched (h : p.StandsIn type owner target f)
    (dispatched : (p.function target).traits.isDispatched = true) :
    (p.function f).traits.isDispatched = true := by
  rcases h with rfl | ⟨override, -⟩
  · exact dispatched
  · rw [Traits.isDispatched, override, Bool.or_true]

theorem StandsIn.inherit (h : p.StandsIn type owner target f) {derived : TypeId}
    (parent : p.types.parent? derived = some type) : p.StandsIn derived owner target f := by
  refine h.imp id fun ⟨override, declarer, declared, derives, between⟩ => ?_
  exact ⟨override, declarer, declared, (Registry.derivesFrom_parent parent).2 (.inr derives), between⟩

/-- Every type that derives from the owner of a virtual method has the method or one that stands in
    for it under its name. -/
theorem exists_standsIn (owned : p.Owned P) (overriding : p.Overriding)
    (own : (p.types.get owner).ownMethod? name = some target)
    (dispatched : (p.function target).traits.isDispatched = true) {derived : TypeId}
    (derives : p.types.derivesFrom derived owner = true) :
    ∃ f, p.types.findMethod? derived name = some f ∧ p.StandsIn derived owner target f := by
  by_cases same : owner = derived
  · exact ⟨target, same ▸ Registry.findMethod?_own own, .inl rfl⟩
  cases parent : p.types.parent? derived with
  | none => exact absurd (Registry.eq_of_derivesFrom_orphan parent derives) same
  | some base =>
    have lt := p.types.parent?_lt parent
    have behind := ((Registry.derivesFrom_parent parent).1 derives).resolve_left same
    obtain ⟨inherited, found, stands⟩ := exists_standsIn owned overriding own dispatched behind
    cases declared : (p.types.get derived).ownMethod? name with
    | none =>
      exact ⟨inherited, (Registry.findMethod?_inherited parent declared).trans found,
        stands.inherit parent⟩
    | some f =>
      have entry := hasEntry_of_ownMethod? declared
      have proper := owned derived name f entry
      have override := overriding.isOverride entry proper.name parent found
        (stands.isDispatched dispatched)
      exact ⟨f, Registry.findMethod?_own declared,
        .inr ⟨override, derived, proper.parent, Registry.derivesFrom_self derived, derives⟩⟩
termination_by derived.index

end Program

namespace Compilation

variable {files : List SourceFile} {c : Compilation}

/-- In a program where virtual methods are only hidden by methods that override them, every call that
    a run comes to runs its target or one that stands in for it, if the receiver derives from the owner
    of the target. -/
theorem dispatch_overrides (accepted : new.compile files = (.ok (), c))
    (overriding : c.program.Overriding) {f : FunctionId} (reaches : c.program.Reaches c.Starts f)
    (written : (c.program.function f).isNative = false) {call : Call}
    (calls : call ∈ Statement.allCalls (c.program.function f).body) {target : FunctionId}
    (bound : call.target = some target) (receiver : Option Value) (receives : call.Receives receiver)
    (heap : Heap) :
    Machine.dispatch c.program target receiver heap = target ∨
      ∃ ref owner, receiver = some (.object ref) ∧ (c.program.function target).parent = some owner ∧
        (c.program.types.derivesFrom (heap.object ref).type owner = true →
          c.program.StandsIn (heap.object ref).type owner target
            (Machine.dispatch c.program target receiver heap)) := by
  have h := compiled accepted
  generalize (afterReading files).checkFrom 1 (afterReading files).unchecked = t at h
  rw [h.program] at overriding reaches written calls ⊢
  rcases Program.eq_or_found_of_dispatch t.program target receiver heap with
    same | ⟨ref, rfl, dispatched, found⟩
  · exact .inl same
  · have injected : call.injected = true := by
      cases injected : call.injected with
      | true => rfl
      | false => cases receives injected
    have targets := h.targets_of_bound (h.reached reaches) written calls bound
    obtain ⟨type, name, method⟩ := targets.receiver injected
    obtain ⟨owner, -, own, proper⟩ := h.owned.found method
    refine .inr ⟨ref, owner, rfl, proper.parent, fun derives => ?_⟩
    obtain ⟨chosen, found', stands⟩ := Program.exists_standsIn h.owned overriding own dispatched derives
    rw [proper.name, found'] at found
    exact Option.some.inj found ▸ stands

/-- A virtual method that a base calls on its own receiver, and a method of its name in a derived
    type. -/
def shadowing (parameters traits : String) : List SourceFile :=
  [⟨"m.kv", "type A { } fn A.f() [virtual] => 1; fn A.g() => self.f(); type B <- A { } fn B.new() { } " ++
    "fn B.f(" ++ parameters ++ ") " ++ traits ++ "=> 2; ret B.new().g();"⟩]

def shadowed (parameters traits : String) : Compilation := (new.compile (shadowing parameters traits)).2

theorem compile_shadowing {parameters traits : String}
    (ok : (new.compile (shadowing parameters traits)).1 = .ok ()) :
    new.compile (shadowing parameters traits) = (.ok (), shadowed parameters traits) :=
  compile_eq_of_ok ok

def holding (type : TypeId) : Heap := { objects := #[⟨type, .empty⟩] }

theorem shadowed_compiled : ∀ traits ∈ ["", "[override] "],
    (new.compile (shadowing "" traits)).1 = .ok () ∧
      ((shadowed "" traits).run 10 {}).value?.any (Value.equals (.int 2)) = true ∧
      (shadowed "" traits).modules.getLast?.bind Module.body = some ⟨6⟩ ∧
      ((shadowed "" traits).program.function ⟨6⟩).isNative = false ∧
      ⟨some ⟨8⟩, true, 1⟩ ∈
        Statement.allCalls ((shadowed "" traits).program.function ⟨6⟩).body ∧
      Machine.dispatch (shadowed "" traits).program ⟨8⟩ (some (.object ⟨0⟩)) (holding ⟨7⟩) = ⟨8⟩ ∧
      ((shadowed "" traits).program.function ⟨8⟩).isNative = false ∧
      ⟨some ⟨7⟩, true, 1⟩ ∈
        Statement.allCalls ((shadowed "" traits).program.function ⟨8⟩).body ∧
      Machine.dispatch (shadowed "" traits).program ⟨7⟩ (some (.object ⟨0⟩)) (holding ⟨7⟩) = ⟨10⟩ ∧
      ((shadowed "" traits).program.function ⟨7⟩).parent = some ⟨6⟩ ∧
      (shadowed "" traits).program.types.derivesFrom ⟨7⟩ ⟨6⟩ = true ∧
      (((shadowed "" traits).program.function ⟨10⟩).traits.isOverride = true ↔ traits ≠ "") ∧
      ((shadowed "" traits).program.Overriding ↔ traits ≠ "") := by
  simp only [shadowed, new_eq]
  decide +kernel

/-- A method that overrides stands in for the virtual one. -/
theorem dispatch_overrides_derived :
    (shadowed "" "[override] ").program.Reaches (shadowed "" "[override] ").Starts ⟨8⟩ ∧
      ⟨some ⟨7⟩, true, 1⟩ ∈
        Statement.allCalls ((shadowed "" "[override] ").program.function ⟨8⟩).body ∧
      Machine.dispatch (shadowed "" "[override] ").program ⟨7⟩ (some (.object ⟨0⟩)) (holding ⟨7⟩) =
        ⟨10⟩ ∧
      (shadowed "" "[override] ").program.StandsIn ⟨7⟩ ⟨6⟩ ⟨7⟩ ⟨10⟩ := by
  obtain ⟨ok, -, starts, written, calls, runs, written', calls', runs', parent, derives, -,
    overriding⟩ := shadowed_compiled "[override] " (by decide)
  have reaches := reaches_of_body starts written calls rfl nofun runs
  refine ⟨reaches, calls', runs', ?_⟩
  rcases dispatch_overrides (compile_shadowing ok) (overriding.2 (by decide)) reaches written' calls' rfl
    (some (.object ⟨0⟩)) nofun (holding ⟨7⟩) with same | ⟨ref, owner, receives, owned, stands⟩
  · exact absurd (runs'.symm.trans same) (by decide)
  · obtain rfl : ⟨0⟩ = ref := Value.object.inj (Option.some.inj receives)
    obtain rfl : ⟨6⟩ = owner := Option.some.inj (parent.symm.trans owned)
    exact runs' ▸ stands derives

/-- A method that only has the name of the virtual one runs in its place. -/
theorem dispatch_shadows :
    new.compile (shadowing "" "") = (.ok (), shadowed "" "") ∧
      (∃ value s, (shadowed "" "").run 10 {} = .done value s ∧
        Value.equals (.int 2) value = true) ∧
      (shadowed "" "").program.Reaches (shadowed "" "").Starts ⟨8⟩ ∧
      ⟨some ⟨7⟩, true, 1⟩ ∈ Statement.allCalls ((shadowed "" "").program.function ⟨8⟩).body ∧
      Machine.dispatch (shadowed "" "").program ⟨7⟩ (some (.object ⟨0⟩)) (holding ⟨7⟩) = ⟨10⟩ ∧
      ((shadowed "" "").program.function ⟨10⟩).traits.isOverride = false := by
  obtain ⟨ok, value, starts, written, calls, runs, -, calls', runs', -, -, override, -⟩ :=
    shadowed_compiled "" (by decide)
  exact ⟨compile_shadowing ok, Machine.Outcome.exists_done value,
    reaches_of_body starts written calls rfl nofun runs, calls', runs',
    Bool.eq_false_iff.2 fun overrides => override.1 overrides rfl⟩

end Compilation
end ObjectLang
