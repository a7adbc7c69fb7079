import ObjectLang.Proofs.Calls.Accepted
import ObjectLang.Proofs.Calls.Free
import ObjectLang.Proofs.Calls.Visible
import ObjectLang.Proofs.Program.Builtin
set_option autoImplicit false

/-!
# Private functions

What a file calls by a mere name is its own, or it has been imported and is public. What it calls
behind a dot is looked up in the table of a type, and nothing asks there who has declared it. So
private functions stay inside their file as far as names tell methods of other files apart.
-/

namespace ObjectLang

open Typing

/-- A file may use what it declares itself, what the first file declares, the methods of lists and
    everything that is public. -/
def Program.MayUse (p : Program) (file : Nat) (f : FunctionId) : Prop :=
  (p.function f).module = file ∨ (p.function f).module = 0 ∨
    ((p.function f).parent.any fun type => (p.types.get type).isList) = true ∨
      (p.function f).traits.isPublic = true

instance (p : Program) (file : Nat) (f : FunctionId) : Decidable (p.MayUse file f) := by
  unfold Program.MayUse
  infer_instance

def CallNode.method? (n : CallNode) : Option String :=
  match n.callee with
  | .field _ name _ _ => some name
  | _ => none

theorem Typing.BindsNode.callee_cases {p : Program} {returns : FunctionId → TypeId → Prop}
    {n : CallNode} {target : FunctionId} (h : BindsNode p returns n target) :
    (∃ name noted line, n.callee = .var name noted line) ∨ p.Makes n.callee target ∨
      ∃ name owner, n.method? = some name ∧ p.types.findMethod? owner name = some target := by
  obtain ⟨Γ, callee, arguments, bound, injected⟩ := n
  cases h.leads with
  | free name noted line => exact .inl ⟨name, noted, line, rfl⟩
  | made _ _ _ makes => exact .inr (.inl makes)
  | named type noted place name field line _ _ owner visible found =>
    exact .inr (.inr ⟨name, owner, rfl, found⟩)
  | dropped base name noted line _ _ owner typed found static =>
    exact .inr (.inr ⟨name, _, rfl, found⟩)
  | received base name noted line rest _ owner typed found dynamic =>
    exact .inr (.inr ⟨name, _, rfl, found⟩)

namespace Compilation

variable {files : List SourceFile} {c : Compilation} {t : Typing.State} {i : Nat} {m : Module}
  {f target : FunctionId}

/-- All methods of that name that other files declare are public. -/
def SharesMethods (c : Compilation) (file : Nat) (name : String) : Prop :=
  ∀ m ∈ c.modules, m.index ≠ file → ∀ f ∈ m.ownFunctions,
    (c.program.function f).parent.isSome = true → (c.program.function f).name = name →
      (c.program.function f).traits.isPublic = true

instance (c : Compilation) (file : Nat) (name : String) : Decidable (c.SharesMethods file name) := by
  unfold SharesMethods
  infer_instance

/-- The function is a private method of another file and has the name behind the dot. -/
structure Escapes (c : Compilation) (file : Nat) (n : CallNode) (f : FunctionId) : Prop where
  declared : ∃ m ∈ c.modules, m.index ≠ file ∧ f ∈ m.ownFunctions
  method : (c.program.function f).parent.isSome = true
  called : n.method? = some (c.program.function f).name
  hidden : (c.program.function f).traits.isPublic = false

theorem Escapes.not_shares {n : CallNode} (h : c.Escapes i n f) :
    ∃ name ∈ n.method?, ¬ c.SharesMethods i name := by
  obtain ⟨m, mem, other, own⟩ := h.declared
  exact ⟨_, h.called, fun shares =>
    Bool.false_ne_true (h.hidden.symm.trans (shares m mem other f own h.method rfl))⟩

theorem Compiled.evolves (h : Compiled files c t) :
    (afterReading files).program.Evolves t.program := h.accepted.later.evolves

theorem Compiled.module_eq (h : Compiled files c t) (found : c.modules[i]? = some m)
    (own : f ∈ m.ownFunctions) : (t.program.function f).module = i := by
  have read := written_afterReading files
  rw [h.modules] at found
  rw [h.evolves.module_eq, (read.listed.modules m (List.mem_of_getElem? found)).own f own]
  exact read.library.index i m found

theorem Compiled.mayUse_visible (h : Compiled files c t) (found : c.modules[i]? = some m)
    (visible : f ∈ m.functions) : t.program.MayUse i f := by
  rcases List.mem_append.1 visible with imported | own
  · have mem := List.mem_of_getElem? (h.modules ▸ found)
    rcases ((written_afterReading files).listed.modules m mem).offered f imported with
      offered | ⟨first, head, own⟩
    · rw [← h.evolves.traits_eq] at offered
      exact .inr (.inr (.inr offered))
    · rw [Option.mem_def, List.head?_eq_getElem?, ← h.modules] at head
      exact .inr (.inl (h.module_eq head own))
  · exact .inl (h.module_eq found own)

/-- What is found in a table may be used, or it is a private method of another file. -/
theorem Compiled.mayUse_found (h : Compiled files c t) {n : CallNode} {name : String} {type : TypeId}
    (method : n.method? = some name) (found : t.program.types.findMethod? type name = some f) :
    c.program.MayUse i f ∨ c.Escapes i n f := by
  obtain ⟨owner, -, -, proper⟩ := h.shown.found found
  rw [← h.program] at proper
  rcases proper.shown with ⟨j, m, -, at_j, own⟩ | list
  · rw [← h.modules] at at_j
    cases hidden : (c.program.function f).traits.isPublic with
    | true => exact .inl (.inr (.inr (.inr hidden)))
    | false =>
      by_cases same : j = i
      · exact .inl (.inl (h.program ▸ h.module_eq (same ▸ at_j) own))
      · have index : m.index = j := (written_afterReading files).library.index j m (h.modules ▸ at_j)
        exact .inr ⟨⟨m, List.mem_of_getElem? at_j, index ▸ same, own⟩, proper.parent ▸ rfl,
          method.trans (congrArg some proper.name.symm), hidden⟩
  · refine .inl (.inr (.inr (.inl ?_)))
    rw [proper.parent]
    exact list

/-- Every call in a function of a file behind the first is bound. The file may use the target, or the
    target is a private method of another file that has the name behind the dot. So the file may use
    it if all methods of other files by the name that is called are public. -/
theorem calls_stay_inside (accepted : new.compile files = (.ok (), c)) (behind : 1 ≤ i)
    (found : c.modules[i]? = some m) (own : f ∈ m.ownFunctions)
    (written : (c.program.function f).isNative = false) {n : CallNode} (calls : n ∈ c.callNodes f) :
    ∃ target, n.target = some target ∧ (c.program.MayUse i target ∨ c.Escapes i n target) ∧
      ((∀ name ∈ n.method?, c.SharesMethods i name) → c.program.MayUse i target) := by
  suffices bound : ∃ target, n.target = some target ∧
      (c.program.MayUse i target ∨ c.Escapes i n target) by
    obtain ⟨target, bound, inside⟩ := bound
    refine ⟨target, bound, inside, fun shares => inside.resolve_right fun escapes => ?_⟩
    obtain ⟨name, method, hidden⟩ := escapes.not_shares
    exact hidden (shares name method)
  have h := compiled accepted
  generalize (afterReading files).checkFrom 1 (afterReading files).unchecked = t at h
  have number := h.module_eq found own
  have read : (afterReading files).modules[i]? = some m := h.modules ▸ found
  have checked := h.accepted.entered i m behind read f own
  rw [h.program] at written
  obtain ⟨m', Γ, found', typed⟩ :=
    (h.accepted.correct f checked).resolve_left (Bool.eq_false_iff.1 written)
  obtain ⟨m'', depth, v, found'', -, entered, evolves, -, walked⟩ :=
    (h.accepted.walked f checked).resolve_left (Bool.eq_false_iff.1 written)
  rw [number, read] at found' found''
  cases found'
  cases found''
  rw [callNodes, h.program, number, found] at calls
  obtain ⟨target, binds⟩ := typed.binds n calls
  refine ⟨target, binds.target_eq, ?_⟩
  rcases binds.callee_cases with ⟨name, noted, line, mere⟩ | makes | ⟨name, owner, method, look⟩
  · let inside : Context := ⟨(afterReading files).modules, f,
      checkWithin (afterReading files).modules depth⟩
    have keeping : inside.Keeping := keeps_checkWithin _ depth
    have sees : Sees inside m v := by
      refine ⟨entered, ?_⟩
      rw [Context.module?, ← evolves.module_eq, number]
      exact read
    dsimp only at calls
    rw [walked] at calls
    have free := free_checkAll keeping _ sees
      ((written_afterReading files).library.program.bodies f) _ n calls
    rw [h.program]
    exact .inl (h.mayUse_visible found (free name noted line mere target binds.target_eq))
  · rw [h.program]
    exact .inl (.inr (.inl (congrArg Prod.fst makes.kind)))
  · exact h.mayUse_found method look

/-- A type with one private method, and a file that imports the type and calls a method of it. -/
def secretive (called : String) : List SourceFile :=
  [⟨"a.kv", "type A { } fn A.new() [public] { } fn A.get() [public] -> Int => 1; " ++
      "fn A.secret() -> Int => self.get();"⟩,
    ⟨"b.kv", "use a::A; fn A() => 1; let x = A.new(); let y = x." ++ called ++ "() + A();"⟩]

def imparted (called : String) : Compilation := (new.compile (secretive called)).2

theorem compile_secretive {called : String} (ok : (new.compile (secretive called)).1 = .ok ()) :
    new.compile (secretive called) = (.ok (), imparted called) := compile_eq_of_ok ok

theorem secretive_compiled : ∀ called ∈ ["get", "secret"],
    (new.compile (secretive called)).1 = .ok () ∧
      (∃ m ∈ (imparted called).modules[2]?, ⟨10⟩ ∈ m.ownFunctions) ∧
      ((imparted called).program.function ⟨10⟩).isNative = false ∧
      ((imparted called).callNodes ⟨10⟩).length = 3 ∧
      ¬ (imparted called).program.MayUse 2 ⟨9⟩ ∧
      ((∃ n ∈ (imparted called).callNodes ⟨10⟩, n.target = some ⟨9⟩) ↔ called = "secret") ∧
      ((∀ n ∈ (imparted called).callNodes ⟨10⟩, ∀ name ∈ n.method?,
        (imparted called).SharesMethods 2 name) ↔ called = "get") := by
  simp only [imparted, new_eq]
  decide +kernel

/-- A constructor, a public method, and a function with the name of the type that it belongs to. -/
theorem calls_stay_inside_public :
    ((imparted "get").callNodes ⟨10⟩).length = 3 ∧
      ∀ n ∈ (imparted "get").callNodes ⟨10⟩, ∃ target, n.target = some target ∧
        (imparted "get").program.MayUse 2 target := by
  obtain ⟨ok, ⟨m, found, own⟩, written, many, -, -, shares⟩ := secretive_compiled "get" (by decide)
  refine ⟨many, fun n calls => ?_⟩
  obtain ⟨target, bound, -, inside⟩ :=
    calls_stay_inside (compile_secretive ok) (by decide) found own written calls
  exact ⟨target, bound, inside (shares.2 rfl n calls)⟩

/-- The type brings its private methods along. -/
theorem private_method_called :
    new.compile (secretive "secret") = (.ok (), imparted "secret") ∧
      (∃ m ∈ (imparted "secret").modules[2]?, ⟨10⟩ ∈ m.ownFunctions) ∧
      (∃ n ∈ (imparted "secret").callNodes ⟨10⟩, n.target = some ⟨9⟩) ∧
      ¬ (imparted "secret").program.MayUse 2 ⟨9⟩ := by
  obtain ⟨ok, own, -, -, hidden, calls, -⟩ := secretive_compiled "secret" (by decide)
  exact ⟨compile_secretive ok, own, calls.2 rfl, hidden⟩

end Compilation
end ObjectLang
