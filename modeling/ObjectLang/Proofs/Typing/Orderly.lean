import ObjectLang.Proofs.Program.Rooted
import ObjectLang.Proofs.Typing.Function
set_option autoImplicit false

/-!
# States in order

A state is in order if no handle in it dangles: neither in its tables, nor in its modules, nor in
the bodies of functions, however far these are annotated. Nothing is asked about errors, recorded or
to come. The functions that were entered and those that can still be nested are together more than
there are, so no check runs out of depth.
-/

namespace ObjectLang

/-- Nothing that a program and its modules refer to is missing. -/
structure Linked (modules : List Module) (p : Program) : Prop where
  tables : p.Tables
  visible : ∀ m ∈ modules, m.Closed p
  bodies : ∀ id, Statement.RootedAll p (p.function id).body

theorem Library.linked {modules : List Module} {p : Program} (h : Library modules p) :
    Linked modules p :=
  ⟨h.program.toTables, h.modules, fun id => (h.program.bodies id).rooted⟩

theorem Written.linked {modules : List Module} {p : Program} (h : Written modules p) :
    Linked modules p := h.library.linked

namespace Linked

variable {modules : List Module} {p q : Program}

theorem of_types (h : Linked modules p) (grows : p.types.Grows q.types)
    (same : q.functions = p.functions) (tables : q.Tables) : Linked modules q := by
  have extended : p.Extends q := .of_types grows same
  refine ⟨tables, fun m hm => (h.visible m hm).mono extended, fun id => ?_⟩
  rw [Program.function, same]
  exact Statement.rootedAll_mono extended _ (h.bodies id)

theorem modifyFunction (h : Linked modules p) {id : FunctionId} (declares : p.Declares id)
    (change : Function → Function) (same : ∀ f, (change f).declared = f.declared)
    (signed : (change (p.function id)).Signed p)
    (body : Statement.RootedAll p (change (p.function id)).body) :
    Linked modules (p.modifyFunction id change) := by
  have extended := (Program.Evolves.modifyFunction p id same).extension
  have function_eq := Program.function_modifyFunction p change declares
  refine ⟨h.tables.of_signatures rfl extended fun f => ?_,
    fun m hm => (h.visible m hm).mono extended, fun f => ?_⟩ <;> rw [function_eq] <;> split
  · exact signed.mono extended
  · exact (h.tables.signatures f).mono extended
  · exact Statement.rootedAll_mono extended _ body
  · exact Statement.rootedAll_mono extended _ (h.bodies f)

end Linked

namespace Typing

def KnownBindings (p : Program) (Γ : Scopes Meaning) : Prop :=
  ∀ name type, (name, .value type) ∈ Γ.bindings → p.types.Knows type

/-- What holds whenever a function may be entered, whatever errors there are; `depth` more of them
    can be nested. -/
structure Orderly (modules : List Module) (depth : Nat) (s : State) : Prop
    extends Linked modules s.program where
  distinct : s.checked.Nodup
  declared : ∀ id ∈ s.checked, s.program.Declares id
  room : s.program.functions.size < depth + s.checked.length

structure Prepared (modules : List Module) (depth : Nat) (s : State) : Prop
    extends Orderly modules depth s where
  known : KnownBindings s.program s.scopes

variable {modules : List Module} {depth : Nat} {s t : State}

theorem KnownBindings.evolves {p q : Program} {Γ : Scopes Meaning} (h : KnownBindings p Γ)
    (evolves : p.Evolves q) : KnownBindings q Γ :=
  fun name type mem => evolves.types.knows (h name type mem)

theorem KnownBindings.get? {p : Program} {Γ : Scopes Meaning} (h : KnownBindings p Γ)
    {name : String} {type : TypeId} (bound : Γ.get? name = some (.value type)) :
    p.types.Knows type := by
  obtain ⟨front, behind, same, -⟩ := List.lookup_eq_some_iff.1 bound
  exact h name type (same ▸ List.mem_append_right _ List.mem_cons_self)

theorem Orderly.of_types (h : Orderly modules depth s) {q : Program}
    (grows : s.program.types.Grows q.types) (same : q.functions = s.program.functions)
    (tables : q.Tables) : Orderly modules depth { s with program := q } :=
  ⟨h.toLinked.of_types grows same tables, h.distinct,
    fun id hid => (Program.Extends.of_types grows same).declares (h.declared id hid),
    (congrArg Arena.size same).symm ▸ h.room⟩

theorem Orderly.file (h : Orderly modules depth s) (scopes : Scopes Meaning)
    (diagnostics : Diagnostics) : Orderly modules depth { s with scopes, diagnostics } :=
  ⟨h.toLinked, h.distinct, h.declared, h.room⟩

theorem Orderly.modifyFunction (h : Orderly modules depth s) {id : FunctionId}
    (entered : id ∈ s.checked) (change : Function → Function)
    (same : ∀ f, (change f).declared = f.declared)
    (signed : (change (s.program.function id)).Signed s.program)
    (body : Statement.RootedAll s.program (change (s.program.function id)).body) :
    Orderly modules depth { s with program := s.program.modifyFunction id change } :=
  ⟨h.toLinked.modifyFunction (h.declared id entered) change same signed body, h.distinct,
    fun f hf => (Program.Evolves.modifyFunction s.program id same).extension.declares
      (h.declared f hf),
    (Program.size_modifyFunction s.program id change).symm ▸ h.room⟩

theorem Prepared.keeps (h : Prepared modules depth s) (keeps : Keeps s t)
    (orderly : Orderly modules depth t) : Prepared modules depth t :=
  ⟨orderly, keeps.scopes.symm ▸ h.known.evolves keeps.evolves⟩

theorem Orderly.arrayType (h : Orderly modules depth s) (element : TypeId)
    (checked : Except TypeError Unit) : Orderly modules depth (arrayType element s checked).1 := by
  cases checked with
  | error e => exact h
  | ok u =>
    exact h.of_types (Registry.grows_arrayOf _ _) rfl (h.tables.arrayOf element)

theorem Orderly.referenceType {n : Nat} {place : Visited n}
    (h : Orderly modules depth place.state) : Orderly modules depth (referenceType place).1 := by
  unfold Typing.referenceType
  split
  · exact h.of_types (Registry.grows_referenceTo _ _) rfl (h.tables.referenceTo _)
  · exact h

theorem findArray?_of_arrayType {element type : TypeId} {checked : Except TypeError Unit}
    (known : s.program.types.Knows element)
    (ok : (Typing.arrayType element s checked).2 = .ok type) :
    (Typing.arrayType element s checked).1.program.types.findArray? element = some type := by
  obtain rfl := checked_of_arrayType ok
  have found := Registry.findArray?_arrayOf known
  cases ok
  exact found

theorem findReference?_of_referenceType {n : Nat} {v : Visited n} {referent type : TypeId}
    (result : v.result = .ok referent) (known : v.state.program.types.Knows referent)
    (ok : (Typing.referenceType v).2 = .ok type) :
    (Typing.referenceType v).1.program.types.findReference? referent = some type := by
  unfold Typing.referenceType at ok ⊢
  rw [result] at ok ⊢
  have found := Registry.findReference?_referenceTo known
  cases ok
  exact found

end Typing
end ObjectLang
