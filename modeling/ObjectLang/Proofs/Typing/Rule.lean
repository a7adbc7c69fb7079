import ObjectLang.Proofs.Program.Closed
import ObjectLang.Typing.Rule
set_option autoImplicit false

/-!
# Typing rules while checking goes on

Checking a program adds array and reference types, decides return types that are still open and
notes things in bodies. What a typing rule has accepted of known types it accepts from then on.
-/

namespace ObjectLang

def Function.declared (f : Function) : Function := { f with returnType := .void, body := [] }

structure Program.Evolves (p q : Program) : Prop where
  types : p.types.Grows q.types
  members : ∀ id, (q.types.get id).members? = (p.types.get id).members?
  size : q.functions.size = p.functions.size
  declared : ∀ id, (q.function id).declared = (p.function id).declared

namespace Program.Evolves

variable {p q r : Program}

theorem refl (p : Program) : p.Evolves p := ⟨.refl _, fun _ => rfl, rfl, fun _ => rfl⟩

theorem trans (h : p.Evolves q) (h' : q.Evolves r) : p.Evolves r where
  types := h.types.trans h'.types
  members id := (h'.members id).trans (h.members id)
  size := h'.size.trans h.size
  declared id := (h'.declared id).trans (h.declared id)

theorem modifyFunction (p : Program) (id : FunctionId) {change : Function → Function}
    (h : ∀ f, (change f).declared = f.declared) : p.Evolves (p.modifyFunction id change) where
  types := .refl _
  members _ := rfl
  size := size_modifyFunction p id change
  declared other := by
    by_cases declares : p.Declares id
    · rw [function_modifyFunction p change declares]
      split
      · rename_i same
        rw [h, same]
      · rfl
    · rw [modifyFunction_of_not_declares declares]

section

variable (h : p.Evolves q)
include h

theorem extension : p.Extends q := by
  refine .of_grows h.types (Nat.le_of_eq h.size.symm) fun id _ => ?_
  have same := congrArg Function.kind (h.declared id)
  exact same

theorem name_eq (id : FunctionId) : (q.function id).name = (p.function id).name := by
  have same := congrArg Function.name (h.declared id)
  exact same

theorem parameters_eq (id : FunctionId) :
    (q.function id).parameters = (p.function id).parameters := by
  have same := congrArg Function.parameters (h.declared id)
  exact same

theorem traits_eq (id : FunctionId) : (q.function id).traits = (p.function id).traits := by
  have same := congrArg Function.traits (h.declared id)
  exact same

theorem parent_eq (id : FunctionId) : (q.function id).parent = (p.function id).parent := by
  have same := congrArg Function.parent (h.declared id)
  exact same

theorem marker_eq (id : FunctionId) : (q.function id).marker = (p.function id).marker := by
  have same := congrArg Function.marker (h.declared id)
  exact same

theorem module_eq (id : FunctionId) : (q.function id).module = (p.function id).module := by
  have same := congrArg Function.module (h.declared id)
  exact same

theorem isNative_eq (id : FunctionId) : (q.function id).isNative = (p.function id).isNative := by
  rw [Function.isNative, h.marker_eq, Function.isNative]

theorem signature_eq (id : FunctionId) :
    (q.function id).signature = (p.function id).signature := by
  rw [Function.signature, Function.signature, Function.parameterTypes, Function.parameterTypes,
    h.parent_eq, h.name_eq, h.parameters_eq]

end

end Program.Evolves

namespace Typing

theorem bind_eq_ok {ε α β : Type} {x : Except ε α} {f : α → Except ε β} {b : β} :
    x.bind f = .ok b ↔ ∃ a, x = .ok a ∧ f a = .ok b := by
  cases x with
  | ok a => exact ⟨fun h => ⟨a, rfl, h⟩, fun ⟨_, ha, h⟩ => by cases ha; exact h⟩
  | error e => exact ⟨nofun, fun ⟨_, ha, _⟩ => nomatch ha⟩

theorem map_eq_ok {ε α β : Type} {x : Except ε α} {f : α → β} {b : β} :
    x.map f = .ok b ↔ ∃ a, x = .ok a ∧ f a = b := by
  cases x with
  | ok a =>
    exact ⟨fun h => ⟨a, rfl, Except.ok.inj h⟩, fun ⟨_, ha, h⟩ => by cases ha; exact congrArg _ h⟩
  | error e => exact ⟨nofun, fun ⟨_, ha, _⟩ => nomatch ha⟩

theorem ensure_eq_ok {condition : Bool} {e : TypeError} :
    ensure condition e = .ok () ↔ condition = true := by
  unfold ensure
  split
  · simp_all
  · simp_all

section Rules

variable {p : Program}

theorem binaryType_eq_ok {op : BinaryOperator} {a b type : TypeId} :
    binaryType p op a b = .ok type ↔
      p.types.equals a b = true ∧ type = if op.isBoolean then .bool else a := by
  unfold binaryType
  by_cases heq : p.types.equals a b = true
  · rw [if_pos heq, Except.ok.injEq]
    exact ⟨fun h => ⟨heq, h.symm⟩, fun h => h.2.symm⟩
  · rw [if_neg heq]
    exact ⟨nofun, fun h => absurd h.1 heq⟩

theorem fieldType_eq_ok {base : TypeId} {name : String} {type : TypeId} :
    fieldType p base name = .ok type ↔
      p.types.isObject (p.types.dereference base) = true ∧
        p.types.fieldType? (p.types.dereference base) name = some type := by
  unfold fieldType
  dsimp only
  split
  · split <;> simp_all
  · simp_all

theorem elementType_eq_ok {array type : TypeId} :
    elementType p array = .ok type ↔
      p.types.element? (p.types.dereference array) = some type := by
  unfold elementType
  dsimp only
  split <;> simp_all

theorem checkIndex_eq_ok {index : TypeId} : checkIndex p index = .ok () ↔ index = .int := by
  rw [checkIndex, ensure_eq_ok, beq_iff_eq]

theorem checkSize_eq_ok {size : TypeId} : checkSize p size = .ok () ↔ size = .int := by
  rw [checkSize, ensure_eq_ok, beq_iff_eq]

theorem checkItem_eq_ok {element item : TypeId} :
    checkItem element p item = .ok () ↔ p.types.equals item element = true := ensure_eq_ok

theorem checkCondition_eq_ok {condition : TypeId} :
    checkCondition p condition = .ok () ↔ condition = .bool := by
  rw [checkCondition, ensure_eq_ok, beq_iff_eq]

theorem checkAssigned_eq_ok {value target : TypeId} :
    checkAssigned p value target = .ok () ↔ p.types.equals value target = true := ensure_eq_ok

theorem checkReturned_eq_ok {f : Function} {value : TypeId} :
    checkReturned p f value = .ok () ↔ p.types.equals value f.returnType = true := ensure_eq_ok

theorem checkArity_eq_ok {f : Function} {skipped count : Nat} :
    checkArity f skipped count = .ok () ↔ f.parameters.length = count := by
  rw [checkArity, ensure_eq_ok, beq_iff_eq]

theorem checkPairs_eq_ok {pairs : List (TypeId × TypeId)} :
    checkPairs p pairs = .ok () ↔ ∀ x ∈ pairs, p.types.equals x.1 x.2 = true := by
  induction pairs with
  | nil => simp [checkPairs]
  | cons x rest ih =>
    obtain ⟨argument, parameter⟩ := x
    rw [checkPairs]
    split <;> simp_all

theorem freeTarget_eq_ok {module : Option Module} {name : String} {arguments : List TypeId}
    {target : FunctionId} : freeTarget module p name arguments = .ok target ↔
      ∃ m, module = some m ∧ m.findFunction? p ⟨none, name, arguments⟩ = some target := by
  rw [← Option.bind_eq_some_iff]
  unfold freeTarget
  split
  · rename_i found h
    rw [h, Except.ok.injEq, Option.some.injEq]
  · rename_i h
    rw [h]
    exact ⟨nofun, nofun⟩

theorem called_of_findFunction? {m : Module} {name : String} {arguments : List TypeId}
    {target : FunctionId} (h : m.findFunction? p ⟨none, name, arguments⟩ = some target) :
    (p.function target).name = name ∧ (p.function target).parent = none := by
  unfold Module.findFunction? at h
  have agrees := List.find?_some h
  simp only [Signature.agrees, Function.signature, Bool.and_eq_true, beq_iff_eq] at agrees
  exact ⟨agrees.1.1.2, agrees.1.1.1⟩

theorem methodTarget_eq_ok {owner : TypeId} {name : String} {target : FunctionId} :
    methodTarget p owner name = .ok target ↔ p.types.findMethod? owner name = some target := by
  unfold methodTarget
  split
  · rename_i found h
    rw [h, Except.ok.injEq, Option.some.injEq]
  · rename_i h
    rw [h]
    exact ⟨nofun, nofun⟩

theorem callType_eq_ok {target : FunctionId} {injected : Bool} {arguments : List TypeId}
    {type : TypeId} : callType p target injected arguments = .ok type ↔
      (p.function target).parameters.length = arguments.length ∧
        checkPairs p ((arguments.zip (p.function target).parameterTypes).drop
          (if injected then 1 else 0)) = .ok () ∧
        type = (p.function target).returnType := by
  constructor
  · intro h
    obtain ⟨⟨⟩, arity, h⟩ := bind_eq_ok.1 h
    obtain ⟨⟨⟩, pairs, h⟩ := bind_eq_ok.1 h
    exact ⟨checkArity_eq_ok.1 arity, pairs, (Except.ok.inj h).symm⟩
  · rintro ⟨arity, pairs, rfl⟩
    exact bind_eq_ok.2 ⟨(), checkArity_eq_ok.2 arity, bind_eq_ok.2 ⟨(), pairs, rfl⟩⟩

theorem declaredType_eq_ok {value type : TypeId} {written : Option TypeId} :
    declaredType p value written = .ok type ↔
      (written.filter (· != .void) = none ∧ type = value) ∨
        (written = some type ∧ type ≠ .void ∧ p.types.equals value type = true) := by
  unfold declaredType
  split
  · rename_i hnone
    rw [hnone]
    constructor
    · rintro ⟨⟩
      exact .inl ⟨rfl, rfl⟩
    · rintro (⟨-, rfl⟩ | ⟨rfl, hvoid, -⟩)
      · rfl
      · simp [Option.filter, hvoid] at hnone
  · rename_i t hsome
    rw [hsome]
    obtain ⟨rfl, hvoid⟩ := Option.filter_eq_some_iff.1 hsome
    have hvoid : t ≠ .void := by simpa using hvoid
    cases hc : checkAssigned p value t with
    | ok u =>
      have heq := checkAssigned_eq_ok.1 hc
      constructor
      · rintro ⟨⟩
        exact .inr ⟨rfl, hvoid, heq⟩
      · rintro (⟨he, -⟩ | ⟨he, -, -⟩)
        · cases he
        · cases he
          rfl
    | error e =>
      constructor
      · rintro ⟨⟩
      · rintro (⟨he, -⟩ | ⟨he, -, heq⟩)
        · cases he
        · cases he
          rw [checkAssigned_eq_ok.2 heq] at hc
          cases hc

theorem knows_dereference {id : TypeId} (known : p.types.Knows id) :
    p.types.Knows (p.types.dereference id) := by
  rw [Registry.dereference]
  split
  · rename_i referent hr
    exact Registry.knows_component known (by simp [hr, Ty.components])
  · exact known

end Rules

section Later

variable {p q : Program} (h : p.Evolves q)
include h

theorem binaryType_evolves {op : BinaryOperator} {a b type : TypeId} (ha : p.types.Knows a)
    (hb : p.types.Knows b) (rule : binaryType p op a b = .ok type) :
    binaryType q op a b = .ok type := by
  rw [binaryType_eq_ok] at rule ⊢
  rw [h.types.equals_eq ha hb]
  exact rule

theorem fieldType_evolves {base type : TypeId} {name : String} (known : p.types.Knows base)
    (rule : fieldType p base name = .ok type) : fieldType q base name = .ok type := by
  rw [fieldType_eq_ok] at rule ⊢
  have owner := knows_dereference known
  rw [h.types.dereference_eq known, h.types.isObject_eq owner, h.types.fieldType?_eq owner]
  exact rule

theorem elementType_evolves {array type : TypeId} (known : p.types.Knows array)
    (rule : elementType p array = .ok type) : elementType q array = .ok type := by
  rw [elementType_eq_ok] at rule ⊢
  rw [h.types.dereference_eq known, h.types.element?_eq (knows_dereference known)]
  exact rule

theorem checkItem_evolves {element item : TypeId} (he : p.types.Knows element)
    (hi : p.types.Knows item) (rule : checkItem element p item = .ok ()) :
    checkItem element q item = .ok () := by
  rw [checkItem_eq_ok] at rule ⊢
  rw [h.types.equals_eq hi he]
  exact rule

theorem checkAssigned_evolves {value target : TypeId} (hv : p.types.Knows value)
    (ht : p.types.Knows target) (rule : checkAssigned p value target = .ok ()) :
    checkAssigned q value target = .ok () := by
  rw [checkAssigned_eq_ok] at rule ⊢
  rw [h.types.equals_eq hv ht]
  exact rule

theorem declaredType_evolves {value type : TypeId} {written : Option TypeId}
    (hv : p.types.Knows value) (hw : ∀ t ∈ written, p.types.Knows t)
    (rule : declaredType p value written = .ok type) : declaredType q value written = .ok type := by
  rw [declaredType_eq_ok] at rule ⊢
  rcases rule with rule | ⟨rfl, filled, equal⟩
  · exact .inl rule
  · refine .inr ⟨rfl, filled, ?_⟩
    rw [h.types.equals_eq hv (hw type rfl)]
    exact equal

theorem checkPairs_evolves {target : FunctionId} {types : List TypeId} {skipped : Nat}
    (hp : p.Tables) (known : ∀ t ∈ types, p.types.Knows t)
    (rule : checkPairs p ((types.zip (p.function target).parameterTypes).drop skipped) = .ok ()) :
    checkPairs q ((types.zip (q.function target).parameterTypes).drop skipped) = .ok () := by
  rw [checkPairs_eq_ok] at rule ⊢
  rw [Function.parameterTypes, h.parameters_eq]
  intro x hx
  obtain ⟨hargument, hparameter⟩ := List.of_mem_zip (List.mem_of_mem_drop hx)
  obtain ⟨parameter, hmem, htype⟩ := List.mem_map.1 hparameter
  have hknown := ((hp.signatures target).parameters parameter hmem).1
  rw [h.types.equals_eq (known x.1 hargument) (htype ▸ hknown)]
  exact rule x hx

theorem callType_evolves {target : FunctionId} {types : List TypeId} {injected : Bool}
    {type : TypeId} (hp : p.Tables) (known : ∀ t ∈ types, p.types.Knows t)
    (rule : callType p target injected types = .ok type) :
    callType q target injected types = .ok (q.function target).returnType := by
  obtain ⟨arity, pairs, -⟩ := callType_eq_ok.1 rule
  refine callType_eq_ok.2 ⟨?_, checkPairs_evolves h hp known pairs, rfl⟩
  rw [h.parameters_eq]
  exact arity

end Later

end Typing
end ObjectLang
