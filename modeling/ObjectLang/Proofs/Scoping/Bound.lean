import ObjectLang.Proofs.Machine.Blame
import ObjectLang.Proofs.Machine.Frame
import ObjectLang.Proofs.Scoping.Site
set_option autoImplicit false

/-!
# Expressions find their variables

If the variables that an expression reads are bound in the frame of the call, its evaluation ends
with a value or with a fault other than an unknown variable.
-/

namespace ObjectLang

def Fault.Cause.Bound : Fault.Cause → Prop
  | .unknownVariable _ => False
  | _ => True

def Fault.Bound : Fault → Prop
  | .at _ cause => cause.Bound
  | .noEntry => True

def BoundResult {α : Type} (result : Except Fault.Cause α) : Prop :=
  ∀ cause, result = .error cause → cause.Bound

theorem Fault.Cause.bound_of_plain {cause : Fault.Cause} (h : cause.isPlain = true) :
    cause.Bound := by
  cases cause with
  | unknownVariable name => cases h
  | _ => trivial

theorem PlainResult.bound {α : Type} {result : Except Fault.Cause α} (h : PlainResult result) :
    BoundResult result := fun cause failed => Fault.Cause.bound_of_plain (h cause failed)

namespace Machine

def State.names (s : State) : List String := s.scopes.bindings.map Prod.fst

variable {α β : Type} {names : List String}

theorem SameFrame.names_eq {s t : State} (h : SameFrame s t) : t.names = s.names := by
  rw [State.names, h.1, State.names]

/-- Where these names are bound, the evaluation misses no variable, and it keeps the frame. -/
def Finds (names : List String) (x : Eval α) : Prop :=
  ∀ s, s.names = names → (x s).Meets (fun _ t => SameFrame s t) (fun e _ => e.Bound)

namespace Finds

open Eval

theorem pure (value : α) : Finds names (Pure.pure value : Eval α) := fun s _ => .refl s

theorem bind {x : Eval α} {f : α → Eval β} (hx : Finds names x) (hf : ∀ v, Finds names (f v)) :
    Finds names (x >>= f) := by
  intro s bound
  refine meets_bind (hx s bound) fun v t frame => ?_
  exact (hf v t (frame.names_eq.trans bound)).mono (fun _ _ frame' => frame.trans frame')
    (fun _ _ h => h)

theorem fail (line : Nat) {cause : Fault.Cause} (h : cause.Bound) :
    Finds names (fail line cause : Eval α) := fun _ _ => h

theorem ofExcept (line : Nat) {result : Except Fault.Cause α} (h : BoundResult result) :
    Finds names (ofExcept line result) := by
  cases result with
  | ok v => exact fun s _ => .refl s
  | error cause => exact fun _ _ => h cause rfl

theorem read (f : State → α) : Finds names (read f) := fun s _ => .refl s

theorem onHeap (f : Heap → α × Heap) : Finds names (onHeap f) := fun _ _ => ⟨rfl, rfl⟩

theorem of_blames {x : Eval α} (frame : KeepsFrame x) (blames : Blames Fault.Cause.Bound x) :
    Finds names x := by
  refine fun s _ => ((frame s).and (blames s)).mono (fun _ _ h => h.1) fun e _ h => ?_
  cases e with
  | «at» line cause => exact h.2
  | noEntry => trivial

end Finds

open Finds

theorem finds_allocate (line : Nat) (element : Value) (size : Nat) :
    Finds names (allocate line element size) :=
  .of_blames (keepsFrame_allocate line element size)
    (blames_allocate (fun _ => Fault.Cause.bound_of_plain) line element size)

theorem finds_callNative (f : Function) (arguments : List Value) (line : Nat) :
    Finds names (callNative f arguments line) :=
  .of_blames (keepsFrame_callNative f arguments line)
    (blames_callNative (fun _ => Fault.Cause.bound_of_plain) line (fun _ => trivial)
      fun _ _ => .inr fun _ _ _ => trivial)

/-- A context in which functions that may be called miss no variable, and dispatch leads from one
    of them to another. -/
structure Context.Safe (callable : FunctionId → Prop) (c : Context) : Prop where
  calls : ∀ id arguments line names, callable id → Finds names (c.call id arguments line)
  dispatches : ∀ target receiver h, callable target →
    callable (dispatch c.program target receiver h)

theorem not_mem_of_lookup_eq_none {σ : List (String × α)} {name : String}
    (h : σ.lookup name = none) : name ∉ σ.map Prod.fst := by
  intro mem
  obtain ⟨⟨key, value⟩, hmem, rfl⟩ := List.mem_map.1 mem
  rw [List.lookup_eq_none_iff] at h
  have differs := h (key, value) hmem
  simp at differs

theorem finds_readVar {name : String} (line : Nat) (visible : name ∈ names) :
    Finds names (readVar name line) := by
  intro s bound
  refine Eval.meets_bind (R := fun v t => t = s ∧ v = s.scopes.get? name) ⟨rfl, rfl⟩ ?_
  rintro _ t ⟨rfl, rfl⟩
  cases found : t.scopes.get? name with
  | some value => exact SameFrame.refl t
  | none =>
    refine absurd ?_ (not_mem_of_lookup_eq_none found)
    change name ∈ t.names
    rw [bound]
    exact visible

theorem finds_readField (base : Value) (name : String) (line : Nat) :
    Finds names (readField base name line) :=
  .of_blames (keepsFrame_readField base name line)
    (blames_readField (fun _ => Fault.Cause.bound_of_plain) base name line)

theorem finds_readSlot (ref : ArrayRef) (index : Value) (line : Nat) :
    Finds names (readSlot ref index line) :=
  .of_blames (keepsFrame_readSlot ref index line)
    (blames_readSlot (fun _ => Fault.Cause.bound_of_plain) ref index line)

section Expressions

variable {callable : FunctionId → Prop} {c : Context}

theorem finds_callTarget (safe : c.Safe callable) {target : FunctionId} (known : callable target)
    (injected : Bool) (arguments : List Value) (line : Nat) :
    Finds names (callTarget c target injected arguments line) := by
  intro s bound
  refine Eval.meets_bind (R := fun id t => t = s ∧ callable id)
    ⟨rfl, safe.dispatches _ _ _ known⟩ ?_
  rintro id _ ⟨rfl, known⟩
  exact safe.calls id arguments line names known _ bound

mutual

theorem finds_eval (safe : c.Safe callable) (e : Expr) (sees : e.Scoped callable names) :
    Finds names (eval c e) := by
  cases e with
  | binary op lhs rhs line =>
    exact (finds_eval safe lhs sees.1).bind fun _ =>
      (finds_eval safe rhs sees.2).bind fun _ => Finds.ofExcept _ (op.plain_apply _ _).bound
  | literal value line => exact Finds.pure _
  | var name type line => exact finds_readVar line sees
  | field base name type line =>
    exact (finds_eval safe base sees).bind fun _ => finds_readField _ _ _
  | new type line => exact Finds.onHeap _
  | allocate element size line =>
    refine (finds_eval safe size sees).bind fun _ => ?_
    refine (Finds.ofExcept _ (Value.plain_asInt _).bound).bind fun _ => ?_
    refine (Finds.ofExcept _ (Value.plain_count _).bound).bind fun _ => ?_
    exact (Finds.onHeap _).bind fun _ => finds_allocate _ _ _
  | array element items line =>
    exact (finds_evalAll safe items sees).bind fun _ => Finds.onHeap _
  | index base place line =>
    refine (finds_eval safe base sees.1).bind fun _ => ?_
    refine (Finds.ofExcept _ (Value.plain_asArray _).bound).bind fun _ => ?_
    exact (finds_eval safe place sees.2).bind fun _ => finds_readSlot _ _ _
  | reference expr line => exact finds_eval safe expr sees
  | cast expr type line =>
    exact (finds_eval safe expr sees).bind fun _ => Finds.ofExcept _ (Value.plain_cast _ _).bound
  | call callee arguments target injected line =>
    cases target with
    | some target =>
      exact (finds_evalAll safe arguments sees.1).bind fun _ =>
        finds_callTarget safe (sees.2 target rfl) _ _ _
    | none => exact Finds.fail _ trivial
termination_by structural e

theorem finds_evalAll (safe : c.Safe callable) (es : List Expr)
    (sees : Expr.AllScoped callable names es) : Finds names (evalAll c es) := by
  cases es with
  | nil => exact Finds.pure _
  | cons e rest =>
    exact (finds_eval safe e sees.1).bind fun _ =>
      (finds_evalAll safe rest sees.2).bind fun _ => Finds.pure _
termination_by structural es

end

end Expressions

end Machine
end ObjectLang
