import ObjectLang.Machine.Eval
import ObjectLang.Proofs.Machine.Outcome
set_option autoImplicit false

/-!
# Frames

An expression leaves the variables of its call and what the call returns as they are, whether it ends
with a value or with a fault: a call made on the way works in a frame of its own and gives the frame
of its caller back.
-/

namespace ObjectLang.Machine

variable {α β : Type}

def SameFrame (s t : State) : Prop := t.scopes = s.scopes ∧ t.returned = s.returned

namespace SameFrame

theorem refl (s : State) : SameFrame s s := ⟨rfl, rfl⟩

theorem trans {s t u : State} (h : SameFrame s t) (h' : SameFrame t u) : SameFrame s u :=
  ⟨h'.1.trans h.1, h'.2.trans h.2⟩

end SameFrame

/-- The evaluation ends in the frame it began in. -/
def KeepsFrame (x : Eval α) : Prop :=
  ∀ s, (x s).Meets (fun _ t => SameFrame s t) (fun _ t => SameFrame s t)

namespace KeepsFrame

open Eval

theorem pure (value : α) : KeepsFrame (Pure.pure value : Eval α) := fun s => .refl s

theorem bind {x : Eval α} {f : α → Eval β} (hx : KeepsFrame x) (hf : ∀ v, KeepsFrame (f v)) :
    KeepsFrame (x >>= f) := by
  intro s
  rw [bind_run]
  have h := hx s
  cases hs : x s with
  | done v t =>
    rw [hs] at h
    exact (hf v t).mono (fun _ _ h' => h.trans h') (fun _ _ h' => h.trans h')
  | fault e t => rw [hs] at h; exact h
  | exhausted => trivial

theorem fail (line : Nat) (cause : Fault.Cause) : KeepsFrame (fail line cause : Eval α) :=
  fun s => .refl s

theorem ofExcept (line : Nat) (result : Except Fault.Cause α) :
    KeepsFrame (ofExcept line result) := by
  cases result with
  | ok v => exact fun s => .refl s
  | error cause => exact fun s => .refl s

theorem read (f : State → α) : KeepsFrame (read f) := fun s => .refl s

theorem onHeap (f : Heap → α × Heap) : KeepsFrame (onHeap f) := fun _ => ⟨rfl, rfl⟩

theorem onConsole (line : Nat) (f : Console → Except Fault.Cause α × Console) :
    KeepsFrame (onConsole line f) := by
  intro s
  simp only [Eval.onConsole]
  cases (f s.console).1 with
  | ok v => exact ⟨rfl, rfl⟩
  | error cause => exact ⟨rfl, rfl⟩

/-- A call gives the frame of its caller back. -/
theorem inFrame (bindings : List (String × Value)) (body : Eval Unit) :
    KeepsFrame (inFrame bindings body) := by
  intro s
  rw [inFrame_run]
  split
  · exact ⟨rfl, rfl⟩
  · exact ⟨rfl, rfl⟩
  · trivial

end KeepsFrame

open KeepsFrame

theorem keepsFrame_display (value : Value) : KeepsFrame (display value) := by
  intro s
  unfold display
  split
  · exact .refl s
  · trivial

theorem keepsFrame_print (line : Nat) (value : Value) : KeepsFrame (print line value) :=
  bind (keepsFrame_display value) fun _ => KeepsFrame.onConsole line _

theorem keepsFrame_allocate (line : Nat) (element : Value) (size : Nat) :
    KeepsFrame (allocate line element size) := by
  refine bind (read _) fun heap => ?_
  split
  · exact KeepsFrame.onHeap _
  · exact KeepsFrame.fail _ _

theorem keepsFrame_copy (line : Nat) (dest src size : Value) :
    KeepsFrame (copy line dest src size) := by
  refine bind (KeepsFrame.ofExcept _ _) fun d => bind (KeepsFrame.ofExcept _ _) fun r =>
    bind (KeepsFrame.ofExcept _ _) fun requested => bind (KeepsFrame.ofExcept _ _) fun count => ?_
  split
  · exact KeepsFrame.pure _
  · refine bind (read _) fun heap => ?_
    dsimp only
    split
    · exact KeepsFrame.onHeap _
    · exact KeepsFrame.fail _ _

theorem keepsFrame_native (native : Native) (line : Nat) (arguments : List Value) :
    KeepsFrame (native.call line arguments) := by
  unfold Native.call
  split
  · exact bind (keepsFrame_print _ _) fun _ => KeepsFrame.pure _
  · exact bind (keepsFrame_print _ _) fun _ => bind (KeepsFrame.onConsole _ _) fun _ =>
      bind (KeepsFrame.onConsole _ _) fun _ => KeepsFrame.pure _
  · exact bind (KeepsFrame.ofExcept _ _) fun _ => bind (KeepsFrame.ofExcept _ _) fun _ =>
      keepsFrame_allocate _ _ _
  · exact keepsFrame_copy _ _ _ _
  · exact bind (keepsFrame_display _) fun _ => KeepsFrame.fail _ _
  · exact KeepsFrame.fail _ _

theorem keepsFrame_callNative (f : Function) (arguments : List Value) (line : Nat) :
    KeepsFrame (callNative f arguments line) := by
  unfold callNative
  split
  · exact keepsFrame_native _ _ _
  · exact KeepsFrame.fail _ _

theorem keepsFrame_callWithin (p : Program) (rounds depth : Nat) (id : FunctionId)
    (arguments : List Value) (line : Nat) :
    KeepsFrame (callWithin p rounds depth id arguments line) := by
  cases depth with
  | zero => exact fun _ => trivial
  | succ depth =>
    simp only [callWithin]
    split
    · split
      · exact keepsFrame_callNative _ _ _
      · exact KeepsFrame.inFrame _ _
    · exact KeepsFrame.fail _ _

def Context.Framed (c : Context) : Prop :=
  ∀ id arguments line, KeepsFrame (c.call id arguments line)

theorem keepsFrame_callTarget {c : Context} (hc : c.Framed) (target : FunctionId) (injected : Bool)
    (arguments : List Value) (line : Nat) : KeepsFrame (callTarget c target injected arguments line) :=
  bind (read _) fun _ => hc _ _ _

theorem keepsFrame_readVar (name : String) (line : Nat) : KeepsFrame (readVar name line) := by
  refine bind (read _) fun found => ?_
  cases found with
  | some value => exact KeepsFrame.pure value
  | none => exact KeepsFrame.fail _ _

theorem keepsFrame_readField (base : Value) (name : String) (line : Nat) :
    KeepsFrame (readField base name line) := by
  refine bind (KeepsFrame.ofExcept _ _) fun ref => bind (read _) fun found => ?_
  cases found with
  | some value => exact KeepsFrame.pure value
  | none => exact KeepsFrame.fail _ _

theorem keepsFrame_readSlot (ref : ArrayRef) (index : Value) (line : Nat) :
    KeepsFrame (readSlot ref index line) :=
  bind (KeepsFrame.ofExcept _ _) fun _ => bind (read _) fun _ =>
    bind (KeepsFrame.ofExcept _ _) fun _ => KeepsFrame.pure _

mutual

theorem keepsFrame_eval {c : Context} (hc : c.Framed) (e : Expr) : KeepsFrame (eval c e) := by
  cases e with
  | binary op lhs rhs line =>
    exact bind (keepsFrame_eval hc lhs) fun _ => bind (keepsFrame_eval hc rhs) fun _ =>
      KeepsFrame.ofExcept _ _
  | literal value line => exact KeepsFrame.pure _
  | var name type line => exact keepsFrame_readVar name line
  | field base name type line =>
    exact bind (keepsFrame_eval hc base) fun _ => keepsFrame_readField _ _ _
  | new type line => exact KeepsFrame.onHeap _
  | allocate element size line =>
    exact bind (keepsFrame_eval hc size) fun _ => bind (KeepsFrame.ofExcept _ _) fun _ =>
      bind (KeepsFrame.ofExcept _ _) fun _ => bind (KeepsFrame.onHeap _) fun _ =>
        keepsFrame_allocate _ _ _
  | array element items line =>
    exact bind (keepsFrame_evalAll hc items) fun _ => KeepsFrame.onHeap _
  | index array index line =>
    exact bind (keepsFrame_eval hc array) fun _ => bind (KeepsFrame.ofExcept _ _) fun _ =>
      bind (keepsFrame_eval hc index) fun _ => keepsFrame_readSlot _ _ _
  | reference expr line => exact keepsFrame_eval hc expr
  | cast expr type line =>
    exact bind (keepsFrame_eval hc expr) fun _ => KeepsFrame.ofExcept _ _
  | call callee arguments target injected line =>
    cases target with
    | some target =>
      exact bind (keepsFrame_evalAll hc arguments) fun _ => keepsFrame_callTarget hc _ _ _ _
    | none => exact KeepsFrame.fail _ _
termination_by structural e

theorem keepsFrame_evalAll {c : Context} (hc : c.Framed) (es : List Expr) : KeepsFrame (evalAll c es) := by
  cases es with
  | nil => exact KeepsFrame.pure _
  | cons e rest =>
    exact bind (keepsFrame_eval hc e) fun _ => bind (keepsFrame_evalAll hc rest) fun _ =>
      KeepsFrame.pure _
termination_by structural es

end

theorem keepsFrame_condition {c : Context} (hc : c.Framed) (e : Expr) (line : Nat) :
    KeepsFrame (condition c e line) :=
  bind (keepsFrame_eval hc e) fun _ => KeepsFrame.ofExcept _ _

end ObjectLang.Machine
