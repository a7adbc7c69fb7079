import ObjectLang.Proofs.Scoping.Exec
set_option autoImplicit false

/-!
# Segments

A statement changes the values of variables and declares new ones in the innermost segment, and that
is all it does to the frame of its call: the segments under the innermost one keep their names, each
in its place, and no segment is left open or closed too often. This holds of every statement in every
state, also when a fault ends it on the way. With what expressions and calls leave of a frame, a call
reaches its caller through the heap and the console only, whether it ends with a value or a fault.
-/

namespace ObjectLang

namespace Scopes

variable {α : Type} {σ τ υ : Scopes α}

structure AlikeOutside (σ τ : Scopes α) : Prop where
  segments : τ.counts.length = σ.counts.length
  outside : σ.closeSegment.Alike τ.closeSegment

namespace AlikeOutside

theorem of_alike (h : σ.Alike τ) : AlikeOutside σ τ :=
  ⟨congrArg List.length h.counts, h.closeSegment⟩

theorem refl (σ : Scopes α) : AlikeOutside σ σ := of_alike (.refl σ)

theorem trans (h : AlikeOutside σ τ) (h' : AlikeOutside τ υ) : AlikeOutside σ υ :=
  ⟨h'.segments.trans h.segments, h.outside.trans h'.outside⟩

theorem push (σ : Scopes α) (name : String) (value : α) : AlikeOutside σ (σ.push name value) := by
  refine ⟨?_, ?_⟩
  · unfold Scopes.push
    cases σ.counts with
    | nil => rfl
    | cons count outer => rfl
  · rw [closeSegment_push]
    exact .refl _

theorem closed (h : (σ.openSegment []).AlikeOutside τ) : σ.Alike τ.closeSegment := by
  have outside := h.outside
  rw [closeSegment_openSegment] at outside
  exact outside

end AlikeOutside
end Scopes

namespace Machine

variable {α β : Type}

open Eval

/-- The evaluation ends with the segments it began with and with their names outside the innermost
    one. -/
def KeepsSegments (x : Eval α) : Prop :=
  ∀ s, (x s).Meets (fun _ t => s.scopes.AlikeOutside t.scopes)
    (fun _ t => s.scopes.AlikeOutside t.scopes)

namespace KeepsSegments

theorem of_keepsFrame {x : Eval α} (h : KeepsFrame x) : KeepsSegments x := fun s =>
  (h s).mono (fun _ _ frame => frame.1.symm ▸ .refl _) fun _ _ frame => frame.1.symm ▸ .refl _

theorem pure (value : α) : KeepsSegments (Pure.pure value : Eval α) :=
  of_keepsFrame (.pure value)

theorem bind {x : Eval α} {f : α → Eval β} (hx : KeepsSegments x)
    (hf : ∀ v, KeepsSegments (f v)) : KeepsSegments (x >>= f) := by
  intro s
  refine meets_bind (hx s) fun v t first => ?_
  exact (hf v t).mono (fun _ _ => first.trans) fun _ _ => first.trans

theorem inScope {x : Eval α} (h : KeepsSegments x) : KeepsSegments (inScope x) := by
  intro s
  refine meets_closing ((h s.opened).mono (fun _ _ inside => ?_) fun _ _ inside => ?_)
  · exact .of_alike (Scopes.AlikeOutside.closed inside)
  · exact .of_alike (Scopes.AlikeOutside.closed inside)

theorem loop {test : Eval Bool} {body : Eval Unit} (htest : KeepsSegments test)
    (hbody : KeepsSegments body) (rounds : Nat) : KeepsSegments (loop test body rounds) := fun s =>
  meets_loop (I := fun t => s.scopes.AlikeOutside t.scopes)
    (fun t before => (htest t).mono (fun _ _ => before.trans) fun _ _ => before.trans)
    (fun t before => (hbody t).mono (fun _ _ => before.trans) fun _ _ => before.trans)
    rounds s (.refl _)

theorem unlessReturned {x : Eval Unit} (h : KeepsSegments x) :
    KeepsSegments (do if ← hasReturned then Pure.pure () else x) := by
  refine bind (of_keepsFrame (.read _)) fun returned => ?_
  cases returned with
  | true => exact .pure ()
  | false => exact h

end KeepsSegments

open KeepsSegments

variable {c : Context}

theorem keepsSegments_writeVar (name : String) (value : Value) (line : Nat) :
    KeepsSegments (writeVar name value line) := by
  intro s
  unfold writeVar
  cases found : s.scopes.set? name value with
  | some scopes => exact .of_alike (Scopes.alike_of_set? found)
  | none => exact .refl _

theorem keepsFrame_writeSlot (ref : ArrayRef) (index value : Value) (line : Nat) :
    KeepsFrame (writeSlot ref index value line) :=
  .bind (.ofExcept _ _) fun _ => .bind (.read _) fun _ => .bind (.ofExcept _ _) fun _ => .onHeap _

theorem keepsFrame_store (framed : c.Framed) {target : Expr} (value : Value) (line : Nat)
    (apart : ∀ name type place, target ≠ .var name type place) :
    KeepsFrame (store c target value line) := by
  cases target with
  | var name type place => exact absurd rfl (apart name type place)
  | field base name type place =>
    exact .bind (keepsFrame_eval framed base) fun _ => .bind (.ofExcept _ _) fun _ => .onHeap _
  | index array index place =>
    exact .bind (keepsFrame_eval framed array) fun _ => .bind (.ofExcept _ _) fun _ =>
      .bind (keepsFrame_eval framed index) fun _ => keepsFrame_writeSlot _ _ _ _
  | _ => exact .fail _ _

theorem keepsSegments_store (framed : c.Framed) (target : Expr) (value : Value) (line : Nat) :
    KeepsSegments (store c target value line) := by
  cases target with
  | var name type place => exact keepsSegments_writeVar name value line
  | _ =>
    exact of_keepsFrame (keepsFrame_store framed value line fun _ _ _ same => by cases same)

theorem keepsSegments_assign (framed : c.Framed) (declares : Bool) (target value : Expr)
    (line : Nat) : KeepsSegments (assign c declares target value line) := by
  refine bind (of_keepsFrame (keepsFrame_eval framed value)) fun v => ?_
  split
  · exact fun s => .push s.scopes _ v
  · exact keepsSegments_store framed target v line

theorem keepsSegments_condition (framed : c.Framed) (e : Expr) (line : Nat) :
    KeepsSegments (condition c e line) :=
  of_keepsFrame (keepsFrame_condition framed e line)

theorem keepsSegments_goesOn (framed : c.Framed) (e : Expr) (line : Nat) :
    KeepsSegments (goesOn c e line) := by
  refine bind (of_keepsFrame (.read _)) fun returned => ?_
  cases returned with
  | true => exact .pure false
  | false => exact keepsSegments_condition framed e line

mutual

theorem keepsSegments_exec (framed : c.Framed) (statement : Statement) :
    KeepsSegments (exec c statement) := by
  cases statement with
  | block statements line => exact inScope (keepsSegments_execAll framed statements)
  | assign declares target written value line =>
    exact keepsSegments_assign framed declares target value line
  | ret value line =>
    exact bind (of_keepsFrame (keepsFrame_eval framed value)) fun _ s => .refl s.scopes
  | ifThen test body line =>
    refine bind (keepsSegments_condition framed test line) fun holds => ?_
    cases holds with
    | true => exact inScope (keepsSegments_exec framed body)
    | false => exact .pure ()
  | ifElse test body otherwise line =>
    refine bind (keepsSegments_condition framed test line) fun holds => ?_
    cases holds with
    | true => exact inScope (keepsSegments_exec framed body)
    | false => exact inScope (keepsSegments_exec framed otherwise)
  | whileLoop test body line =>
    exact loop (keepsSegments_goesOn framed test line) (inScope (keepsSegments_exec framed body)) _
  | forLoop first test step body line =>
    refine inScope (bind (keepsSegments_exec framed first) fun _ => ?_)
    refine loop (keepsSegments_goesOn framed test line) ?_ _
    exact bind (inScope (keepsSegments_exec framed body)) fun _ =>
      unlessReturned (keepsSegments_exec framed step)
  | call callee arguments target injected line =>
    cases target with
    | some target =>
      exact of_keepsFrame <| .bind (keepsFrame_evalAll framed arguments) fun _ =>
        .bind (keepsFrame_callTarget framed _ _ _ _) fun _ => .pure ()
    | none => exact of_keepsFrame (.fail _ _)
termination_by structural statement

theorem keepsSegments_execAll (framed : c.Framed) (statements : List Statement) :
    KeepsSegments (execAll c statements) := by
  cases statements with
  | nil => exact .pure ()
  | cons statement rest =>
    exact unlessReturned <| bind (keepsSegments_exec framed statement) fun _ =>
      keepsSegments_execAll framed rest
termination_by structural statements

end

/-- States with one frame differ in their heap and their console only. -/
theorem SameFrame.eq {s t : State} (h : SameFrame s t) :
    t = { s with heap := t.heap, console := t.console } := by
  obtain ⟨heap, console, scopes, returned⟩ := t
  obtain ⟨rfl, rfl⟩ := h
  rfl

/-- From every state, a call gives the frame of its caller back and so changes nothing but the heap
    and the console, an expression leaves its frame as it is, and a statement leaves the segments
    around the innermost one with their names. All this holds for values and for faults. -/
theorem frames_kept (p : Program) (rounds depth : Nat) (s : State) :
    (∀ id arguments line, (callWithin p rounds depth id arguments line s).Meets
      (fun _ t => SameFrame s t ∧ t = { s with heap := t.heap, console := t.console })
      (fun _ t => SameFrame s t ∧ t = { s with heap := t.heap, console := t.console })) ∧
    (∀ e, (eval { program := p, call := callWithin p rounds depth, rounds } e s).Meets
      (fun _ t => SameFrame s t) (fun _ t => SameFrame s t)) ∧
    (∀ statement, (exec { program := p, call := callWithin p rounds depth, rounds } statement s).Meets
      (fun _ t => s.scopes.AlikeOutside t.scopes) (fun _ t => s.scopes.AlikeOutside t.scopes)) := by
  have framed : Context.Framed { program := p, call := callWithin p rounds depth, rounds } :=
    keepsFrame_callWithin p rounds depth
  refine ⟨fun id arguments line => ?_, fun e => keepsFrame_eval framed e s,
    fun statement => keepsSegments_exec framed statement s⟩
  exact (keepsFrame_callWithin p rounds depth id arguments line s).mono
    (fun _ _ frame => ⟨frame, frame.eq⟩) fun _ _ frame => ⟨frame, frame.eq⟩

end Machine
end ObjectLang
