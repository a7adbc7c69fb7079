import ObjectLang.Machine.Outcome
set_option autoImplicit false

/-!
# Postconditions of evaluations

What is claimed of an evaluation is claimed of the value and the state it ends with, or of the fault
and the state it ends with; an evaluation that reaches its bound meets every claim.
-/

namespace ObjectLang.Machine

variable {α β : Type}

/-- A claim on the end of an evaluation, with `Q` for values and `E` for faults. -/
def Outcome.Meets (Q : α → State → Prop) (E : Fault → State → Prop) : Outcome α → Prop
  | .done value t => Q value t
  | .fault e t => E e t
  | .exhausted => True

namespace Outcome

theorem Meets.mono {Q Q' : α → State → Prop} {E E' : Fault → State → Prop} {o : Outcome α}
    (h : o.Meets Q E) (hQ : ∀ v t, Q v t → Q' v t) (hE : ∀ e t, E e t → E' e t) :
    o.Meets Q' E' := by
  cases o with
  | done v t => exact hQ v t h
  | fault e t => exact hE e t h
  | exhausted => trivial

theorem Meets.and {Q Q' : α → State → Prop} {E E' : Fault → State → Prop} {o : Outcome α}
    (h : o.Meets Q E) (h' : o.Meets Q' E') :
    o.Meets (fun v t => Q v t ∧ Q' v t) (fun e t => E e t ∧ E' e t) := by
  cases o with
  | done v t => exact ⟨h, h'⟩
  | fault e t => exact ⟨h, h'⟩
  | exhausted => trivial

def value? : Outcome α → Option α
  | .done value _ => some value
  | _ => none

theorem exists_done {o : Outcome α} {P : α → Bool} (h : o.value?.any P = true) :
    ∃ value s, o = .done value s ∧ P value = true := by
  cases o with
  | done value s => exact ⟨value, s, rfl, h⟩
  | _ => cases h

def ends (test : α → State → Bool) : Outcome α → Bool
  | .done value s => test value s
  | _ => false

theorem exists_of_ends {o : Outcome α} {test : α → State → Bool} (h : o.ends test = true) :
    ∃ value s, o = .done value s ∧ test value s = true := by
  cases o with
  | done value s => exact ⟨value, s, rfl, h⟩
  | _ => cases h

def fault? : Outcome α → Option Fault
  | .fault e _ => some e
  | _ => none

theorem exists_fault {o : Outcome α} {e : Fault} (h : o.fault? = some e) :
    ∃ s, o = .fault e s := by
  cases o with
  | fault e' s => exact ⟨s, congrArg (fault · s) (Option.some.inj h)⟩
  | _ => cases h

end Outcome

namespace Eval

theorem bind_run (x : Eval α) (f : α → Eval β) (s : State) :
    (x >>= f) s = match x s with
      | .done value t => f value t
      | .fault e t => .fault e t
      | .exhausted => .exhausted := rfl

theorem pure_run (value : α) (s : State) : (pure value : Eval α) s = .done value s := rfl

theorem bind_bind {γ : Type} (x : Eval α) (f : α → Eval β) (g : β → Eval γ) :
    x >>= f >>= g = x >>= fun v => f v >>= g := by
  funext s
  simp only [bind_run]
  cases x s <;> rfl

theorem inFrame_run (bindings : List (String × Value)) (body : Eval Unit) (s : State) :
    inFrame bindings body s =
      match body { s with scopes := Scopes.empty.openSegment bindings, returned := none } with
      | .done () t =>
        .done (t.returned.getD .void) { t with scopes := s.scopes, returned := s.returned }
      | .fault e t => .fault e { t with scopes := s.scopes, returned := s.returned }
      | .exhausted => .exhausted := by
  simp only [inFrame, closing, bind_run]
  cases body { s with scopes := Scopes.empty.openSegment bindings, returned := none } <;> rfl

theorem loop_succ (test : Eval Bool) (body : Eval Unit) (rounds : Nat) :
    loop test body (rounds + 1) =
      test >>= fun again => if again then body >>= fun _ => loop test body rounds
        else Pure.pure () := by
  funext s
  rw [bind_run]
  simp only [loop]
  cases test s with
  | done again t =>
    cases again with
    | false => rfl
    | true =>
      change _ = (body >>= fun _ => loop test body rounds) t
      rw [bind_run]
      dsimp only
      cases body t <;> rfl
  | fault e t => rfl
  | exhausted => rfl

theorem hasReturned_bind (f : Bool → Eval β) (s : State) :
    (hasReturned >>= f) s = f s.returned.isSome s := rfl

theorem meets_bind {x : Eval α} {f : α → Eval β} {s : State} {R : α → State → Prop}
    {Q : β → State → Prop} {E : Fault → State → Prop} (hx : (x s).Meets R E)
    (hf : ∀ v t, R v t → (f v t).Meets Q E) : ((x >>= f) s).Meets Q E := by
  rw [bind_run]
  cases h : x s with
  | done v t => exact hf v t (by rw [h] at hx; exact hx)
  | fault e t => rw [h] at hx; exact hx
  | exhausted => trivial

theorem meets_closing {x : Eval α} {close : State → State} {s : State} {Q : α → State → Prop}
    {E : Fault → State → Prop}
    (h : (x s).Meets (fun v t => Q v (close t)) fun e t => E e (close t)) :
    (closing x close s).Meets Q E := by
  unfold closing
  cases found : x s with
  | done v t =>
    rw [found] at h
    exact h
  | fault e t =>
    rw [found] at h
    exact h
  | exhausted => trivial

/-- What is claimed of the body of a call, with what it returned, is claimed of the call. -/
theorem meets_inFrame {bindings : List (String × Value)} {body : Eval Unit} {s : State}
    {Q : Value → State → Prop} {E : Fault → State → Prop}
    (h : (body { s with scopes := Scopes.empty.openSegment bindings, returned := none }).Meets
      (fun _ t => Q (t.returned.getD .void) { t with scopes := s.scopes, returned := s.returned })
      fun e t => E e { t with scopes := s.scopes, returned := s.returned }) :
    (inFrame bindings body s).Meets Q E :=
  meets_closing (meets_bind h fun _ _ holds => holds)

theorem meets_ofExcept {line : Nat} {result : Except Fault.Cause α} {s : State}
    {Q : α → State → Prop} {E : Fault → State → Prop}
    (hQ : ∀ v, result = .ok v → Q v s)
    (hE : ∀ cause, result = .error cause → E (.at line cause) s) :
    ((ofExcept line result) s).Meets Q E := by
  cases result with
  | ok v => exact hQ v rfl
  | error cause => exact hE cause rfl

end Eval
end ObjectLang.Machine
