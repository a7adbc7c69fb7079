import ObjectLang.Proofs.Machine.Direct
set_option autoImplicit false

/-!
# The interpreter leaves calls at once

The interpreter keeps what a call returns in a place of its state and tests that place wherever
control could go on. Here this is compared with leaving the call directly.

Each of two runs may be the one that is known to end; then the other ends as well, in the same way.
Both directions share one proof, in which a `Side` says which run is known.
-/

namespace ObjectLang.Machine

variable {α β : Type}

inductive Side
  | slot | direct

namespace Side

/-- What is known of one of two runs. -/
def pick : Side → Prop → Prop → Prop
  | slot, p, _ => p
  | direct, _, q => q

/-- The bounds under which the run that is not known has time to end. -/
def Bounds : Side → Nat → Nat → Prop
  | slot, n, m => n = m
  | direct, n, m => n = m + 1

def Same (side : Side) (x y : Eval α) : Prop :=
  ∀ s, side.pick (x s ≠ .exhausted) (y s ≠ .exhausted) → x s = y s

end Side

/-- Statements end alike: both go on, or the call leaves with what the interpreter stored, or both
    have the same fault. Behind the end of a call its variables do not count. -/
inductive EndsAlike : Outcome Unit → Flow Unit → Prop
  | next (s : State) (h : s.returned = none) : EndsAlike (.done () s) (.next () s)
  | left (value : Value) (s t : State) (h : s.returned = some value) (heap : s.heap = t.heap)
      (console : s.console = t.console) : EndsAlike (.done () s) (.left value t)
  | fault (e : Fault) (s t : State) (heap : s.heap = t.heap)
      (console : s.console = t.console) : EndsAlike (.fault e s) (.fault e t)

def Side.Agree (side : Side) (x : Eval Unit) (y : Direct Unit) : Prop :=
  ∀ s, s.returned = none → side.pick (x s ≠ .exhausted) (y s ≠ .exhausted) →
    EndsAlike (x s) (y s)

def Side.Skips (side : Side) (x : Eval Unit) : Prop :=
  ∀ s, s.returned.isSome → side.pick (x s ≠ .exhausted) True → x s = .done () s

namespace Side

open Eval

variable {side : Side}

theorem pick_mono {p p' q q' : Prop} (h : side.pick p q) (hp : p → p') (hq : q → q') :
    side.pick p' q' := by
  cases side with
  | slot => exact hp h
  | direct => exact hq h

namespace Same

theorem refl (x : Eval α) : side.Same x x := fun _ _ => rfl

theorem bind {x y : Eval α} {f g : α → Eval β} (hx : side.Same x y)
    (hf : ∀ v, side.Same (f v) (g v)) : side.Same (x >>= f) (y >>= g) := by
  intro s known
  have hs : x s = y s := by
    apply hx s
    apply pick_mono known
    · intro h he
      exact h (by rw [bind_run, he])
    · intro h he
      exact h (by rw [bind_run, he])
  simp only [bind_run, hs] at known ⊢
  cases h : y s with
  | done v t =>
    simp only [h] at known
    exact hf v t known
  | fault e t => rfl
  | exhausted => rfl

end Same

section Expressions

variable {c d : Context}

def SameCalls (side : Side) (c d : Context) : Prop :=
  c.program = d.program ∧
    ∀ id arguments line, side.Same (c.call id arguments line) (d.call id arguments line)

theorem same_callTarget (h : side.SameCalls c d) (target : FunctionId) (injected : Bool)
    (arguments : List Value) (line : Nat) :
    side.Same (callTarget c target injected arguments line)
      (callTarget d target injected arguments line) := by
  unfold callTarget
  rw [h.1]
  exact Same.bind (.refl _) fun id => h.2 id arguments line

mutual

theorem same_eval (h : side.SameCalls c d) (e : Expr) : side.Same (eval c e) (eval d e) := by
  cases e with
  | binary op lhs rhs line =>
    exact (same_eval h lhs).bind fun _ => (same_eval h rhs).bind fun _ => .refl _
  | literal value line => exact .refl _
  | var name type line => exact .refl _
  | field base name type line => exact (same_eval h base).bind fun _ => .refl _
  | new type line =>
    simp only [eval, h.1]
    exact .refl _
  | allocate element size line =>
    simp only [eval, h.1]
    exact (same_eval h size).bind fun _ => .refl _
  | array element items line => exact (same_evalAll h items).bind fun _ => .refl _
  | index array index line =>
    exact (same_eval h array).bind fun _ => Same.bind (.refl _) fun _ =>
      (same_eval h index).bind fun _ => .refl _
  | reference expr line => exact same_eval h expr
  | cast expr type line => exact (same_eval h expr).bind fun _ => .refl _
  | call callee arguments target injected line =>
    cases target with
    | some target =>
      exact (same_evalAll h arguments).bind fun _ => same_callTarget h _ _ _ _
    | none => exact .refl _
termination_by structural e

theorem same_evalAll (h : side.SameCalls c d) (es : List Expr) :
    side.Same (evalAll c es) (evalAll d es) := by
  cases es with
  | nil => exact .refl _
  | cons e rest => exact (same_eval h e).bind fun _ => (same_evalAll h rest).bind fun _ => .refl _
termination_by structural es

end

theorem same_condition (h : side.SameCalls c d) (e : Expr) (line : Nat) :
    side.Same (condition c e line) (condition d e line) :=
  (same_eval h e).bind fun _ => .refl _

theorem same_store (h : side.SameCalls c d) (target : Expr) (value : Value) (line : Nat) :
    side.Same (store c target value line) (store d target value line) := by
  cases target with
  | field base name type _ => exact (same_eval h base).bind fun _ => .refl _
  | index array index _ =>
    exact (same_eval h array).bind fun _ => Same.bind (.refl _) fun _ =>
      (same_eval h index).bind fun _ => .refl _
  | _ => exact .refl _

theorem same_assign (h : side.SameCalls c d) (declares : Bool) (target value : Expr)
    (line : Nat) :
    side.Same (assign c declares target value line) (assign d declares target value line) := by
  refine (same_eval h value).bind fun v => ?_
  split
  · exact .refl _
  · exact same_store h target v line

end Expressions

/-- The evaluation leaves what the call returns as it is. -/
def KeepsReturned (x : Eval α) : Prop :=
  ∀ s, (x s).Meets (fun _ t => t.returned = s.returned) (fun _ _ => True)

namespace KeepsReturned

theorem of_keepsFrame {x : Eval α} (h : KeepsFrame x) : KeepsReturned x :=
  fun s => (h s).mono (fun _ _ h => h.2) (fun _ _ _ => trivial)

theorem bind {x : Eval α} {f : α → Eval β} (hx : KeepsReturned x)
    (hf : ∀ v, KeepsReturned (f v)) : KeepsReturned (x >>= f) := by
  intro s
  refine meets_bind (hx s) fun v t h => ?_
  exact (hf v t).mono (fun _ _ h' => h'.trans h) (fun _ _ _ => trivial)

theorem writeVar (name : String) (value : Value) (line : Nat) :
    KeepsReturned (writeVar name value line) := by
  intro s
  unfold Machine.writeVar
  split
  · rfl
  · trivial

theorem writeSlot (ref : ArrayRef) (index value : Value) (line : Nat) :
    KeepsReturned (writeSlot ref index value line) :=
  of_keepsFrame <| .bind (.ofExcept _ _) fun _ => .bind (.read _) fun _ =>
    .bind (.ofExcept _ _) fun _ => .onHeap _

variable {c : Context} (hc : c.Framed)
include hc

theorem store (target : Expr) (value : Value) (line : Nat) :
    KeepsReturned (store c target value line) := by
  cases target with
  | var name type _ => exact writeVar name value line
  | field base name type _ =>
    exact .of_keepsFrame <| .bind (keepsFrame_eval hc base) fun _ => .bind (.ofExcept _ _) fun _ =>
      .onHeap _
  | index array index _ =>
    exact .bind (.of_keepsFrame (keepsFrame_eval hc array)) fun _ =>
      .bind (.of_keepsFrame (.ofExcept _ _)) fun _ =>
        .bind (.of_keepsFrame (keepsFrame_eval hc index)) fun _ => writeSlot _ _ _ _
  | _ => exact .of_keepsFrame (.fail _ _)

theorem assign (declares : Bool) (target value : Expr) (line : Nat) :
    KeepsReturned (assign c declares target value line) := by
  refine .bind (.of_keepsFrame (keepsFrame_eval hc value)) fun v => ?_
  split
  · exact fun _ => rfl
  · exact store hc target v line

end KeepsReturned

namespace Agree

theorem pure : side.Agree (Pure.pure ()) (Pure.pure ()) := fun s hs _ => .next s hs

theorem lift {x y : Eval α} {f : α → Eval Unit} {g : α → Direct Unit} (hx : side.Same x y)
    (quiet : KeepsReturned x) (hf : ∀ v, side.Agree (f v) (g v)) :
    side.Agree (x >>= f) (Direct.lift y >>= g) := by
  intro s hs known
  change side.pick _ (Direct.bind (Direct.lift y) g s ≠ _) at known
  change EndsAlike _ (Direct.bind (Direct.lift y) g s)
  have hxy : x s = y s := by
    apply hx s
    apply pick_mono known
    · intro h he
      exact h (by rw [bind_run, he])
    · intro h he
      exact h (by simp [Direct.bind, Direct.lift, he])
  have q := quiet s
  simp only [bind_run, Direct.bind, Direct.lift, ← hxy] at known ⊢
  cases h : x s with
  | done v t =>
    rw [h] at q
    simp only [h] at known
    exact hf v t (q.trans hs) known
  | fault e t => exact .fault e t t rfl rfl
  | exhausted =>
    simp only [h] at known
    cases side <;> exact absurd rfl known

theorem of_same {x y : Eval Unit} (h : side.Same x y) (quiet : KeepsReturned x) :
    side.Agree x (Direct.lift y) := by
  intro s hs known
  have hxy : x s = y s := by
    apply h s
    apply pick_mono known
    · exact id
    · intro h he
      exact h (by simp [Direct.lift, he])
  have q := quiet s
  simp only [Direct.lift, ← hxy] at known ⊢
  cases hx : x s with
  | done v t =>
    rw [hx] at q
    exact .next t (q.trans hs)
  | fault e t => exact .fault e t t rfl rfl
  | exhausted =>
    simp only [hx] at known
    cases side <;> exact absurd rfl known

theorem bind {x z : Eval Unit} {y w : Direct Unit} (hx : side.Agree x y) (hz : side.Agree z w)
    (skips : side.Skips z) : side.Agree (x >>= fun _ => z) (y >>= fun _ => w) := by
  intro s hs known
  change side.pick _ (Direct.bind y (fun _ => w) s ≠ _) at known
  change EndsAlike _ (Direct.bind y (fun _ => w) s)
  have ends : EndsAlike (x s) (y s) := by
    apply hx s hs
    apply pick_mono known
    · intro h he
      exact h (by rw [bind_run, he])
    · intro h he
      exact h (by simp [Direct.bind, he])
  simp only [bind_run, Direct.bind] at known ⊢
  generalize hxs : x s = o at ends known ⊢
  generalize hys : y s = f at ends known ⊢
  cases ends with
  | next t ht => exact hz t ht known
  | left v t u ht heap console =>
    have hskip : z t = .done () t := by
      apply skips t (by simp [ht])
      cases side with
      | slot => exact known
      | direct => trivial
    simp only [hskip]
    exact .left v t u ht heap console
  | fault e t u heap console => exact .fault e t u heap console

theorem inScope {x : Eval Unit} {y : Direct Unit} (h : side.Agree x y) :
    side.Agree (Eval.inScope x) (Direct.inScope y) := by
  intro s hs known
  simp only [Eval.inScope, closing, Direct.inScope] at known ⊢
  have ends : EndsAlike (x { s with scopes := s.scopes.openSegment [] })
      (y { s with scopes := s.scopes.openSegment [] }) := by
    apply h { s with scopes := s.scopes.openSegment [] } hs
    apply pick_mono known
    · intro h he
      exact h (by rw [he])
    · intro h he
      exact h (by rw [he])
  revert ends
  generalize x { s with scopes := s.scopes.openSegment [] } = o
  generalize y { s with scopes := s.scopes.openSegment [] } = f
  intro ends
  cases ends with
  | next t ht => exact .next _ ht
  | left v t u ht heap console => exact .left v _ u ht heap console
  | fault e t u heap console => exact .fault e _ u heap console

end Agree

theorem goesOn_of_none (c : Context) (e : Expr) (line : Nat) {s : State}
    (h : s.returned = none) : goesOn c e line s = condition c e line s := by
  simp [goesOn, hasReturned_bind, h]

theorem goesOn_of_isSome (c : Context) (e : Expr) (line : Nat) {s : State}
    (h : s.returned.isSome) : goesOn c e line s = .done false s := by
  simp [goesOn, hasReturned_bind, pure_run, h]

theorem skips_loop (c : Context) (e : Expr) (line : Nat) (x : Eval Unit) {n m : Nat}
    (bounds : side.Bounds n m) : side.Skips (loop (goesOn c e line) x n) := by
  intro s hs known
  cases n with
  | zero =>
    cases side with
    | slot => exact absurd rfl known
    | direct => cases bounds
  | succ n => simp only [loop, goesOn_of_isSome c e line hs]

/-- The interpreter goes round once more to see that the call has returned. -/
theorem agree_loop {c d : Context} (hc : c.Framed) (h : side.SameCalls c d) (test : Expr)
    (line : Nat) {x : Eval Unit} {y : Direct Unit} (hx : side.Agree x y) {n m : Nat}
    (bounds : side.Bounds n m) :
    side.Agree (loop (goesOn c test line) x n)
      (Direct.loop (Direct.lift (condition d test line)) y m) := by
  induction m generalizing n with
  | zero =>
    intro s hs known
    cases side with
    | slot =>
      cases bounds
      exact absurd rfl known
    | direct => exact absurd rfl known
  | succ m ih =>
    obtain ⟨k, rfl, hk⟩ : ∃ k, n = k + 1 ∧ side.Bounds k m := by
      cases side with
      | slot => exact ⟨m, bounds, rfl⟩
      | direct => exact ⟨m + 1, bounds, rfl⟩
    have rounds : side.Agree
        (condition c test line >>= fun again =>
          if again then x >>= fun _ => loop (goesOn c test line) x k else Pure.pure ())
        (Direct.loop (Direct.lift (condition d test line)) y (m + 1)) := by
      refine Agree.lift (same_condition h test line)
        (.of_keepsFrame (keepsFrame_condition hc test line)) fun again => ?_
      cases again with
      | true => exact hx.bind (ih hk) (skips_loop c test line x hk)
      | false => exact Agree.pure
    intro s hs known
    rw [loop_succ, bind_run, goesOn_of_none c test line hs, ← bind_run] at known ⊢
    exact rounds s hs known

theorem skips_execAll (c : Context) (statements : List Statement) :
    side.Skips (execAll c statements) := by
  intro s hs _
  cases statements with
  | nil => rfl
  | cons statement rest => simp [execAll, hasReturned_bind, pure_run, hs]

theorem skips_unlessReturned (x : Eval Unit) :
    side.Skips (do if ← hasReturned then Pure.pure () else x) := by
  intro s hs _
  simp [hasReturned_bind, pure_run, hs]

theorem agree_unlessReturned {x : Eval Unit} {y : Direct Unit} (h : side.Agree x y) :
    side.Agree (do if ← hasReturned then Pure.pure () else x) y := by
  intro s hs known
  have hrun : (do if ← hasReturned then Pure.pure () else x : Eval Unit) s = x s := by
    simp [hasReturned_bind, hs]
  rw [hrun] at known ⊢
  exact h s hs known

theorem agree_ret {x y : Eval Value} (hx : side.Same x y) (quiet : KeepsReturned x) :
    side.Agree (do let value ← x; setReturned value)
      (do let value ← Direct.lift y; Direct.leave value) :=
  Agree.lift hx quiet fun value s _ _ => .left value { s with returned := some value } s rfl rfl rfl

structure Paired (side : Side) (c d : Context) : Prop where
  framed : c.Framed
  calls : side.SameCalls c d
  rounds : side.Bounds c.rounds d.rounds

theorem exec_call (c : Context) (callee : Expr) (arguments : List Expr)
    (target : Option FunctionId) (injected : Bool) (line : Nat) :
    Machine.exec c (.call callee arguments target injected line) =
      eval c (.call callee arguments target injected line) >>= fun _ => Pure.pure () := by
  cases target with
  | some target => simp only [Machine.exec, eval, bind_bind]
  | none => rfl

mutual

theorem agree_exec {c d : Context} (h : side.Paired c d) (statement : Statement) :
    side.Agree (exec c statement) (Direct.exec d statement) := by
  cases statement with
  | block statements line => exact (agree_execAll h statements).inScope
  | assign declares target written value line =>
    exact Agree.of_same (same_assign h.calls declares target value line)
      (.assign h.framed declares target value line)
  | ret value line =>
    exact agree_ret (same_eval h.calls value) (.of_keepsFrame (keepsFrame_eval h.framed value))
  | ifThen test body line =>
    refine Agree.lift (same_condition h.calls test line)
      (.of_keepsFrame (keepsFrame_condition h.framed test line)) fun holds => ?_
    cases holds with
    | true => exact (agree_exec h body).inScope
    | false => exact Agree.pure
  | ifElse test body otherwise line =>
    refine Agree.lift (same_condition h.calls test line)
      (.of_keepsFrame (keepsFrame_condition h.framed test line)) fun holds => ?_
    cases holds with
    | true => exact (agree_exec h body).inScope
    | false => exact (agree_exec h otherwise).inScope
  | whileLoop test body line =>
    exact agree_loop h.framed h.calls test line (agree_exec h body).inScope h.rounds
  | forLoop first test step body line =>
    refine Agree.inScope ((agree_exec h first).bind ?_ (skips_loop c test line _ h.rounds))
    refine agree_loop h.framed h.calls test line ?_ h.rounds
    exact (agree_exec h body).inScope.bind (agree_unlessReturned (agree_exec h step))
      (skips_unlessReturned _)
  | call callee arguments target injected line =>
    rw [exec_call]
    exact Agree.lift (same_eval h.calls _) (.of_keepsFrame (keepsFrame_eval h.framed _)) fun _ =>
      Agree.pure
termination_by structural statement

theorem agree_execAll {c d : Context} (h : side.Paired c d) (statements : List Statement) :
    side.Agree (execAll c statements) (Direct.execAll d statements) := by
  cases statements with
  | nil => exact Agree.pure
  | cons statement rest =>
    refine agree_unlessReturned ?_
    exact (agree_exec h statement).bind (agree_execAll h rest) (skips_execAll c rest)
termination_by structural statements

end

theorem same_inFrame {x : Eval Unit} {y : Direct Unit} (h : side.Agree x y)
    (bindings : List (String × Value)) :
    side.Same (Eval.inFrame bindings x) (Direct.inFrame bindings y) := by
  intro s known
  rw [inFrame_run] at known ⊢
  simp only [Direct.inFrame] at known ⊢
  have ends : EndsAlike
      (x { s with scopes := Scopes.empty.openSegment bindings, returned := none })
      (y { s with scopes := Scopes.empty.openSegment bindings, returned := none }) := by
    apply h _ rfl
    apply pick_mono known
    · intro h he
      exact h (by rw [he])
    · intro h he
      exact h (by rw [he])
  generalize x _ = o at ends
  generalize y _ = f at ends
  cases ends with
  | next u hu => simp [hu]
  | left v u w hu heap console => simp [hu, heap, console]
  | fault e u w heap console => simp [heap, console]

theorem same_callWithin (p : Program) {n m : Nat} (rounds : side.Bounds n m) {k l : Nat}
    (depths : side.Bounds k l) (id : FunctionId) (arguments : List Value) (line : Nat) :
    side.Same (callWithin p n k id arguments line) (Direct.callWithin p m l id arguments line) := by
  induction l generalizing k id arguments line with
  | zero =>
    intro s known
    cases side with
    | slot =>
      cases depths
      rfl
    | direct => exact absurd rfl known
  | succ l ih =>
    obtain ⟨j, rfl, hj⟩ : ∃ j, k = j + 1 ∧ side.Bounds j l := by
      cases side with
      | slot => exact ⟨l, depths, rfl⟩
      | direct => exact ⟨l + 1, depths, rfl⟩
    simp only [callWithin, Direct.callWithin]
    split
    · split
      · exact .refl _
      · have paired : side.Paired
            { program := p, call := callWithin p n j, rounds := n }
            { program := p, call := Direct.callWithin p m l, rounds := m } :=
          ⟨keepsFrame_callWithin p n j, ⟨rfl, ih hj⟩, rounds⟩
        exact same_inFrame (agree_execAll paired _) _
    · exact .refl _

theorem same_runBody (p : Program) {n m : Nat} (bounds : side.Bounds n m)
    (bindings : List (String × Value)) (body : List Statement) :
    side.Same (runBody p n bindings body) (Direct.runBody p m bindings body) := by
  have paired : side.Paired { program := p, call := call p n, rounds := n }
      { program := p, call := Direct.call p m, rounds := m } :=
    ⟨keepsFrame_callWithin p n n, ⟨rfl, same_callWithin p bounds bounds⟩, bounds⟩
  exact same_inFrame (agree_execAll paired _) _

/-- Evaluations that end alike for all bounds end alike. -/
theorem halts_iff {x y : Nat → Eval α}
    (h : ∀ (side : Side) (n m : Nat), side.Bounds n m → side.Same (x n) (y m)) (s : State)
    (o : Outcome α) : Halts x s o ↔ Halts y s o := by
  constructor
  · rintro ⟨ends, n, rfl⟩
    exact ⟨ends, n, (h .slot n n rfl s ends).symm⟩
  · rintro ⟨ends, m, rfl⟩
    exact ⟨ends, m + 1, h .direct (m + 1) m rfl s ends⟩

end Side

/-- A `ret` leaves the call that it stands in at once: every body of a function, begun with any
    bindings in any state, and every call ends with the same value or fault, heap and console. -/
theorem ret_leaves_call (p : Program) (s : State) (o : Outcome Value) :
    (∀ bindings body, Halts (fun bound => runBody p bound bindings body) s o ↔
      Halts (fun bound => Direct.runBody p bound bindings body) s o) ∧
    ∀ id arguments line, Halts (fun bound => call p bound id arguments line) s o ↔
      Halts (fun bound => Direct.call p bound id arguments line) s o := by
  constructor
  · intro bindings body
    exact Side.halts_iff (fun _ _ _ h => Side.same_runBody p h bindings body) s o
  · intro id arguments line
    exact Side.halts_iff (fun _ _ _ h => Side.same_callWithin p h h id arguments line) s o

end ObjectLang.Machine
