import ObjectLang.Proofs.Printing.Token
set_option autoImplicit false

/-!
# Steps that mirror each other

A function of the grammar may be run in two states that differ in a fixed way. One run mirrors the other
if both come to the same value or error, in states that differ in that way again. Mirrored steps
compose, whatever the difference is.
-/

namespace ObjectLang.Grammar

variable {α β : Type} {n m n' m' : Nat}

/-- Both steps come to the same, and `change` takes the state behind the first to that behind the
    second. -/
def Step.Mirrors (change : State → State) (x : Step α n) (y : Step α m) : Prop :=
  y.outcome = (x.result, change x.state)

namespace Step.Mirrors

variable {change : State → State} {x : Step α n} {y : Step α m}

theorem of_outcome {result : Except SyntaxError α} {t : State} (hx : x.outcome = (result, t))
    (hy : y.outcome = (result, change t)) : x.Mirrors change y := by
  obtain ⟨rfl, rfl⟩ := Prod.mk.inj hx
  exact hy

theorem outcome (h : x.Mirrors change y) {result : Except SyntaxError α} {t : State}
    (hx : x.outcome = (result, t)) : y.outcome = (result, change t) := by
  obtain ⟨rfl, rfl⟩ := Prod.mk.inj hx
  exact h

theorem eq_ok {v : α} {t : State} {le : t.size ≤ n} (h : (Step.ok v t le).Mirrors change y) :
    ∃ le, y = .ok v (change t) le :=
  Step.eq_ok h

theorem eq_error {e : SyntaxError} {t : State} {le : t.size ≤ n}
    (h : (Step.error e t le : Step α n).Mirrors change y) : ∃ le, y = .error e (change t) le := by
  cases y <;> cases h
  exact ⟨_, rfl⟩

theorem pure (value : α) {s t : State} (same : t = change s) :
    (Step.pure value s).Mirrors change (Step.pure value t) :=
  congrArg (Prod.mk (Except.ok value)) same

theorem fail (e : SyntaxError) {s t : State} (same : t = change s) :
    (Step.fail e s : Step α s.size).Mirrors change (Step.fail e t : Step α t.size) :=
  congrArg (Prod.mk (Except.error e)) same

theorem ofExcept (result : Except SyntaxError α) {s t : State} (same : t = change s) :
    (Step.ofExcept result s).Mirrors change (Step.ofExcept result t) := by
  cases result with
  | ok value => exact pure value same
  | error e => exact fail e same

theorem ofPair {x y : α × State} (hx : x.2.size = n) (hy : y.2.size = m)
    (same : y = (x.1, change x.2)) :
    (Step.ofPair x hx).Mirrors change (Step.ofPair y hy) := by
  subst same
  rfl

theorem widen (h : x.Mirrors change y) (le : n ≤ n') (le' : m ≤ m') :
    (x.widen le).Mirrors change (y.widen le') := by
  unfold Mirrors
  rw [outcome_widen, result_widen, state_widen]
  exact h

theorem map (h : x.Mirrors change y) (f : α → β) : (x.map f).Mirrors change (y.map f) := by
  cases x <;> cases y <;> cases h <;> rfl

theorem mapError (h : x.Mirrors change y) (f : SyntaxError → SyntaxError) :
    (x.mapError f).Mirrors change (y.mapError f) := by
  cases x <;> cases y <;> cases h <;> rfl

theorem andThen (h : x.Mirrors change y) {f : α → (t : State) → t.size ≤ n → Step β t.size}
    {g : α → (t : State) → t.size ≤ m → Step β t.size}
    (hf : ∀ v t le le', (f v t le).Mirrors change (g v (change t) le')) :
    (x.andThen f).Mirrors change (y.andThen g) := by
  cases x with
  | ok v t le =>
    obtain ⟨le', rfl⟩ := h.eq_ok
    exact (hf v t le le').widen le le'
  | error e t le =>
    obtain ⟨le', rfl⟩ := h.eq_error
    rfl

theorem ite {c : Prop} [Decidable c] {x' : Step α n} {y' : Step α m}
    (h : c → x.Mirrors change y) (h' : ¬c → x'.Mirrors change y') :
    (if c then x else x').Mirrors change (if c then y else y') := by
  split
  · exact h ‹_›
  · exact h' ‹_›

end Step.Mirrors

section Brackets

variable {s : State} (k : Taken s) (close : TokenKind)
  (read : (t : State) → t.size ≤ k.behind.size → Step α t.size)

theorem inside_unclosed {e : SyntaxError}
    (cut : (s.cursor.cutInside k.token.kind close).1 = .error e) :
    (k.inside close read).outcome =
      (.error e, { s with cursor := (s.cursor.cutInside k.token.kind close).2 }) := by
  unfold Taken.inside
  dsimp only
  split <;> rename_i found <;> cases cut.symm.trans found
  rfl

/-- Reading goes on behind the brackets, with what was read inside them. -/
theorem inside_closed {inner : Cursor}
    (cut : (s.cursor.cutInside k.token.kind close).1 = .ok inner) :
    let behind := (s.cursor.cutInside k.token.kind close).2
    let x := read (s.enter inner behind) ((Cursor.size_cutInside k.tokens_eq close).2 inner cut)
    (k.inside close read).outcome = (x.result, x.state.leave s behind) := by
  unfold Taken.inside
  dsimp only
  split <;> rename_i found <;> cases cut.symm.trans found
  split <;> rename_i ended <;> rw [ended] <;> rfl

end Brackets

end ObjectLang.Grammar
