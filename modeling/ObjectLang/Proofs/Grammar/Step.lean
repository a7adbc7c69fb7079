import ObjectLang.Grammar.TypeName
import ObjectLang.Proofs.Program.Reading
set_option autoImplicit false

/-!
# Reading builds drafts

A step of reading takes the draft of its state through steps of building, whether it ends with a
value or with an error. What holds of the value is said about the program behind the step.
-/

namespace ObjectLang.Grammar

def State.draft (s : State) : Draft := ⟨s.program, s.module⟩

structure Leads (earlier : List Module) (s t : State) : Prop where
  steps : Draft.Steps earlier s.draft t.draft
  closed : t.draft.Closed earlier
  extension : s.program.Extends t.program

namespace Leads

variable {earlier : List Module} {s t u : State}

theorem of_steps (hs : s.draft.Closed earlier) (h : Draft.Steps earlier s.draft t.draft) :
    Leads earlier s t :=
  ⟨h, (h.closed hs).1, (h.closed hs).2⟩

theorem of_draft_eq (hs : s.draft.Closed earlier) (h : t.draft = s.draft) : Leads earlier s t :=
  of_steps hs (h ▸ .refl)

theorem trans (h : Leads earlier s t) (h' : Leads earlier t u) : Leads earlier s u where
  steps := Relation.ReflTransGen.trans h.steps h'.steps
  closed := h'.closed
  extension := h.extension.trans h'.extension

theorem change (h : Leads earlier s t) {s' t' : State} (hs : s'.draft = s.draft)
    (ht : t'.draft = t.draft) : Leads earlier s' t' := by
  have hs' : s'.program = s.program := congrArg Draft.program hs
  have ht' : t'.program = t.program := congrArg Draft.program ht
  exact ⟨hs ▸ ht ▸ h.steps, ht ▸ h.closed, hs' ▸ ht' ▸ h.extension⟩

end Leads

/-- The step builds on the draft of `s`, and `Q` holds of its value and the program then. -/
def Step.Builds {α : Type} {n : Nat} (earlier : List Module) (s : State)
    (Q : α → Program → Prop) : Step α n → Prop
  | .ok value t _ => Leads earlier s t ∧ Q value t.program
  | .error _ t _ => Leads earlier s t

/-- The step only moves the cursor and reports. -/
def Step.Keeps {α : Type} {n : Nat} (s : State) (x : Step α n) : Prop := x.state.draft = s.draft

def Step.Gives {α : Type} {n : Nat} (s : State) (Q : α → Prop) : Step α n → Prop
  | .ok value t _ => t.draft = s.draft ∧ Q value
  | .error _ t _ => t.draft = s.draft

section Combinators

variable {earlier : List Module} {s t : State} {α β : Type} {n m : Nat}
  {Q : α → Program → Prop} {R : β → Program → Prop}

namespace Step.Builds

theorem mono {x : Step α n} {Q' : α → Program → Prop} (h : x.Builds earlier s Q)
    (hQ : ∀ v p, Q v p → Q' v p) : x.Builds earlier s Q' := by
  cases x with
  | ok v t le => exact ⟨h.1, hQ v _ h.2⟩
  | error e t le => exact h

theorem of_keeps {x : Step α n} (hs : s.draft.Closed earlier) (h : x.Keeps s) :
    x.Builds earlier s fun _ _ => True := by
  cases x with
  | ok v t le => exact ⟨.of_draft_eq hs h, trivial⟩
  | error e t le => exact .of_draft_eq hs h

theorem pure (hs : s.draft.Closed earlier) {value : α} (h : Q value s.program) :
    (Step.pure value s).Builds earlier s Q :=
  ⟨.of_draft_eq hs rfl, h⟩

theorem fail (hs : s.draft.Closed earlier) (e : SyntaxError) :
    (Step.fail e s : Step α s.size).Builds earlier s Q :=
  Leads.of_draft_eq hs rfl

theorem widen {x : Step α n} (h : x.Builds earlier s Q) (le : n ≤ m) :
    (x.widen le).Builds earlier s Q := by
  cases x with
  | ok v t le => exact h
  | error e t le => exact h

theorem map {x : Step α n} (h : x.Builds earlier s Q) {f : α → β}
    (hf : ∀ v t, Leads earlier s t → Q v t.program → R (f v) t.program) :
    (x.map f).Builds earlier s R := by
  cases x with
  | ok v t le => exact ⟨h.1, hf v t h.1 h.2⟩

  | error e t le => exact h

theorem mapError {x : Step α n} (h : x.Builds earlier s Q) (f : SyntaxError → SyntaxError) :
    (x.mapError f).Builds earlier s Q := by
  cases x with
  | ok v t le => exact h
  | error e t le => exact h

/-- The second step starts where the first ended, in a program that extends the first one. -/
theorem andThen {x : Step α n} (h : x.Builds earlier s Q)
    {f : α → (t : State) → t.size ≤ n → Step β t.size}
    (hf : ∀ v t le, Leads earlier s t → Q v t.program → (f v t le).Builds earlier t R) :
    (x.andThen f).Builds earlier s R := by
  cases x with
  | ok v t le =>
    have h' := hf v t le h.1 h.2
    simp only [Step.andThen]
    cases hy : f v t le with
    | ok w u le' =>
      rw [hy] at h'
      exact ⟨h.1.trans h'.1, h'.2⟩
    | error e u le' =>
      rw [hy] at h'
      exact h.1.trans h'
  | error e t le => exact h

theorem after {x : Step α n} (hx : x.Builds earlier t Q) (h : Leads earlier s t) :
    x.Builds earlier s Q := by
  cases x with
  | ok v u le => exact ⟨h.trans hx.1, hx.2⟩
  | error e u le => exact h.trans hx

theorem ite {c : Prop} [Decidable c] {x y : Step α n} (hx : c → x.Builds earlier s Q)
    (hy : ¬c → y.Builds earlier s Q) : (if c then x else y).Builds earlier s Q := by
  split
  · exact hx ‹_›
  · exact hy ‹_›

theorem start {x : Step α n} (h : x.Builds earlier t Q) (hd : t.draft = s.draft) :
    x.Builds earlier s Q := by
  cases x with
  | ok v u le => exact ⟨h.1.change hd.symm rfl, h.2⟩
  | error e u le => exact h.change hd.symm rfl

end Step.Builds

theorem draft_of_take? {k : Taken s} (h : s.take? = some k) : k.behind.draft = s.draft := by
  unfold State.take? at h
  split at h
  · cases h
  · cases h
    rfl

theorem closed_of_take? (hs : s.draft.Closed earlier) {k : Taken s} (h : s.take? = some k) :
    k.behind.draft.Closed earlier := by
  rw [draft_of_take? h]
  exact hs

theorem keeps_next (s : State) : s.next.Keeps s := by
  unfold State.next
  split
  · rfl
  · rename_i k h
    exact draft_of_take? h

theorem keeps_ofExcept (result : Except SyntaxError α) (s : State) :
    (Step.ofExcept result s).Keeps s := by
  cases result with
  | ok v => rfl
  | error e => rfl

theorem Step.Keeps.andThen {x : Step α n} (h : x.Keeps s)
    {f : α → (t : State) → t.size ≤ n → Step β t.size} (hf : ∀ v t le, (f v t le).Keeps t) :
    (x.andThen f).Keeps s := by
  cases x with
  | ok v t le =>
    simp only [Step.andThen, Step.Keeps, Step.state_widen]
    exact (hf v t le).trans h
  | error e t le => exact h

theorem Step.Keeps.gives {x : Step α n} (h : x.Keeps s) {Q : β → Prop}
    {f : α → (t : State) → t.size ≤ n → Step β t.size}
    (hf : ∀ v t le, t.draft = s.draft → (f v t le).Gives t Q) : (x.andThen f).Gives s Q := by
  cases x with
  | ok v t le =>
    have hd : t.draft = s.draft := h
    have h' := hf v t le hd
    simp only [Step.andThen]
    cases hy : f v t le with
    | ok w u le' =>
      rw [hy] at h'
      exact ⟨h'.1.trans hd, h'.2⟩
    | error e u le' =>
      rw [hy] at h'
      exact Eq.trans h' hd
  | error e t le => exact h

theorem Step.Gives.builds {x : Step α n} {Q : α → Prop} (hs : s.draft.Closed earlier)
    (h : x.Gives s Q) : x.Builds earlier s fun v _ => Q v := by
  cases x with
  | ok v t le => exact ⟨.of_draft_eq hs h.1, h.2⟩
  | error e t le => exact Leads.of_draft_eq hs h

theorem keeps_expect (s : State) (kind : TokenKind) : (s.expect kind).Keeps s :=
  (keeps_next s).andThen fun _ t _ => keeps_ofExcept _ t

theorem builds_expect (hs : s.draft.Closed earlier) (kind : TokenKind) :
    (s.expect kind).Builds earlier s fun _ _ => True :=
  .of_keeps hs (keeps_expect s kind)

theorem builds_accept (hs : s.draft.Closed earlier) (kind : TokenKind) :
    (s.accept kind).Builds earlier s fun _ _ => True :=
  .of_keeps hs rfl

theorem builds_semicolon (hs : s.draft.Closed earlier) (construct : String) :
    (s.semicolon construct).Builds earlier s fun _ _ => True := by
  refine (builds_accept hs .semicolon).andThen fun found t le h _ => ?_
  split
  · exact .pure h.closed trivial
  · exact ⟨.of_draft_eq h.closed rfl, trivial⟩

theorem builds_inside (hs : s.draft.Closed earlier) (k : Taken s) (closing : TokenKind)
    (read : (t : State) → t.size ≤ k.behind.size → Step α t.size)
    (h : ∀ t le, t.draft = s.draft → (read t le).Builds earlier t Q) :
    (k.inside closing read).Builds earlier s Q := by
  unfold Taken.inside
  dsimp only
  split
  · exact Leads.of_draft_eq hs rfl
  · rename_i inner hinner
    have hread := h (s.enter inner (s.cursor.cutInside k.token.kind closing).2)
      ((Cursor.size_cutInside k.tokens_eq closing).2 inner hinner) rfl
    split
    · rename_i value t le hx
      rw [hx] at hread
      exact ⟨hread.1.change rfl rfl, hread.2⟩
    · rename_i e t le hx
      rw [hx] at hread
      exact Leads.change hread rfl rfl

theorem builds_bracketed (hs : s.draft.Closed earlier) (opening closing : TokenKind)
    (read : (t : State) → t.size < s.size → Step α t.size)
    (h : ∀ t lt, t.draft = s.draft → (read t lt).Builds earlier t Q) :
    (s.bracketed opening closing read).Builds earlier s Q := by
  unfold State.bracketed
  split
  · exact .fail hs _
  · rename_i k hk
    split
    · exact (builds_inside hs k closing _ fun t le hd => h t _ hd).widen _
    · exact .fail hs _

end Combinators

section TypeNames

variable {earlier : List Module}

theorem knows_of_findType? {s : State} (hs : s.draft.Closed earlier) {name : String}
    {type : TypeId} (h : s.module.findType? s.program name = some type) :
    s.program.types.Knows type :=
  hs.module.types type (List.mem_of_find?_eq_some h)

theorem builds_plainTypeName {s : State} (hs : s.draft.Closed earlier) :
    (plainTypeName s).Builds earlier s fun type p => p.types.Knows type := by
  refine (builds_expect hs .identifier).andThen fun name t le h _ => ?_
  split
  · rename_i type hfound
    exact .pure h.closed (knows_of_findType? h.closed hfound)
  · exact .fail h.closed _

theorem builds_skipAmpersands (line : Nat) (s : State) (hs : s.draft.Closed earlier) :
    (skipAmpersands line s).Builds earlier s fun _ _ => True := by
  rw [skipAmpersands]
  split
  · exact .pure hs trivial
  · rename_i k hk
    split
    · have lt := k.lt
      have hd : State.draft { k.behind with
          diagnostics := k.behind.diagnostics.warnAt line "multiple references" } = s.draft :=
        draft_of_take? hk
      refine Step.Builds.widen ?_ _
      exact (builds_skipAmpersands line _ (hd ▸ hs)).start hd
    · exact .pure hs trivial
termination_by s.size

theorem builds_typeName (s : State) (hs : s.draft.Closed earlier) :
    (typeName s).Builds earlier s fun type p => p.types.Knows type := by
  rw [typeName]
  split
  · exact .fail hs _
  · rename_i k hk
    have lt := k.lt
    have hk' := closed_of_take? hs hk
    have hd := draft_of_take? hk
    split
    · refine Step.Builds.start (Step.Builds.widen ?_ _) hd
      refine (builds_typeName k.behind hk').andThen fun element t le h known => ?_
      refine (builds_expect h.closed _).andThen fun _ u le' h' _ => ?_
      split
      · exact .fail h'.closed _
      · rename_i filled
        have known' := h'.extension.knows known
        have step : Draft.Steps earlier u.draft (u.listOf element).2.draft :=
          .single (.listOf element known' filled)
        refine ⟨.of_steps h'.closed step, ?_⟩
        exact Program.knows_of_isObject (h'.closed.program.listOf known' filled).2.2
    · refine Step.Builds.start (Step.Builds.widen ?_ _) hd
      refine (builds_typeName k.behind hk').andThen fun element t le h known => ?_
      refine (builds_expect h.closed _).andThen fun _ u le' h' _ => ?_
      have known' := h'.extension.knows known
      have step : Draft.Steps earlier u.draft (u.arrayOf element).2.draft :=
        .single (.arrayOf element known')
      exact ⟨.of_steps h'.closed step, Program.knows_arrayOf known'⟩
    · refine Step.Builds.start (Step.Builds.widen ?_ _) hd
      refine (builds_skipAmpersands _ _ hk').andThen fun _ t le h _ => ?_
      refine (builds_plainTypeName h.closed).andThen fun referent u le' h' known => ?_
      have step : Draft.Steps earlier u.draft (u.referenceTo referent).2.draft :=
        .single (.referenceTo referent known)
      exact ⟨.of_steps h'.closed step, Program.knows_referenceTo known⟩
    · exact builds_plainTypeName hs
termination_by s.size

end TypeNames

end ObjectLang.Grammar
