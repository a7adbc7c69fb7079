import ObjectLang.Proofs.Grammar.Statement
import ObjectLang.Proofs.Printing.Shape
set_option autoImplicit false

/-!
# Reading without errors gives shaped trees

Reading expressions and statements only adds types and never forgets an error. So where no error more
is recorded at the end, none was recorded on the way, and the tree has the shape of what is read.
-/

namespace ObjectLang

namespace Diagnostics

theorem errorCount_errorAt (d : Diagnostics) (line : Nat) (message : String) :
    (d.errorAt line message).errorCount = d.errorCount + 1 := by
  simp [errorAt, error, push, errorCount, isError]

theorem errorCount_warnAt (d : Diagnostics) (line : Nat) (message : String) :
    (d.warnAt line message).errorCount = d.errorCount := by
  unfold warnAt warn push
  dsimp only
  split
  · simp [errorCount, isError]
  · rfl

end Diagnostics

namespace Grammar

def State.errors (s : State) : Nat := s.diagnostics.errorCount

/-- No error was recorded between `s` and `t`. -/
def State.Quiet (s t : State) : Prop := t.errors = s.errors

structure Reads (earlier : List Module) (s t : State) : Prop where
  leads : Leads earlier s t
  broadens : Draft.Broadens s.draft t.draft
  counted : s.errors ≤ t.errors

variable {earlier : List Module} {s t u : State}

namespace Reads

theorem closed (h : Reads earlier s t) : t.draft.Closed earlier := h.leads.closed

theorem of_draft_eq (hs : s.draft.Closed earlier) (same : t.draft = s.draft)
    (counted : s.errors ≤ t.errors) : Reads earlier s t :=
  ⟨.of_draft_eq hs same, same ▸ .refl _, counted⟩

theorem refl (hs : s.draft.Closed earlier) : Reads earlier s s :=
  of_draft_eq hs rfl (Nat.le_refl _)

theorem trans (h : Reads earlier s t) (h' : Reads earlier t u) : Reads earlier s u :=
  ⟨h.leads.trans h'.leads, h.broadens.trans h'.broadens, h.counted.trans h'.counted⟩

theorem quiet_front (h : Reads earlier s t) (h' : Reads earlier t u) (quiet : s.Quiet u) :
    s.Quiet t :=
  Nat.le_antisymm (Nat.le_trans h'.counted (Nat.le_of_eq quiet)) h.counted

theorem quiet_behind (h : Reads earlier s t) (h' : Reads earlier t u) (quiet : s.Quiet u) :
    t.Quiet u :=
  quiet.trans (h.quiet_front h' quiet).symm

end Reads

/-- The step reads on from `s`, and `Q` holds of its value and state if it records no error. -/
def Step.Shapes {α : Type} {n : Nat} (earlier : List Module) (s : State) (Q : α → State → Prop) :
    Step α n → Prop
  | .ok value t _ => Reads earlier s t ∧ (s.Quiet t → Q value t)
  | .error _ t _ => Reads earlier s t

namespace Step.Shapes

variable {α β : Type} {n m : Nat} {Q : α → State → Prop} {R : β → State → Prop}

theorem builds {x : Step α n} (h : x.Shapes earlier s Q) : x.Builds earlier s fun _ _ => True := by
  cases x with
  | ok v t le => exact ⟨h.1.leads, trivial⟩
  | error e t le => exact Reads.leads h

theorem mono {x : Step α n} {Q' : α → State → Prop} (h : x.Shapes earlier s Q)
    (hQ : ∀ v t, Reads earlier s t → Q v t → Q' v t) : x.Shapes earlier s Q' := by
  cases x with
  | ok v t le => exact ⟨h.1, fun quiet => hQ v t h.1 (h.2 quiet)⟩
  | error e t le => exact h

theorem of_keeps {x : Step α n} (hs : s.draft.Closed earlier) (h : x.Keeps s)
    (counted : s.errors ≤ x.state.errors) : x.Shapes earlier s fun _ _ => True := by
  cases x with
  | ok v t le => exact ⟨.of_draft_eq hs h counted, fun _ => trivial⟩
  | error e t le => exact .of_draft_eq hs h counted

theorem pure (hs : s.draft.Closed earlier) {value : α} (h : Q value s) :
    (Step.pure value s).Shapes earlier s Q :=
  ⟨.refl hs, fun _ => h⟩

theorem fail (hs : s.draft.Closed earlier) (e : SyntaxError) :
    (Step.fail e s : Step α s.size).Shapes earlier s Q :=
  Reads.refl hs

theorem ofExcept (hs : s.draft.Closed earlier) {result : Except SyntaxError α}
    (h : ∀ v, result = .ok v → Q v s) : (Step.ofExcept result s).Shapes earlier s Q := by
  cases result with
  | ok v => exact .pure hs (h v rfl)
  | error e => exact .fail hs e

theorem widen {x : Step α n} (h : x.Shapes earlier s Q) (le : n ≤ m) :
    (x.widen le).Shapes earlier s Q := by
  cases x with
  | ok v t le => exact h
  | error e t le => exact h

theorem mapError {x : Step α n} (h : x.Shapes earlier s Q) (f : SyntaxError → SyntaxError) :
    (x.mapError f).Shapes earlier s Q := by
  cases x with
  | ok v t le => exact h
  | error e t le => exact h

theorem map {x : Step α n} (h : x.Shapes earlier s Q) {f : α → β}
    (hf : ∀ v t, Reads earlier s t → Q v t → R (f v) t) : (x.map f).Shapes earlier s R := by
  cases x with
  | ok v t le => exact ⟨h.1, fun quiet => hf v t h.1 (h.2 quiet)⟩
  | error e t le => exact h

/-- What is known of the first value without its errors helps to read on in any case. -/
theorem andThen_of_builds {x : Step α n} {B : α → Program → Prop} (h : x.Shapes earlier s Q)
    (hb : x.Builds earlier s B) {f : α → (t : State) → t.size ≤ n → Step β t.size}
    (hf : ∀ v t le, Reads earlier s t → B v t.program → (s.Quiet t → Q v t) →
      (f v t le).Shapes earlier t fun w u => s.Quiet t → R w u) :
    (x.andThen f).Shapes earlier s R := by
  cases x with
  | ok v t le =>
    have h' := hf v t le h.1 hb.2 h.2
    simp only [Step.andThen]
    cases hy : f v t le with
    | ok w u le' =>
      rw [hy] at h'
      refine ⟨h.1.trans h'.1, fun quiet => ?_⟩
      exact h'.2 (h.1.quiet_behind h'.1 quiet) (h.1.quiet_front h'.1 quiet)
    | error e u le' =>
      rw [hy] at h'
      exact h.1.trans h'
  | error e t le => exact h

theorem andThen {x : Step α n} (h : x.Shapes earlier s Q)
    {f : α → (t : State) → t.size ≤ n → Step β t.size}
    (hf : ∀ v t le, Reads earlier s t → (s.Quiet t → Q v t) →
      (f v t le).Shapes earlier t fun w u => s.Quiet t → R w u) :
    (x.andThen f).Shapes earlier s R :=
  h.andThen_of_builds h.builds fun v t le reads _ => hf v t le reads

theorem after_error {x : Step α n} (h : x.Shapes earlier t Q) (reads : Reads earlier s t)
    (loud : s.errors < t.errors) {Q' : α → State → Prop} : x.Shapes earlier s Q' := by
  cases x with
  | ok v u le =>
    refine ⟨reads.trans h.1, fun quiet => ?_⟩
    exact absurd (reads.quiet_front h.1 quiet) (Nat.ne_of_gt loud)
  | error e u le => exact reads.trans h

theorem after {x : Step α n} (h : x.Shapes earlier t Q) (reads : Reads earlier s t) :
    x.Shapes earlier s Q := by
  cases x with
  | ok v u le => exact ⟨reads.trans h.1, fun quiet => h.2 (reads.quiet_behind h.1 quiet)⟩
  | error e u le => exact reads.trans h

theorem after_quiet {x : Step α n} (h : x.Shapes earlier t fun v u => s.Quiet t → Q v u)
    (reads : Reads earlier s t) : x.Shapes earlier s Q := by
  cases x with
  | ok v u le =>
    refine ⟨reads.trans h.1, fun quiet => ?_⟩
    exact h.2 (reads.quiet_behind h.1 quiet) (reads.quiet_front h.1 quiet)
  | error e u le => exact reads.trans h

end Step.Shapes

theorem errors_of_take? {k : Taken s} (h : s.take? = some k) : k.behind.errors = s.errors := by
  unfold State.take? at h
  split at h
  · cases h
  · cases h
    rfl

theorem reads_of_take? (hs : s.draft.Closed earlier) {k : Taken s} (h : s.take? = some k) :
    Reads earlier s k.behind :=
  .of_draft_eq hs (draft_of_take? h) (Nat.le_of_eq (errors_of_take? h).symm)

theorem errors_expect (s : State) (kind : TokenKind) : (s.expect kind).state.errors = s.errors := by
  unfold State.expect State.next
  split
  · rfl
  · rename_i k taken
    change ((Step.ofExcept (Cursor.demand kind k.token) k.behind).widen k.le).state.errors = _
    rw [Step.state_widen]
    cases Cursor.demand kind k.token <;> exact errors_of_take? taken

theorem shapes_expect (hs : s.draft.Closed earlier) (kind : TokenKind) :
    (s.expect kind).Shapes earlier s fun _ _ => True :=
  .of_keeps hs (keeps_expect s kind) (Nat.le_of_eq (errors_expect s kind).symm)

theorem shapes_accept (hs : s.draft.Closed earlier) (kind : TokenKind) :
    (s.accept kind).Shapes earlier s fun found t =>
      (found = true → s.peek = some kind) ∧ (found = false → t.peek ≠ some kind) := by
  refine ⟨.of_draft_eq hs rfl (Nat.le_refl _), fun _ => ?_⟩
  unfold State.peek
  dsimp only
  unfold Cursor.advanceIf
  by_cases next : s.cursor.check kind = true
  · rw [if_pos next]
    exact ⟨fun _ => eq_of_beq next, nofun⟩
  · rw [if_neg next]
    exact ⟨nofun, fun _ same => next (beq_iff_eq.2 same)⟩

theorem shapes_semicolon (hs : s.draft.Closed earlier) (construct : String) :
    (s.semicolon construct).Shapes earlier s fun _ _ => True := by
  refine (shapes_accept hs .semicolon).andThen fun found t le h _ => ?_
  split
  · exact .pure h.closed fun _ => trivial
  · refine .mono (.of_keeps h.closed rfl ?_) fun _ _ _ _ _ => trivial
    exact Nat.le_trans (Nat.le_succ _) (Nat.le_of_eq (Diagnostics.errorCount_errorAt _ _ _).symm)

/-- Reading inside brackets comes back with the program and the errors of the inside. -/
theorem shapes_inside {α : Type} (P : α → Draft → Prop) (hs : s.draft.Closed earlier)
    (k : Taken s) (closing : TokenKind) (read : (t : State) → t.size ≤ k.behind.size → Step α t.size)
    (h : ∀ t le, t.draft = s.draft → (read t le).Shapes earlier t fun v u => P v u.draft) :
    (k.inside closing read).Shapes earlier s fun v t => P v t.draft := by
  unfold Taken.inside
  dsimp only
  split
  · exact Reads.of_draft_eq hs rfl (Nat.le_refl _)
  · rename_i inner hinner
    have inside := h (s.enter inner (s.cursor.cutInside k.token.kind closing).2)
      ((Cursor.size_cutInside k.tokens_eq closing).2 inner hinner) rfl
    split
    · rename_i value t le hx
      rw [hx] at inside
      exact ⟨⟨inside.1.leads.change rfl rfl, inside.1.broadens, inside.1.counted⟩, inside.2⟩
    · rename_i e t le hx
      rw [hx] at inside
      exact ⟨inside.leads.change rfl rfl, inside.broadens, inside.counted⟩

theorem shapes_skipAmpersands (line : Nat) (s : State) (hs : s.draft.Closed earlier) :
    (skipAmpersands line s).Shapes earlier s fun _ _ => True := by
  rw [skipAmpersands]
  split
  · exact .pure hs trivial
  · rename_i k hk
    split
    · have lt := k.lt
      have skipped : Reads earlier s { k.behind with
          diagnostics := k.behind.diagnostics.warnAt line "multiple references" } := by
        refine .of_draft_eq hs (draft_of_take? hk) (Nat.le_of_eq ?_)
        exact ((Diagnostics.errorCount_warnAt _ _ _).trans (errors_of_take? hk)).symm
      exact ((shapes_skipAmpersands line _ skipped.closed).after skipped).widen _
    · exact .pure hs trivial
termination_by s.size

theorem findType?_name {m : Module} {p : Program} {name : String} {type : TypeId}
    (found : m.findType? p name = some type) : m.findType? p (p.types.name type) = some type := by
  have same : (p.types.name type == name) = true :=
    List.find?_some (p := fun t => p.types.name t == name) found
  rw [eq_of_beq same, found]

theorem shapes_plainTypeName (hs : s.draft.Closed earlier) :
    (plainTypeName s).Shapes earlier s fun type t =>
      t.module.findType? t.program (t.program.types.name type) = some type := by
  refine (shapes_expect hs .identifier).andThen fun name t le h _ => ?_
  split
  · rename_i type found
    exact .pure h.closed fun _ => findType?_name found
  · exact .fail h.closed _

theorem reads_listOf (hs : s.draft.Closed earlier) {element : TypeId}
    (known : s.program.types.Knows element) (filled : element ≠ .void) :
    Reads earlier s (s.listOf element).2 where
  leads := .of_steps hs (.single (.listOf element known filled))
  broadens := ⟨Program.grows_listOf hs.program known filled, s.module.types_addType _⟩
  counted := Nat.le_refl _

theorem reads_arrayOf (hs : s.draft.Closed earlier) {element : TypeId}
    (known : s.program.types.Knows element) : Reads earlier s (s.arrayOf element).2 where
  leads := .of_steps hs (.single (.arrayOf element known))
  broadens := .of_program (Registry.grows_arrayOf _ _)
  counted := Nat.le_refl _

theorem reads_referenceTo (hs : s.draft.Closed earlier) {referent : TypeId}
    (known : s.program.types.Knows referent) : Reads earlier s (s.referenceTo referent).2 where
  leads := .of_steps hs (.single (.referenceTo referent known))
  broadens := .of_program (Registry.grows_referenceTo _ _)
  counted := Nat.le_refl _

theorem mem_types_listOf (s : State) (element : TypeId) :
    (s.listOf element).1 ∈ (s.listOf element).2.module.types :=
  s.module.mem_types_addType _

theorem shapes_typeName (s : State) (hs : s.draft.Closed earlier) :
    (typeName s).Shapes earlier s fun type t => t.draft.Spelled type := by
  rw [typeName]
  split
  · exact .fail hs _
  · rename_i k hk
    have lt := k.lt
    have front := reads_of_take? hs hk
    split
    · refine Step.Shapes.widen (.after ?_ front) _
      refine (shapes_typeName k.behind front.closed).andThen_of_builds
        (builds_typeName k.behind front.closed) fun element t le h known spelled => ?_
      refine (shapes_expect h.closed _).andThen fun _ u le' h' _ => ?_
      split
      · exact .fail h'.closed _
      · rename_i filled
        have known := h'.leads.extension.knows known
        have made := reads_listOf h'.closed known filled
        refine ⟨made, fun _ _ quiet => ?_⟩
        obtain ⟨tokens, spells⟩ := (h'.trans made).broadens.spelled h.closed (spelled quiet)
        exact ⟨_, .list filled (Program.findList?_listOf known) (mem_types_listOf u element) spells⟩
    · refine Step.Shapes.widen (.after ?_ front) _
      refine (shapes_typeName k.behind front.closed).andThen_of_builds
        (builds_typeName k.behind front.closed) fun element t le h known spelled => ?_
      refine (shapes_expect h.closed _).andThen fun _ u le' h' _ => ?_
      have known := h'.leads.extension.knows known
      have made := reads_arrayOf h'.closed known
      refine ⟨made, fun _ _ quiet => ?_⟩
      obtain ⟨tokens, spells⟩ := (h'.trans made).broadens.spelled h.closed (spelled quiet)
      exact ⟨_, .array (Registry.findArray?_arrayOf known) spells⟩
    · refine Step.Shapes.widen (.after ?_ front) _
      refine (shapes_skipAmpersands _ _ front.closed).andThen fun _ t le h _ => ?_
      refine (shapes_plainTypeName h.closed).andThen_of_builds (builds_plainTypeName h.closed)
        fun referent u le' h' known named => ?_
      have made := reads_referenceTo h'.closed known
      refine ⟨made, fun _ quiet _ => ?_⟩
      have named := made.broadens.findType?_eq h'.closed (named quiet)
      have same : (u.referenceTo referent).2.program.types.name referent =
        u.program.types.name referent := made.broadens.types.name_eq known
      rw [← same] at named
      exact ⟨_, .reference (Registry.findReference?_referenceTo known) named⟩
    · exact (shapes_plainTypeName hs).mono fun type t _ named => ⟨_, .name named⟩
termination_by s.size

theorem shaped_literal {t : Token} {value : Literal} (h : literal t = .ok value) :
    value.Shaped := by
  rintro word rfl
  rw [literal] at h
  generalize found : Word.ofInt? (Decimal.natOfDigits t.text.toList) = spelled at h
  cases spelled with
  | none => split at h <;> cases h
  | some value =>
    split at h <;> cases h
    rw [Word.toInt_ofInt? found]
    exact Int.natCast_nonneg _

theorem shapes_keepLiterals (hs : s.draft.Closed earlier) (items : List Expr) :
    (keepLiterals items s).Shapes earlier s fun kept _ =>
      kept = items ∧ ∀ item ∈ items, item.isLiteral = true := by
  have counted (faults : List Expr) (d : Diagnostics) :
      (faults.foldl (fun d e => d.errorAt e.line
        (SyntaxError.Cause.message .arrayInitializerNotLiteral)) d).errorCount =
        d.errorCount + faults.length := by
    induction faults generalizing d with
    | nil => rfl
    | cons e rest ih =>
      rw [List.foldl_cons, ih, Diagnostics.errorCount_errorAt, List.length_cons]
      omega
  have count := counted (items.filter fun e => !e.isLiteral) s.diagnostics
  refine ⟨.of_draft_eq hs rfl (Nat.le_trans (Nat.le_add_right _ _) (Nat.le_of_eq count.symm)),
    fun quiet => ?_⟩
  have none : (items.filter fun e => !e.isLiteral).length = 0 :=
    Nat.add_eq_left.1 (count.symm.trans quiet)
  have all : ∀ item ∈ items, item.isLiteral = true := by
    intro item mem
    by_contra fault
    have faulty : item ∈ items.filter fun e => !e.isLiteral := by
      rw [List.mem_filter, Bool.eq_false_iff.2 fault]
      exact ⟨mem, rfl⟩
    rw [List.length_eq_zero_iff.1 none] at faulty
    cases faulty
  exact ⟨List.filter_eq_self.2 all, all⟩

theorem shapes_arrayOfItems (line : Nat) (items : List Expr) (hs : s.draft.Closed earlier) :
    (arrayOfItems line items s).Shapes earlier s fun e t =>
      Expr.ShapedAll s.draft items → e.Shaped t.draft := by
  refine (shapes_keepLiterals hs items).andThen fun literals t le h kept => ?_
  split
  · exact .fail h.closed _
  · rename_i filled
    have known : t.program.types.Knows ((elementType? literals).getD .object) := by
      cases first : elementType? literals with
      | none => exact h.closed.program.knows_object
      | some element =>
        obtain ⟨value, rfl⟩ := elementType?_eq_literal first
        exact h.closed.program.knows_literal value
    refine ⟨reads_arrayOf h.closed known, fun _ quiet shaped => ?_⟩
    obtain ⟨rfl, all⟩ := kept quiet
    have first : ∃ element, elementType? literals = some element := by
      cases literals with
      | nil => exact absurd rfl filled
      | cons item rest =>
        have literal := all item List.mem_cons_self
        cases item with
        | literal value line => exact ⟨value.type, rfl⟩
        | _ => cases literal
    obtain ⟨element, first⟩ := first
    rw [first] at known ⊢
    exact ⟨.of_shaped all shaped first, _, Registry.findArray?_arrayOf known⟩

theorem shapes_listOfItems (line : Nat) (items : List Expr) (hs : s.draft.Closed earlier) :
    (listOfItems line items s).Shapes earlier s fun e t =>
      Expr.ShapedAll s.draft items → e.Shaped t.draft := by
  refine (shapes_keepLiterals hs items).andThen fun literals t le h kept => ?_
  split
  · exact .fail h.closed _
  · rename_i element first
    obtain ⟨value, rfl⟩ := elementType?_eq_literal first
    have known := h.closed.program.knows_literal value
    refine ⟨reads_listOf h.closed known value.type_ne_void, fun _ quiet shaped => ?_⟩
    obtain ⟨rfl, all⟩ := kept quiet
    exact .inr ⟨value.type, _, literals, .of_shaped all shaped first,
      Program.findList?_listOf known, mem_types_listOf t value.type, rfl⟩

theorem shapes_noneLeft (hs : s.draft.Closed earlier) :
    (noneLeft s).Shapes earlier s fun _ _ => True := by
  unfold noneLeft
  split
  · exact .pure hs trivial
  · rename_i k hk
    exact reads_of_take? hs hk

mutual

theorem shapes_expression (s : State) (hs : s.draft.Closed earlier) :
    (expression s).Shapes earlier s fun e t => e.Shaped t.draft := by
  rw [expression]
  refine (shapes_operand s hs).andThen fun lhs t le h hlhs => ?_
  split
  · exact .pure h.closed hlhs
  · rename_i k hk
    have lt := k.lt
    split
    · exact .pure h.closed hlhs
    · have front := reads_of_take? h.closed hk
      have hr := (shapes_expression k.behind front.closed).after front
      refine (hr.map fun rhs u h' hrhs quiet => ⟨?_, hrhs⟩).widen _
      exact lhs.shaped_mono h.closed h'.broadens (hlhs quiet)
termination_by 8 * s.size + 3

theorem shapes_operand (s : State) (hs : s.draft.Closed earlier) :
    (operand s).Shapes earlier s fun e t => e.Shaped t.draft := by
  rw [operand]
  refine (shapes_primary s hs).andThen fun e t le h he => ?_
  exact (shapes_suffixes true e t h.closed).mono fun x u _ hx quiet => (hx (he quiet)).1
termination_by 8 * s.size + 2

theorem shapes_primary (s : State) (hs : s.draft.Closed earlier) :
    (primary s).Shapes earlier s fun e t => e.Shaped t.draft := by
  rw [primary]
  split
  · exact .fail hs _
  · rename_i k hk
    have lt := k.lt
    have front := reads_of_take? hs hk
    have literalAt : ((Step.ofExcept ((literal k.token).map fun value =>
        Expr.literal value k.token.line) k.behind).widen k.le).Shapes earlier s
          fun e t => e.Shaped t.draft := by
      refine (Step.Shapes.after (.ofExcept front.closed fun e he => ?_) front).widen _
      cases hl : literal k.token with
      | error fault => rw [hl] at he; cases he
      | ok value =>
        rw [hl] at he
        cases he
        exact shaped_literal hl
    split
    · exact literalAt
    · exact literalAt
    · exact literalAt
    · exact literalAt
    · exact (Step.Shapes.after (.pure front.closed nofun) front).widen _
    · exact (Step.Shapes.after (.pure front.closed (rfl : none = none)) front).widen _
    · have inside := shapes_inside (fun es d => Expr.ShapedAll d es) hs k .bracketClose
        (fun t _ => separated t)
        fun t le ht => shapes_separated t (ht ▸ hs)
      refine ((inside.mapError _).andThen fun items t le h shaped => ?_).widen _
      exact (shapes_listOfItems _ items h.closed).mono fun e u _ he quiet => he (shaped quiet)
    · have inside := shapes_inside (fun es d => Expr.ShapedAll d es) hs k .greater
        (fun t _ => separated t)
        fun t le ht => shapes_separated t (ht ▸ hs)
      refine ((inside.mapError _).andThen fun items t le h shaped => ?_).widen _
      exact (shapes_arrayOfItems _ items h.closed).mono fun e u _ he quiet => he (shaped quiet)
    · refine (((shapes_expression k.behind front.closed).after front).map ?_).widen _
      exact fun e t _ he => he
    · have inside := shapes_inside (fun e d => e.Shaped d) hs k .parenClose (fun t _ => whole t)
        fun t le ht => shapes_whole t (ht ▸ hs)
      exact (inside.mapError _).widen _
    · refine (((shapes_operand k.behind front.closed).after front).map ?_).widen _
      exact fun e t _ he => ⟨he, nofun⟩
    · exact .fail hs _
    · exact .fail hs _
    · split
      · exact front
      · exact front
termination_by 8 * s.size + 1

theorem shapes_suffixes (casts : Bool) (e : Expr) (s : State) (hs : s.draft.Closed earlier) :
    (suffixes casts e s).Shapes earlier s fun x t => e.Shaped s.draft →
      x.Shaped t.draft ∧ (casts = false → e.isChain = true → x.isChain = true) := by
  rw [suffixes]
  split
  · exact .pure hs fun he => ⟨he, fun _ chain => chain⟩
  · rename_i k hk
    have lt := k.lt
    have front := reads_of_take? hs hk
    split
    · refine Step.Shapes.widen ?_ _
      refine ((shapes_expect front.closed _).after front).andThen fun name t le h _ => ?_
      refine (shapes_suffixes casts _ t h.closed).mono fun x u _ hx _ he => ?_
      exact hx ⟨e.shaped_mono hs h.broadens he, rfl⟩
    · split
      · rename_i called
        have inside := shapes_inside (fun es d => Expr.ShapedAll d es) hs k .parenClose
          (fun t _ => separated t)
          fun t le ht => shapes_separated t (ht ▸ hs)
        refine ((inside.mapError _).andThen fun arguments t le h shaped => ?_).widen _
        refine (shapes_suffixes casts _ t h.closed).mono fun x u _ hx quiet he => ?_
        exact hx (.inl ⟨e.shaped_mono hs h.broadens he, shaped quiet, called, rfl, rfl⟩)
      · exact .fail hs _
    · have inside := shapes_inside (fun e d => e.Shaped d) hs k .bracketClose (fun t _ => whole t)
        fun t le ht => shapes_whole t (ht ▸ hs)
      refine ((inside.mapError _).andThen fun index t le h shaped => ?_).widen _
      refine (shapes_suffixes casts _ t h.closed).mono fun x u _ hx quiet he => ?_
      exact hx ⟨e.shaped_mono hs h.broadens he, shaped quiet⟩
    · split
      · rename_i cast
        refine Step.Shapes.widen ?_ _
        refine ((shapes_typeName k.behind front.closed).after front).andThen
          fun type t le h spelled => ?_
        split
        · exact .fail h.closed _
        · rename_i filled
          refine (shapes_suffixes casts _ t h.closed).mono fun x u _ hx quiet he => ?_
          refine ⟨(hx ⟨e.shaped_mono hs h.broadens he, spelled quiet, filled⟩).1, fun none => ?_⟩
          rw [none] at cast
          cases cast
      · exact .pure hs fun he => ⟨he, fun _ chain => chain⟩
    · exact .pure hs fun he => ⟨he, fun _ chain => chain⟩
termination_by 8 * s.size

theorem shapes_whole (s : State) (hs : s.draft.Closed earlier) :
    (whole s).Shapes earlier s fun e t => e.Shaped t.draft := by
  rw [whole]
  refine (shapes_expression s hs).andThen fun e t le h he => ?_
  refine (shapes_noneLeft h.closed).map fun _ u h' _ quiet => ?_
  exact e.shaped_mono h.closed h'.broadens (he quiet)
termination_by 8 * s.size + 4

theorem shapes_separated (s : State) (hs : s.draft.Closed earlier) :
    (separated s).Shapes earlier s fun es t => Expr.ShapedAll t.draft es := by
  rw [separated]
  split
  · exact .pure hs trivial
  · refine (shapes_expression s hs).andThen fun e t le h he => ?_
    split
    · exact .pure h.closed fun quiet => ⟨he quiet, trivial⟩
    · rename_i k hk
      have lt := k.lt
      have front := reads_of_take? h.closed hk
      split
      · have behind := (shapes_separated k.behind front.closed).after front
        refine (behind.map fun rest u h' shaped quiet => ⟨?_, shaped⟩).widen _
        exact e.shaped_mono h.closed h'.broadens (he quiet)
      · exact front
termination_by 8 * s.size + 4

end

end Grammar
end ObjectLang
