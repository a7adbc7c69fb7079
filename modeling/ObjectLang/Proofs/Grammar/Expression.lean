import ObjectLang.Grammar.Statement
import ObjectLang.Proofs.Grammar.Step
set_option autoImplicit false

/-!
# Expressions and statements build drafts

What the grammar reads as an expression or a statement is formed in the program behind it. Both
parts follow the recursion of the grammar, on the number of tokens that are left.
-/

namespace ObjectLang

theorem Literal.type_ne_void (value : Literal) : value.type ≠ .void := by
  cases value <;> exact nofun

namespace Grammar

variable {earlier : List Module}

theorem Step.Builds.ofExcept {α : Type} {s : State} (hs : s.draft.Closed earlier)
    {result : Except SyntaxError α} {Q : α → Program → Prop}
    (h : ∀ v, result = .ok v → Q v s.program) : (Step.ofExcept result s).Builds earlier s Q := by
  cases result with
  | ok v => exact .pure hs (h v rfl)
  | error e => exact .fail hs e

theorem builds_noneLeft {s : State} (hs : s.draft.Closed earlier) :
    (noneLeft s).Builds earlier s fun _ _ => True := by
  unfold noneLeft
  split
  · exact .pure hs trivial
  · rename_i k hk
    exact Leads.of_draft_eq hs (draft_of_take? hk)

theorem builds_keepLiterals {s : State} (hs : s.draft.Closed earlier) (items : List Expr) :
    (keepLiterals items s).Builds earlier s fun kept _ => ∀ e ∈ kept, e.isLiteral = true :=
  ⟨.of_draft_eq hs rfl, fun _ he => (List.mem_filter.1 he).2⟩

theorem elementType?_eq_literal {items : List Expr} {element : TypeId}
    (h : elementType? items = some element) : ∃ value : Literal, value.type = element := by
  unfold elementType? at h
  split at h
  · rename_i value line rest
    exact ⟨value, Option.some.inj h⟩
  · cases h

theorem builds_arrayOfItems (line : Nat) (items : List Expr) {s : State}
    (hs : s.draft.Closed earlier) :
    (arrayOfItems line items s).Builds earlier s fun e p => e.Formed p := by
  refine (builds_keepLiterals hs items).andThen fun literals t le h hliterals => ?_
  split
  · exact .fail h.closed _
  · have known : t.program.types.Knows ((elementType? literals).getD .object) := by
      cases helement : elementType? literals with
      | none => exact h.closed.program.knows_object
      | some element =>
        obtain ⟨value, rfl⟩ := elementType?_eq_literal helement
        exact h.closed.program.knows_literal value
    have step : Draft.Steps earlier t.draft
        (t.arrayOf ((elementType? literals).getD .object)).2.draft := .single (.arrayOf _ known)
    have leads := Leads.of_steps h.closed step
    exact ⟨leads, leads.extension.knows known, hliterals⟩

theorem builds_listOfItems (line : Nat) (items : List Expr) {s : State}
    (hs : s.draft.Closed earlier) :
    (listOfItems line items s).Builds earlier s fun e p => e.Formed p := by
  refine (builds_keepLiterals hs items).andThen fun literals t le h hliterals => ?_
  split
  · exact .fail h.closed _
  · rename_i element helement
    obtain ⟨value, rfl⟩ := elementType?_eq_literal helement
    have known := h.closed.program.knows_literal value
    have step : Draft.Steps earlier t.draft (t.listOf value.type).2.draft :=
      .single (.listOf _ known value.type_ne_void)
    have leads := Leads.of_steps h.closed step
    refine ⟨leads, trivial, ⟨⟨leads.extension.knows known, hliterals⟩, trivial, trivial⟩, ?_, rfl⟩
    intro f hf
    obtain ⟨kind, declared⟩ := leads.closed.lists.constructor_listOf known hf
    exact ⟨declared, kind, _, _, _, _, rfl⟩

mutual

theorem builds_expression (s : State) (hs : s.draft.Closed earlier) :
    (expression s).Builds earlier s fun e p => e.Formed p := by
  rw [expression]
  refine (builds_operand s hs).andThen fun lhs t le h hlhs => ?_
  split
  · exact .pure h.closed hlhs
  · rename_i k hk
    have lt := k.lt
    split
    · exact .pure h.closed hlhs
    · have hr := builds_expression k.behind (closed_of_take? h.closed hk)
      refine ((hr.start (draft_of_take? hk)).map fun rhs u h' hrhs => ?_).widen _
      exact ⟨lhs.formed_mono h'.extension hlhs, hrhs⟩
termination_by 8 * s.size + 3

theorem builds_operand (s : State) (hs : s.draft.Closed earlier) :
    (operand s).Builds earlier s fun e p => e.Formed p := by
  rw [operand]
  exact (builds_primary s hs).andThen fun e t le h he => builds_suffixes true e t h.closed he
termination_by 8 * s.size + 2

theorem builds_primary (s : State) (hs : s.draft.Closed earlier) :
    (primary s).Builds earlier s fun e p => e.Formed p := by
  rw [primary]
  split
  · exact .fail hs _
  · rename_i k hk
    have lt := k.lt
    have hd := draft_of_take? hk
    have hk' := closed_of_take? hs hk
    have literalAt : ((Step.ofExcept ((literal k.token).map fun value =>
        Expr.literal value k.token.line) k.behind).widen k.le).Builds earlier s
          fun e p => e.Formed p := by
      refine (Step.Builds.start (.ofExcept hk' fun e he => ?_) hd).widen _
      cases hl : literal k.token with
      | error fault => rw [hl] at he; cases he
      | ok value =>
        rw [hl] at he
        cases he
        trivial
    split
    · exact literalAt
    · exact literalAt
    · exact literalAt
    · exact literalAt
    · exact (Step.Builds.start (.pure hk' trivial) hd).widen _
    · exact (Step.Builds.start (.pure hk' trivial) hd).widen _
    · have inside := builds_inside hs k .bracketClose (fun t _ => separated t)
        fun t le ht => builds_separated t (ht ▸ hs)
      refine ((inside.mapError _).andThen fun items t le h _ => ?_).widen _
      exact builds_listOfItems _ items h.closed
    · have inside := builds_inside hs k .greater (fun t _ => separated t)
        fun t le ht => builds_separated t (ht ▸ hs)
      refine ((inside.mapError _).andThen fun items t le h _ => ?_).widen _
      exact builds_arrayOfItems _ items h.closed
    · refine (((builds_expression k.behind hk').start hd).map fun e t h he => ?_).widen _
      exact he
    · have inside := builds_inside hs k .parenClose (fun t _ => whole t)
        fun t le ht => builds_whole t (ht ▸ hs)
      exact (inside.mapError _).widen _
    · refine (((builds_operand k.behind hk').start hd).map fun e t h he => ?_).widen _
      exact ⟨he, trivial⟩
    · exact .fail hs _
    · exact .fail hs _
    · split
      · exact Leads.of_draft_eq hs hd
      · exact Leads.of_draft_eq hs hd
termination_by 8 * s.size + 1

theorem builds_suffixes (casts : Bool) (e : Expr) (s : State) (hs : s.draft.Closed earlier)
    (he : e.Formed s.program) : (suffixes casts e s).Builds earlier s fun e p => e.Formed p := by
  rw [suffixes]
  split
  · exact .pure hs he
  · rename_i k hk
    have lt := k.lt
    have hd := draft_of_take? hk
    have hk' := closed_of_take? hs hk
    split
    · refine Step.Builds.widen ?_ _
      refine ((builds_expect hk' _).start hd).andThen fun name t le h _ => ?_
      exact builds_suffixes casts _ t h.closed (e.formed_mono h.extension he)
    · split
      · have inside := builds_inside hs k .parenClose (fun t _ => separated t)
          fun t le ht => builds_separated t (ht ▸ hs)
        refine ((inside.mapError _).andThen fun arguments t le h harguments => ?_).widen _
        refine builds_suffixes casts _ t h.closed ⟨e.formed_mono h.extension he, ?_, nofun, rfl⟩
        exact harguments
      · exact .fail hs _
    · have inside := builds_inside hs k .bracketClose (fun t _ => whole t)
        fun t le ht => builds_whole t (ht ▸ hs)
      refine ((inside.mapError _).andThen fun index t le h hindex => ?_).widen _
      exact builds_suffixes casts _ t h.closed ⟨e.formed_mono h.extension he, hindex⟩
    · split
      · refine Step.Builds.widen ?_ _
        refine ((builds_typeName k.behind hk').start hd).andThen fun type t le h htype => ?_
        split
        · exact .fail h.closed _
        · exact builds_suffixes casts _ t h.closed ⟨e.formed_mono h.extension he, htype⟩
      · exact .pure hs he
    · exact .pure hs he
termination_by 8 * s.size

theorem builds_whole (s : State) (hs : s.draft.Closed earlier) :
    (whole s).Builds earlier s fun e p => e.Formed p := by
  rw [whole]
  refine (builds_expression s hs).andThen fun e t le h he => ?_
  refine (builds_noneLeft h.closed).map fun _ u h' _ => ?_
  exact e.formed_mono h'.extension he
termination_by 8 * s.size + 4

theorem builds_separated (s : State) (hs : s.draft.Closed earlier) :
    (separated s).Builds earlier s fun es p => Expr.FormedAll p es := by
  rw [separated]
  split
  · exact .pure hs trivial
  · refine (builds_expression s hs).andThen fun e t le h he => ?_
    split
    · exact .pure h.closed ⟨he, trivial⟩
    · rename_i k hk
      have lt := k.lt
      have hd := draft_of_take? hk
      split
      · refine Step.Builds.widen ?_ _
        refine ((builds_separated k.behind (closed_of_take? h.closed hk)).start hd).map ?_
        exact fun rest u h' hrest => ⟨e.formed_mono h'.extension he, hrest⟩
      · exact Leads.of_draft_eq h.closed hd
termination_by 8 * s.size + 4

end

end Grammar
end ObjectLang
