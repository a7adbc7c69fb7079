import ObjectLang.Proofs.Printing.Reading
set_option autoImplicit false

/-!
# Statements that are read without errors

What is read as a statement without an error has the shape of a statement. One that ends with an `if`
takes an `else` that follows, so behind it there is none.
-/

namespace ObjectLang.Grammar

variable {earlier : List Module} {s : State}

theorem shapes_assignmentRest (declares : Bool) (target : Expr) (hs : s.draft.Closed earlier) :
    (assignmentRest declares target s).Shapes earlier s fun statement t =>
      ∃ written value, statement = .assign declares target written value target.line ∧
        (∀ type ∈ written, t.draft.Spelled type) ∧ value.Shaped t.draft ∧
        Draft.Broadens s.draft t.draft ∧ (s.peek ≠ some .colon → written = none) := by
  refine (shapes_accept hs .colon).andThen fun typed t le h colon => ?_
  have written : (if typed then (typeName t).map some else Step.pure none t).Shapes earlier t
      fun written u => (∀ type ∈ written, u.draft.Spelled type) ∧
        (typed = false → written = none) := by
    split
    · rename_i typed
      refine (shapes_typeName t h.closed).map fun type u h' spelled => ?_
      refine ⟨?_, fun none => absurd typed (Bool.eq_false_iff.1 none)⟩
      rintro _ ⟨⟩
      exact spelled
    · exact .pure h.closed ⟨nofun, fun _ => rfl⟩
  refine written.andThen fun written u le' h' hwritten => ?_
  refine (shapes_expect h'.closed .equals).andThen fun _ v le'' h'' _ => ?_
  refine (shapes_expression v h''.closed).map fun value w h''' hvalue _ quiet' quiet => ?_
  obtain ⟨spelled, untyped⟩ := hwritten quiet'
  have behind := h''.trans h'''
  refine ⟨written, value, rfl, fun type mem => behind.broadens.spelled h'.closed (spelled type mem),
    hvalue, ((h.trans h').trans behind).broadens, fun other => untyped ?_⟩
  exact Bool.eq_false_iff.2 fun typed => other ((colon quiet).1 typed)

theorem shapes_condition (hs : s.draft.Closed earlier) :
    (condition s).Shapes earlier s fun e t => e.Shaped t.draft := by
  refine (shapes_expression s hs).andThen fun e t le h he => ?_
  refine (shapes_expect h.closed .colon).map fun _ u h' _ quiet => ?_
  exact e.shaped_mono h.closed h'.broadens (he quiet)

theorem shapes_chain (name : Token) (hs : s.draft.Closed earlier) :
    (suffixes false (.var name.text none name.line) s).Shapes earlier s fun e t =>
      e.Shaped t.draft ∧ e.isChain = true :=
  (shapes_suffixes false _ s hs).mono fun _ _ _ h => ⟨(h rfl).1, (h rfl).2 rfl rfl⟩

theorem shapes_assignmentOrCall (name : Token) (hs : s.draft.Closed earlier) :
    (assignmentOrCall name s).Shapes earlier s fun statement t =>
      statement.Shaped t.draft ∧ statement.endsOpen = false := by
  refine (shapes_chain name hs).andThen fun target t le h chain => ?_
  split
  · rename_i equals
    split
    · rename_i place
      refine (shapes_assignmentRest false target h.closed).andThen fun statement u le' h' read => ?_
      refine (shapes_semicolon h'.closed _).map fun _ v h'' _ quiet' quiet => ?_
      obtain ⟨written, value, rfl, spelled, shaped, broadens, untyped⟩ := read quiet'
      have untyped : written = none := untyped fun colon => by
        have same : t.peek = some .equals := beq_iff_eq.1 equals
        cases same.symm.trans colon
      have assigned : Statement.Assigned u.draft false target written value target.line :=
        ⟨target.shaped_mono h.closed broadens (chain quiet).1, (chain quiet).2, place, nofun, spelled,
          shaped, rfl⟩
      exact ⟨⟨assigned.mono h'.closed h''.broadens, fun _ => untyped⟩, rfl⟩
    · exact .fail h.closed _
  · split
    · refine (shapes_semicolon h.closed _).map fun _ u h' _ quiet => ?_
      exact ⟨⟨Expr.shaped_mono h.closed h'.broadens _ (chain quiet).1, (chain quiet).2⟩, rfl⟩
    · exact .fail h.closed _

theorem shapes_loopStep (hs : s.draft.Closed earlier) :
    (loopStep s).Shapes earlier s fun step t => step.ShapedStep t.draft := by
  refine (shapes_expect hs .identifier).andThen fun name t le h _ => ?_
  refine (shapes_chain name h.closed).andThen fun target u le' h' chain => ?_
  split
  · rename_i place
    refine (shapes_assignmentRest false target h'.closed).andThen fun step v le'' h'' read => ?_
    refine (shapes_expect h''.closed .colon).map fun _ w ended _ quiet' quiet _ => ?_
    obtain ⟨written, value, rfl, spelled, shaped, broadens, -⟩ := read quiet'
    have assigned : Statement.Assigned v.draft false target written value target.line :=
      ⟨target.shaped_mono h'.closed broadens (chain quiet).1, (chain quiet).2, place, nofun, spelled,
        shaped, rfl⟩
    exact ⟨rfl, assigned.mono h''.closed ended.broadens⟩
  · exact .fail h'.closed _

theorem reads_rejected (s : State) (hs : s.draft.Closed earlier) :
    Reads earlier s (rejected s).state := by
  rw [rejected]
  split
  · exact .refl hs
  · rename_i k hk
    have lt := k.lt
    have front := reads_of_take? hs hk
    split
    · exact .refl hs
    · split
      · rw [Step.state_widen]
        exact front
      · rw [Step.state_widen, Step.state_map]
        exact front.trans (reads_rejected k.behind front.closed)
termination_by s.size

theorem shapes_invalidStatement (hs : s.draft.Closed earlier) {k : Taken s}
    (hk : s.take? = some k) {Q : Statement → State → Prop} :
    (invalidStatement k).Shapes earlier s Q := by
  have front := reads_of_take? hs hk
  have behind := front.trans (reads_rejected k.behind front.closed)
  unfold invalidStatement
  dsimp only
  split
  · exact front
  · split
    · rename_i texts t le he
      rw [he] at behind
      exact behind
    · rename_i e t le he
      rw [he] at behind
      exact behind

/-- Behind a recorded error there is one error more than before. -/
theorem reads_record (e : SyntaxError) {t : State} (h : Reads earlier s t) :
    Reads earlier s (t.record e) ∧ s.errors < (t.record e).errors := by
  have count : (t.record e).errors = t.errors + 1 := Diagnostics.errorCount_errorAt _ _ _
  have recorded : Reads earlier t (t.record e) := .of_draft_eq h.closed rfl (by omega)
  exact ⟨h.trans recorded, by have := h.counted; omega⟩

/-- What is promised of a statement: its shape, and that no `else` is left to it. -/
def ShapedWhole (statement : Statement) (t : State) : Prop :=
  statement.Shaped t.draft ∧ (statement.endsOpen = true → t.peek ≠ some .elseWord)

mutual

theorem shapes_statements (s : State) (hs : s.draft.Closed earlier) :
    (statements s).Shapes earlier s fun ss t => Statement.ShapedAll t.draft ss := by
  rw [statements]
  split
  · exact .pure hs trivial
  · rename_i k hk
    have lt := k.lt
    split
    · exact .pure hs trivial
    · have hat := shapes_statementAt k hs hk
      split
      · rename_i statement t le he
        rw [he] at hat
        obtain ⟨reads, shaped⟩ := hat
        refine Step.Shapes.widen (.after_quiet ?_ reads) _
        refine (shapes_statements t reads.closed).map fun rest u h hrest quiet => ⟨?_, hrest⟩
        exact statement.shaped_mono reads.closed h.broadens (shaped quiet).1
      · rename_i e t le he
        rw [he] at hat
        have lt' := State.size_record_lt k e le
        have lt_recover := State.size_recover_lt k e le
        obtain ⟨recorded, loud⟩ := reads_record e hat
        have recovered : Reads earlier s (t.record e).recover :=
          recorded.trans (.of_draft_eq recorded.closed rfl (Nat.le_refl _))
        split
        · exact ⟨recorded, fun quiet => absurd quiet (Nat.ne_of_gt loud)⟩
        · split
          · exact ((shapes_statements _ recorded.closed).after_error recorded loud).widen _
          · exact ((shapes_statements _ recovered.closed).after_error recovered loud).widen _
termination_by 8 * s.size + 1

theorem shapes_statement (s : State) (hs : s.draft.Closed earlier) :
    (statement s).Shapes earlier s ShapedWhole := by
  rw [statement]
  split
  · exact .fail hs _
  · rename_i k hk
    have lt := k.lt
    split
    · exact .fail hs _
    · exact (shapes_statementAt k hs hk).widen _
termination_by 8 * s.size

theorem shapes_statementAt {s : State} (k : Taken s) (hs : s.draft.Closed earlier)
    (hk : s.take? = some k) : (statementAt k).Shapes earlier s ShapedWhole := by
  rw [statementAt]
  have front := reads_of_take? hs hk
  have lt := k.lt
  split
  · refine ((shapes_expression k.behind front.closed).after front).andThen fun value t le h shaped => ?_
    refine (shapes_semicolon h.closed _).map fun _ u h' _ quiet => ⟨?_, nofun⟩
    exact value.shaped_mono h.closed h'.broadens (shaped quiet)
  · refine ((shapes_expect front.closed .identifier).after front).andThen fun name t le h _ => ?_
    refine (shapes_assignmentRest true _ h.closed).andThen fun assignment u le' h' read => ?_
    refine (shapes_semicolon h'.closed _).map fun _ v h'' _ quiet' _ => ?_
    obtain ⟨written, value, rfl, spelled, shaped, -⟩ := read quiet'
    have assigned : Statement.Assigned u.draft true (.var name.text none name.line) written value
        name.line := ⟨rfl, rfl, rfl, fun _ => ⟨_, _, rfl⟩, spelled, shaped, rfl⟩
    exact ⟨⟨assigned.mono h'.closed h''.broadens, nofun⟩, nofun⟩
  · refine ((shapes_assignmentOrCall k.token front.closed).after front).mono
      fun statement t _ shaped => ⟨shaped.1, fun ends => ?_⟩
    cases shaped.2.symm.trans ends
  · refine ((shapes_condition front.closed).after front).andThen fun test t le h htest => ?_
    refine (shapes_statement t h.closed).andThen fun body u le' h' hbody => ?_
    refine (shapes_accept h'.closed .elseWord).andThen fun hasElse v le'' h'' found => ?_
    split
    · rename_i more
      refine (shapes_expect h''.closed .colon).andThen fun _ w le3 h3 _ => ?_
      refine (shapes_statement w h3.closed).map fun otherwise x h4 other _ quiet'' quiet' quiet => ?_
      have behind := (h''.trans h3).trans h4
      obtain ⟨shaped, last⟩ := hbody quiet'
      refine ⟨⟨test.shaped_mono h.closed (h'.trans behind).broadens (htest quiet),
        body.shaped_mono h'.closed behind.broadens shaped, ?_, other.1⟩, other.2⟩
      exact Bool.eq_false_iff.2 fun ends => last ends ((found quiet'').1 more)
    · rename_i none
      refine .pure h''.closed fun quiet'' quiet' quiet => ⟨⟨?_, ?_⟩, fun _ => ?_⟩
      · exact test.shaped_mono h.closed (h'.trans h'').broadens (htest quiet)
      · exact body.shaped_mono h'.closed h''.broadens (hbody quiet').1
      · exact (found quiet'').2 (Bool.eq_false_iff.2 none)
  · refine ((shapes_condition front.closed).after front).andThen fun test t le h htest => ?_
    refine (shapes_statement t h.closed).map fun body u h' hbody quiet => ?_
    exact ⟨⟨test.shaped_mono h.closed h'.broadens (htest quiet), hbody.1⟩, hbody.2⟩
  · refine ((shapes_statement k.behind front.closed).after front).andThen fun first t le h hfirst => ?_
    split
    · rename_i assigns
      refine (shapes_expression t h.closed).andThen fun test u le' h' htest => ?_
      refine (shapes_expect h'.closed .semicolon).andThen fun _ v le'' h'' _ => ?_
      refine (shapes_loopStep h''.closed).andThen fun step w le3 h3 hstep => ?_
      refine (shapes_statement w h3.closed).map
        fun body x h4 hbody quiet3 _ quiet' quiet => ⟨⟨⟨?_, assigns⟩, ?_, ?_, hbody.1⟩, hbody.2⟩
      · have behind := ((h'.trans h'').trans h3).trans h4
        exact first.shaped_mono h.closed behind.broadens (hfirst quiet).1
      · exact test.shaped_mono h'.closed ((h''.trans h3).trans h4).broadens (htest quiet')
      · exact Statement.shapedStep_mono h3.closed h4.broadens step (hstep quiet3)
    · exact .fail h.closed _
  · have inside := shapes_inside (fun ss d => Statement.ShapedAll d ss) hs k .braceClose
      (fun t _ => statements t)
      fun t le ht => shapes_statements t (ht ▸ hs)
    exact inside.map fun body t h hbody => ⟨hbody, nofun⟩
  · exact shapes_invalidStatement hs hk
termination_by 8 * k.behind.size + 2

end

end ObjectLang.Grammar
