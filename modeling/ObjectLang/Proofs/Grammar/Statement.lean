import ObjectLang.Proofs.Grammar.Expression
set_option autoImplicit false

/-!
# Statements build drafts

What the grammar reads as a statement is formed in the program behind it, whatever had to be skipped
on the way.
-/

namespace ObjectLang.Grammar

variable {earlier : List Module}

theorem builds_rejected (s : State) (hs : s.draft.Closed earlier) :
    (rejected s).Builds earlier s fun _ _ => True := by
  rw [rejected]
  split
  · exact .pure hs trivial
  · rename_i k hk
    have lt := k.lt
    have hd := draft_of_take? hk
    have hk' := closed_of_take? hs hk
    split
    · exact .pure hs trivial
    · split
      · exact (Step.Builds.start (.pure hk' trivial) hd).widen _
      · refine (((builds_rejected k.behind hk').start hd).map fun _ _ _ _ => trivial).widen _
termination_by s.size

theorem builds_invalidStatement {s : State} (hs : s.draft.Closed earlier) {k : Taken s}
    (hd : k.behind.draft = s.draft) {Q : Statement → Program → Prop} :
    (invalidStatement k).Builds earlier s Q := by
  unfold invalidStatement
  dsimp only
  have hr := (builds_rejected k.behind (hd ▸ hs)).start hd
  split
  · exact Leads.of_draft_eq hs hd
  · split
    · rename_i texts t le he
      rw [he] at hr
      exact hr.1
    · rename_i e t le he
      rw [he] at hr
      exact hr

theorem builds_assignmentRest (declares : Bool) {target : Expr} {s : State}
    (hs : s.draft.Closed earlier) (ht : target.Formed s.program) :
    (assignmentRest declares target s).Builds earlier s
      fun statement p => statement.Formed p ∧ statement.declares = declares := by
  refine (builds_accept hs .colon).andThen fun typed t le h _ => ?_
  have written : (if typed then (typeName t).map some else Step.pure none t).Builds earlier t
      fun written p => ∀ type ∈ written, p.types.Knows type := by
    split
    · refine (builds_typeName t h.closed).map fun type u h' known => ?_
      rintro _ ⟨⟩
      exact known
    · exact .pure h.closed nofun
  refine written.andThen fun written u le' h' hwritten => ?_
  refine (builds_expect h'.closed .equals).andThen fun _ v le'' h'' _ => ?_
  refine (builds_expression v h''.closed).map fun value w h''' hvalue => ?_
  have behind := h''.extension.trans h'''.extension
  refine ⟨⟨?_, fun type htype => behind.knows (hwritten type htype), hvalue⟩, rfl⟩
  exact target.formed_mono ((h.extension.trans h'.extension).trans behind) ht

theorem builds_assignmentOrCall (name : Token) {s : State} (hs : s.draft.Closed earlier) :
    (assignmentOrCall name s).Builds earlier s fun statement p => statement.Formed p := by
  refine (builds_suffixes false (.var name.text none name.line) s hs trivial).andThen
    fun target t le h htarget => ?_
  split
  · split
    · refine (builds_assignmentRest false h.closed htarget).andThen fun statement u _ h' hu => ?_
      refine (builds_semicolon h'.closed _).map fun _ v h'' _ => ?_
      exact statement.formed_mono h''.extension hu.1
    · exact .fail h.closed _
  · split
    · refine (builds_semicolon h.closed _).map fun _ u h' _ => ?_
      exact Expr.formed_mono h'.extension _ htarget
    · exact .fail h.closed _

theorem builds_condition {s : State} (hs : s.draft.Closed earlier) :
    (condition s).Builds earlier s fun e p => e.Formed p := by
  refine (builds_expression s hs).andThen fun e t le h he => ?_
  refine (builds_expect h.closed .colon).map fun _ u h' _ => ?_
  exact e.formed_mono h'.extension he

theorem builds_loopStep {s : State} (hs : s.draft.Closed earlier) :
    (loopStep s).Builds earlier s
      fun statement p => statement.Formed p ∧ statement.declares = false := by
  refine (builds_expect hs .identifier).andThen fun name t le h _ => ?_
  have plain : (Expr.var name.text none name.line).Formed t.program := trivial
  refine (builds_suffixes false _ t h.closed plain).andThen fun target u le' h' htarget => ?_
  split
  · refine (builds_assignmentRest false h'.closed htarget).andThen fun step v _ h'' hstep => ?_
    refine (builds_expect h''.closed .colon).map fun _ w h''' _ => ?_
    exact ⟨step.formed_mono h'''.extension hstep.1, hstep.2⟩
  · exact .fail h'.closed _

mutual

theorem builds_statements (s : State) (hs : s.draft.Closed earlier) :
    (statements s).Builds earlier s fun ss p => Statement.FormedAll p ss := by
  rw [statements]
  split
  · exact .pure hs trivial
  · rename_i k hk
    have lt := k.lt
    have hd := draft_of_take? hk
    have hat := builds_statementAt k hs hd
    split
    · exact .pure hs trivial
    · split
      · rename_i statement t le he
        rw [he] at hat
        refine (((builds_statements t hat.1.closed).map ?_).after hat.1).widen _
        exact fun rest u h hrest => ⟨statement.formed_mono h.extension hat.2, hrest⟩
      · rename_i e t le he
        rw [he] at hat
        have lt' := State.size_record_lt k e le
        have lt_recover := State.size_recover_lt k e le
        have recorded : Leads earlier s (t.record e) := Leads.change hat rfl rfl
        have recovered : Leads earlier s (t.record e).recover := Leads.change hat rfl rfl
        split
        · exact ⟨recorded, trivial⟩
        · split
          · exact ((builds_statements _ recorded.closed).after recorded).widen _
          · exact ((builds_statements _ recovered.closed).after recovered).widen _
termination_by 8 * s.size + 1

theorem builds_statement (s : State) (hs : s.draft.Closed earlier) :
    (statement s).Builds earlier s fun statement p => statement.Formed p := by
  rw [statement]
  split
  · exact .fail hs _
  · rename_i k hk
    have lt := k.lt
    split
    · exact .fail hs _
    · exact (builds_statementAt k hs (draft_of_take? hk)).widen _
termination_by 8 * s.size

theorem builds_statementAt {s : State} (k : Taken s) (hs : s.draft.Closed earlier)
    (hd : k.behind.draft = s.draft) :
    (statementAt k).Builds earlier s fun statement p => statement.Formed p := by
  rw [statementAt]
  have hk : k.behind.draft.Closed earlier := hd ▸ hs
  have lt := k.lt
  split
  · refine ((builds_expression k.behind hk).start hd).andThen fun value t le h hvalue => ?_
    refine (builds_semicolon h.closed _).map fun _ u h' _ => ?_
    exact value.formed_mono h'.extension hvalue
  · refine ((builds_expect hk .identifier).start hd).andThen fun name t le h _ => ?_
    have plain : (Expr.var name.text none name.line).Formed t.program := trivial
    refine (builds_assignmentRest true h.closed plain).andThen fun statement u _ h' hu => ?_
    refine (builds_semicolon h'.closed _).map fun _ v h'' _ => ?_
    exact statement.formed_mono h''.extension hu.1
  · exact (builds_assignmentOrCall k.token hk).start hd
  · refine ((builds_condition hk).start hd).andThen fun test t le h htest => ?_
    refine (builds_statement t h.closed).andThen fun body u le' h' hbody => ?_
    refine (builds_accept h'.closed .elseWord).andThen fun hasElse v le'' h'' _ => ?_
    have htest' := test.formed_mono (h'.extension.trans h''.extension) htest
    have hbody' := body.formed_mono h''.extension hbody
    split
    · refine (builds_expect h''.closed .colon).andThen fun _ w le''' h''' _ => ?_
      refine (builds_statement w h'''.closed).map fun otherwise x h'''' hotherwise => ?_
      have behind := h'''.extension.trans h''''.extension
      exact ⟨test.formed_mono behind htest', body.formed_mono behind hbody', hotherwise⟩
    · exact .pure h''.closed ⟨htest', hbody'⟩
  · refine ((builds_condition hk).start hd).andThen fun test t le h htest => ?_
    refine (builds_statement t h.closed).map fun body u h' hbody => ?_
    exact ⟨test.formed_mono h'.extension htest, hbody⟩
  · refine ((builds_statement k.behind hk).start hd).andThen fun first t le h hfirst => ?_
    split
    · refine (builds_expression t h.closed).andThen fun test u le' h' htest => ?_
      refine (builds_expect h'.closed .semicolon).andThen fun _ v le'' h'' _ => ?_
      refine (builds_loopStep h''.closed).andThen fun step w le''' h''' hstep => ?_
      refine (builds_statement w h'''.closed).map fun body x h'''' hbody => ?_
      have behind_test := (h''.extension.trans h'''.extension).trans h''''.extension
      refine ⟨first.formed_mono (h'.extension.trans behind_test) hfirst,
        test.formed_mono behind_test htest, ⟨step.formed_mono h''''.extension hstep.1, ?_⟩, hbody⟩
      exact hstep.2
    · exact .fail h.closed _
  · have inside := builds_inside hs k .braceClose (fun t _ => statements t)
      fun t le ht => builds_statements t (ht ▸ hs)
    exact inside.map fun body t h hbody => hbody
  · exact builds_invalidStatement hs hd
termination_by 8 * k.behind.size + 2

end

end ObjectLang.Grammar
