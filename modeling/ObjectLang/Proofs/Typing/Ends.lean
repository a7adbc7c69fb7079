import Mathlib.Data.Finset.Card
import Mathlib.Data.Finset.Range
import ObjectLang.Proofs.Typing.Function
import ObjectLang.Proofs.Typing.Trail
set_option autoImplicit false

/-!
# Checking ends

A check of a function is entered at most once, for it marks the function before it looks at the body.
So checks nest no deeper than there are functions that are not marked yet, whatever calls whatever, and
the bound on nested checks is never reached. To say so without a bound, `Ends` gives an account of a
check as a finite tree: below a body that is walked stand the checks that were asked for on the way, each
of which ends, and the outcome of the body depends on nothing but their answers.
-/

namespace ObjectLang.Typing

mutual

/-- The check of a function ends, in the state `t` if it begins in `s`, and walks the bodies of the given
    functions, in the order of entering them. -/
inductive Ends (modules : List Module) :
    FunctionId → State → State → List FunctionId → Prop
  | known {id : FunctionId} {s : State} (checked : id ∈ s.checked) : Ends modules id s s []
  /-- The host provides the body, or no module declares the function. -/
  | bodiless {id : FunctionId} {s : State} (fresh : id ∉ s.checked)
    (bare : (s.program.function id).isNative = true ∨
      modules[(s.program.function id).module]? = none) :
    Ends modules id s (s.markChecked id) []
  | walk {id : FunctionId} {s t : State} {m : Module} {body : List Statement}
    {log : List Request} {walked : List FunctionId} (fresh : id ∉ s.checked)
    (written : (s.program.function id).isNative = false)
    (declared : modules[(s.program.function id).module]? = some m)
    (trail : Trail id ((s.markChecked id).enter m (s.program.function id)) log t)
    (found : ∀ oracle, Replays oracle log →
      checkAll { modules, current := id, checkTarget := oracle } (s.program.function id).body
        ((s.markChecked id).enter m (s.program.function id)) = (body, t))
    (requests : EndsAll modules log walked) :
    Ends modules id s (t.leave (s.markChecked id) id body) (id :: walked)

inductive EndsAll (modules : List Module) : List Request → List FunctionId → Prop
  | nil : EndsAll modules [] []
  | cons {a : Request} {log : List Request} {walked walked' : List FunctionId}
    (first : Ends modules a.target a.before a.after walked)
    (rest : EndsAll modules log walked') : EndsAll modules (a :: log) (walked ++ walked')

end

inductive EndsEach (modules : List Module) :
    List FunctionId → State → State → List FunctionId → Prop
  | nil (s : State) : EndsEach modules [] s s []
  | cons {id : FunctionId} {ids : List FunctionId} {s t u : State}
    {walked walked' : List FunctionId} (first : Ends modules id s t walked)
    (rest : EndsEach modules ids t u walked') :
    EndsEach modules (id :: ids) s u (walked ++ walked')

/-- The walked functions are different ones that were not marked before and are marked behind. -/
structure Walks (before after walked : List FunctionId) : Prop where
  grows : before ⊆ after
  nodup : walked.Nodup
  fresh : ∀ id ∈ walked, id ∉ before
  marked : walked ⊆ after

namespace Walks

variable {before after last walked walked' : List FunctionId}

theorem nil (h : before ⊆ after) : Walks before after [] :=
  ⟨h, .nil, nofun, List.nil_subset _⟩

theorem append (h : Walks before after walked) (h' : Walks after last walked') :
    Walks before last (walked ++ walked') where
  grows := List.Subset.trans h.grows h'.grows
  nodup := List.nodup_append.2 ⟨h.nodup, h'.nodup, fun _ first other later same =>
    h'.fresh other later (h.marked (same ▸ first))⟩
  fresh id hid := (List.mem_append.1 hid).elim (h.fresh id) fun later old =>
    h'.fresh id later (h.grows old)
  marked := List.append_subset.2 ⟨List.Subset.trans h.marked h'.grows, h'.marked⟩

theorem cons {id : FunctionId} (fresh : id ∉ before) (h : Walks (id :: before) after walked) :
    Walks before after (id :: walked) where
  grows := List.Subset.trans (List.subset_cons_self _ _) h.grows
  nodup := List.nodup_cons.2 ⟨fun again => h.fresh id again List.mem_cons_self, h.nodup⟩
  fresh other hother := by
    rcases List.mem_cons.1 hother with rfl | later
    · exact fresh
    · exact fun old => h.fresh other later (List.mem_cons_of_mem _ old)
  marked := List.cons_subset.2 ⟨h.grows List.mem_cons_self, h.marked⟩

end Walks

theorem Change.checked_eq {current : FunctionId} {s t : State} (h : Change current s t) :
    t.checked = s.checked := by
  cases h <;> rfl

namespace Trail

variable {current : FunctionId} {s t : State} {a : Request} {log : List Request}

theorem checked_eq (h : Trail current s [] t) : t.checked = s.checked :=
  (h.keeps (R := fun s t => t.checked = s.checked) (fun _ => rfl) (fun h h' => h'.trans h)
    Change.checked_eq nofun).1

theorem first (h : Trail current s (a :: log) t) :
    a.before.checked = s.checked ∧ Trail current a.after log t := by
  generalize shape : a :: log = whole at h
  induction h with
  | nil s => cases shape
  | change change _ ih =>
    obtain ⟨same, rest⟩ := ih shape
    exact ⟨same.trans change.checked_eq, rest⟩
  | request b rest _ =>
    cases shape
    exact ⟨rfl, rest⟩

end Trail

mutual

theorem Ends.walks {modules : List Module} {id : FunctionId} {s t : State}
    {walked : List FunctionId} (h : Ends modules id s t walked) :
    Walks s.checked t.checked walked :=
  match h with
  | .known _ => .nil (List.Subset.refl _)
  | .bodiless _ _ => .nil (List.subset_cons_self _ _)
  | .walk fresh _ _ trail _ requests => .cons fresh (requests.walks trail)
termination_by structural h

theorem EndsAll.walks {modules : List Module} {log : List Request} {walked : List FunctionId}
    (h : EndsAll modules log walked) {current : FunctionId} {s t : State}
    (trail : Trail current s log t) : Walks s.checked t.checked walked :=
  match h with
  | .nil => .nil (trail.checked_eq ▸ List.Subset.refl _)
  | .cons first rest => (trail.first.1 ▸ first.walks).append (rest.walks trail.first.2)
termination_by structural h

end

theorem EndsEach.walks {modules : List Module} {ids : List FunctionId} {s t : State}
    {walked : List FunctionId} (h : EndsEach modules ids s t walked) :
    Walks s.checked t.checked walked := by
  induction h with
  | nil s => exact .nil (List.Subset.refl _)
  | cons first _ ih => exact first.walks.append ih

def State.unchecked (s : State) : Nat :=
  ((Finset.range s.program.functions.size).filter fun i => ⟨i⟩ ∉ s.checked).card

/-- More functions may be marked, and none are declared. -/
def State.Marks (s t : State) : Prop :=
  s.checked ⊆ t.checked ∧ t.program.functions.size = s.program.functions.size

namespace State.Marks

variable {s t u : State}

theorem refl (s : State) : Marks s s := ⟨List.Subset.refl _, rfl⟩

theorem trans (h : Marks s t) (h' : Marks t u) : Marks s u :=
  ⟨List.Subset.trans h.1 h'.1, h'.2.trans h.2⟩

theorem unchecked_le (h : Marks s t) : t.unchecked ≤ s.unchecked := by
  unfold unchecked
  rw [h.2]
  refine Finset.card_le_card fun i hi => ?_
  rw [Finset.mem_filter] at hi ⊢
  exact ⟨hi.1, fun old => hi.2 (h.1 old)⟩

end State.Marks

theorem State.unchecked_markChecked {s : State} {id : FunctionId} (fresh : id ∉ s.checked)
    (declared : s.program.Declares id) : (s.markChecked id).unchecked < s.unchecked := by
  refine Finset.card_lt_card (Finset.ssubset_iff_of_subset ?_ |>.2 ⟨id.index, ?_, ?_⟩)
  · intro i hi
    rw [Finset.mem_filter] at hi ⊢
    exact ⟨hi.1, fun old => hi.2 (List.mem_cons_of_mem _ old)⟩
  · exact Finset.mem_filter.2 ⟨Finset.mem_range.2 declared, fresh⟩
  · intro again
    exact (Finset.mem_filter.1 again).2 List.mem_cons_self

theorem Change.marks {current : FunctionId} {s t : State} (h : Change current s t) :
    s.Marks t := by
  refine ⟨h.checked_eq ▸ List.Subset.refl _, ?_⟩
  cases h with
  | decision type filled infers => exact Program.size_modifyFunction _ _ _
  | _ => rfl

theorem marks_checkWithin (modules : List Module) (depth : Nat) (id : FunctionId) (s : State) :
    s.Marks (checkWithin modules depth id s) :=
  have keeps := keeps_checkWithin modules depth id s
  ⟨keeps.checked.subset, keeps.evolves.size⟩

theorem endsAll_of_forall {modules : List Module} {log : List Request}
    (h : ∀ a ∈ log, ∃ walked, Ends modules a.target a.before a.after walked) :
    ∃ walked, EndsAll modules log walked := by
  induction log with
  | nil => exact ⟨[], .nil⟩
  | cons a rest ih =>
    obtain ⟨walked, first⟩ := h a List.mem_cons_self
    obtain ⟨walked', others⟩ := ih fun b hb => h b (List.mem_cons_of_mem _ hb)
    exact ⟨walked ++ walked', .cons first others⟩

theorem endsAll_of_room {modules : List Module} {depth : Nat}
    (ends : ∀ id (s : State), s.unchecked < depth →
      ∃ walked, Ends modules id s (checkWithin modules depth id s) walked)
    {current : FunctionId} {s t : State} {log : List Request} (trail : Trail current s log t)
    (given : Replays (checkWithin modules depth) log) (room : s.unchecked < depth) :
    ∃ walked, EndsAll modules log walked := by
  have before := (trail.keeps (R := State.Marks) State.Marks.refl State.Marks.trans Change.marks
    fun a ha => given a ha ▸ marks_checkWithin modules depth a.target a.before).2
  refine endsAll_of_forall fun a ha => ?_
  rw [← given a ha]
  exact ends a.target a.before (Nat.lt_of_le_of_lt (before a ha).unchecked_le room)

/-- The walk of a body asks for checks that end, if there is room for them behind it. A function that
    was never declared has no body, and its walk asks for nothing. -/
theorem walk_ends {modules : List Module} {depth : Nat}
    (ends : ∀ id (s : State), s.unchecked < depth →
      ∃ walked, Ends modules id s (checkWithin modules depth id s) walked)
    {id : FunctionId} {s : State} (fresh : id ∉ s.checked) (room : s.unchecked < depth + 1)
    (m : Module) :
    let f := s.program.function id
    let entered := (s.markChecked id).enter m f
    let c : Context := { modules, current := id, checkTarget := checkWithin modules depth }
    ∃ log, Trail id entered log (checkAll c f.body entered).2 ∧
      (∀ oracle, Replays oracle log →
        checkAll (c.asking oracle) f.body entered = checkAll c f.body entered) ∧
      ∃ walked, EndsAll modules log walked := by
  intro f entered c
  by_cases declared : s.program.Declares id
  · obtain ⟨log, trail, given, same⟩ := traced_checkAll (c := c) f.body entered
    have less : entered.unchecked < depth :=
      Nat.lt_of_lt_of_le (State.unchecked_markChecked fresh declared) (Nat.le_of_lt_succ room)
    exact ⟨log, trail, same, endsAll_of_room ends trail given less⟩
  · have empty : f.body = [] := by
      change (s.program.function id).body = []
      rw [s.program.function_of_not_declares declared]
    rw [empty]
    exact ⟨[], .nil entered, fun _ _ => rfl, [], .nil⟩

/-- If the bound exceeds the number of functions that are not marked, then the check ends. The
    induction is on the bound: a function is marked before its check asks for others. -/
theorem ends_checkWithin (modules : List Module) (depth : Nat) (id : FunctionId) (s : State)
    (room : s.unchecked < depth) :
    ∃ walked, Ends modules id s (checkWithin modules depth id s) walked := by
  induction depth generalizing id s with
  | zero => exact absurd room (Nat.not_lt_zero _)
  | succ depth ih =>
    unfold checkWithin
    split
    · rename_i checked
      exact ⟨[], .known (isChecked_eq_true.1 checked)⟩
    · rename_i unmarked
      have fresh : id ∉ s.checked := fun old => unmarked (isChecked_eq_true.2 old)
      dsimp only
      split
      · rename_i native
        exact ⟨[], .bodiless fresh (.inl native)⟩
      · rename_i written
        split
        · rename_i undeclared
          exact ⟨[], .bodiless fresh (.inr undeclared)⟩
        · rename_i m declared
          obtain ⟨log, trail, found, walked, requests⟩ := walk_ends ih fresh room m
          exact ⟨id :: walked,
            .walk fresh (Bool.eq_false_iff.2 written) declared trail found requests⟩

section Step

variable {modules : List Module} {id : FunctionId} {s : State} (fresh : id ∉ s.checked)
include fresh

theorem checkWithin_bodiless (depth : Nat) (bare : (s.program.function id).isNative = true ∨
    modules[(s.program.function id).module]? = none) :
    checkWithin modules (depth + 1) id s = s.markChecked id := by
  rw [checkWithin, if_neg fun checked => fresh (isChecked_eq_true.1 checked)]
  dsimp only
  split
  · rfl
  · rename_i written
    rcases bare with native | undeclared
    · exact absurd native written
    · have none : modules[((s.markChecked id).program.function id).module]? = none := undeclared
      rw [none]

theorem checkWithin_walk (depth : Nat) {m : Module}
    (written : (s.program.function id).isNative = false)
    (declared : modules[(s.program.function id).module]? = some m) :
    checkWithin modules (depth + 1) id s =
      checkBody { modules, current := id, checkTarget := checkWithin modules depth } m
        (s.markChecked id) := by
  have written : ¬((s.markChecked id).program.function id).isNative = true :=
    Bool.eq_false_iff.1 written
  have found : modules[((s.markChecked id).program.function id).module]? = some m := declared
  rw [checkWithin, if_neg fun checked => fresh (isChecked_eq_true.1 checked)]
  dsimp only
  rw [if_neg written, found]

end Step

mutual

/-- An account of a check tells what the check comes to, whatever its bound is, if it is deep
    enough. -/
theorem Ends.checkWithin_eq {modules : List Module} {id : FunctionId} {s t : State}
    {walked : List FunctionId} (h : Ends modules id s t walked) {depth : Nat}
    (deep : walked.length < depth) : checkWithin modules depth id s = t :=
  match depth, h with
  | 0, _ => absurd deep (Nat.not_lt_zero _)
  | depth + 1, .known checked => checkWithin_of_checked modules _ checked
  | depth + 1, .bodiless fresh bare => checkWithin_bodiless fresh depth bare
  | depth + 1, .walk fresh written declared trail found requests => by
    rw [checkWithin_walk fresh depth written declared]
    have body := found _ (requests.replays (Nat.lt_of_succ_lt_succ deep))
    exact congrArg (fun v : List Statement × State => v.2.leave (s.markChecked id) id v.1) body
termination_by structural h

theorem EndsAll.replays {modules : List Module} {log : List Request} {walked : List FunctionId}
    (h : EndsAll modules log walked) {depth : Nat} (deep : walked.length < depth) :
    Replays (checkWithin modules depth) log :=
  match h with
  | .nil => nofun
  | @EndsAll.cons _ _ _ walked walked' first rest =>
    have both : walked.length + walked'.length < depth := List.length_append ▸ deep
    List.forall_mem_cons.2 ⟨first.checkWithin_eq (Nat.lt_of_le_of_lt (Nat.le_add_right _ _) both),
      rest.replays (Nat.lt_of_le_of_lt (Nat.le_add_left _ _) both)⟩
termination_by structural h

end

theorem ends_checkFunction (modules : List Module) (id : FunctionId) (s : State) :
    ∃ walked, Ends modules id s (checkFunction modules id s) walked := by
  refine ends_checkWithin modules _ id s (Nat.lt_succ_of_le ?_)
  exact (Finset.card_filter_le _ _).trans_eq (Finset.card_range _)

/-- The bound of a check is deep enough: what an account of it tells, the check comes to. -/
theorem Ends.eq {modules : List Module} {id : FunctionId} {s t : State} {walked : List FunctionId}
    (h : Ends modules id s t walked) : t = checkFunction modules id s := by
  obtain ⟨walked', h'⟩ := ends_checkFunction modules id s
  let depth := walked.length + walked'.length + 1
  exact (h.checkWithin_eq (show walked.length < depth by omega)).symm.trans
    (h'.checkWithin_eq (by omega))

def declaredBy (modules : List Module) (index : Nat) : List FunctionId :=
  (modules[index]?.map Module.ownFunctions).getD []

theorem checkModule_eq (modules : List Module) (index : Nat) (s : State) :
    checkModule modules index s =
      (declaredBy modules index).foldl (fun s id => checkFunction modules id s) s := by
  unfold checkModule declaredBy
  cases modules[index]? <;> rfl

theorem foldl_checkModule (modules : List Module) (indices : List Nat) (s : State) :
    indices.foldl (fun s index => checkModule modules index s) s =
      (indices.flatMap (declaredBy modules)).foldl (fun s id => checkFunction modules id s) s := by
  induction indices generalizing s with
  | nil => rfl
  | cons index rest ih =>
    rw [List.foldl_cons, ih, checkModule_eq, List.flatMap_cons, List.foldl_append]

theorem endsEach_foldl (modules : List Module) (ids : List FunctionId) (s : State) :
    ∃ walked, EndsEach modules ids s (ids.foldl (fun s id => checkFunction modules id s) s)
      walked := by
  induction ids generalizing s with
  | nil => exact ⟨[], .nil s⟩
  | cons id rest ih =>
    obtain ⟨walked, first⟩ := ends_checkFunction modules id s
    obtain ⟨walked', others⟩ := ih (checkFunction modules id s)
    exact ⟨walked ++ walked', .cons first others⟩

theorem EndsEach.eq {modules : List Module} {ids : List FunctionId} {s t : State}
    {walked : List FunctionId} (h : EndsEach modules ids s t walked) :
    t = ids.foldl (fun s id => checkFunction modules id s) s := by
  induction h with
  | nil s => rfl
  | cons first _ ih => rw [List.foldl_cons, ← first.eq, ih]

/-- The checks of modules, one after another, end, whatever the state they begin in. Every account of
    them ends in the state that the bounded checks give, and walks no body twice and no body of a
    function that was checked before. -/
theorem checks_end (modules : List Module) (indices : List Nat) (s : State) :
    (∃ t walked, EndsEach modules (indices.flatMap (declaredBy modules)) s t walked) ∧
    ∀ t walked, EndsEach modules (indices.flatMap (declaredBy modules)) s t walked →
      t = indices.foldl (fun s index => checkModule modules index s) s ∧
        walked.Nodup ∧ ∀ id ∈ walked, id ∉ s.checked ∧ id ∈ t.checked := by
  refine ⟨?_, fun t walked account => ⟨?_, account.walks.nodup, fun id walks => ?_⟩⟩
  · obtain ⟨walked, account⟩ := endsEach_foldl modules (indices.flatMap (declaredBy modules)) s
    exact ⟨_, walked, account⟩
  · rw [foldl_checkModule]
    exact account.eq
  · exact ⟨account.walks.fresh id walks, account.walks.marked walks⟩

end ObjectLang.Typing
