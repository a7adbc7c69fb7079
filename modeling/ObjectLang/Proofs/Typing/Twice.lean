import ObjectLang.Proofs.Typing.Checked
import ObjectLang.Proofs.Typing.Recheck
set_option autoImplicit false

/-!
# Checking twice

A compilation that was checked without an error is checked again: this is what happens to the older
modules when more files are compiled. The first check has already bound the calls and decided the
return types, so the second one has nothing to add. But it sees return types that the first one did
not know yet, and the operands of an operator that were both taken for `Void` then may have
different types now.
-/

namespace ObjectLang

open Typing

/-- Whether the operands of all operators and the sides of all assignments in the body of a
    function agree under the return types of the program. -/
def Function.agrees (p : Program) (f : Function) : Bool :=
  f.isNative || Statement.allAgree p f.body

theorem Program.modifyFunction_eq_self {p : Program} {id : FunctionId}
    {change : Function → Function} (same : change (p.function id) = p.function id) :
    p.modifyFunction id change = p := by
  have functions : p.functions.functions.modify id.index change = p.functions.functions := by
    apply Array.ext_getElem?
    intro i
    rw [Array.getElem?_modify]
    split
    · rename_i hi
      cases hf : p.functions.functions[i]? with
      | none => rfl
      | some f =>
        rw [Program.function, Arena.get, hi, hf] at same
        exact congrArg some same
    · rfl
  rw [modifyFunction, Arena.modify, functions]

namespace Typing

variable {p : Program} {modules : List Module} {first s t : State}

/-- Checking again goes on without an error: nothing has changed, and what was entered agrees. -/
structure Quiet (p : Program) (s t : State) : Prop where
  program : t.program = s.program
  clean : s.Clean → t.Clean
  agree : ∀ id ∈ t.checked, id ∉ s.checked → (p.function id).agrees p = true

def Failed (p : Program) (s : State) : Prop :=
  ¬s.Clean ∧ ∃ id ∈ s.checked, (p.function id).agrees p = false

theorem Quiet.refl (s : State) : Quiet p s s :=
  ⟨rfl, fun clean => clean, fun _ hid hno => absurd hid hno⟩

theorem Quiet.trans {u : State} (h : Quiet p s t) (h' : Quiet p t u) : Quiet p s u := by
  refine ⟨h'.program.trans h.program, fun clean => h'.clean (h.clean clean), fun id hid hno => ?_⟩
  by_cases ht : id ∈ t.checked
  · exact h.agree id ht hno
  · exact h'.agree id hid ht

theorem Failed.later {O : FunctionId → Prop} (h : Later O s t) (hs : Failed p s) : Failed p t := by
  obtain ⟨unclean, id, hid, differs⟩ := hs
  exact ⟨fun clean => unclean (h.clean clean), id, h.mem hid, differs⟩

theorem calm_quiet (p : Program) : CalmScopes (Quiet p) (Failed p) where
  refl := .refl
  trans _ _ _ := .trans
  program _ _ := Quiet.program
  failed _ _ _ := Failed.later
  scopes _ _ := ⟨rfl, fun clean => clean, fun _ hid hno => absurd hid hno⟩

theorem again_quiet {c : Context} (keeping : c.Keeping) (tables : first.program.Tables) :
    Again first.program c (Accounts first) (Quiet first.program) (Failed first.program) where
  calm := calm_quiet _
  keeping := keeping
  tables := tables
  loose _ _ h := h.2

theorem quiet_markChecked {id : FunctionId} (agrees : (p.function id).agrees p = true) :
    Quiet p s (s.markChecked id) := by
  refine ⟨rfl, fun clean => clean, fun f hf hno => ?_⟩
  rcases List.mem_cons.1 hf with rfl | hf
  · exact agrees
  · exact absurd hf hno

/-- Checking the body of a typed function again. -/
theorem checkBody_again {c : Context} (again : Again first.program c (Accounts first)
      (Quiet first.program) (Failed first.program)) {m : Module} {Γ : Scopes Meaning}
    (typed : ChecksAll first.program (Accounts first) c.current
      (functionScopes m first.program (first.program.function c.current))
      (first.program.function c.current).body Γ)
    (written : (first.program.function c.current).isNative = false)
    (same : s.program = first.program)
    (answers : ∀ f ∈ first.checked, ∀ t, t.program = first.program →
      ¬Failed first.program (c.checkTarget f t) → Quiet first.program t (c.checkTarget f t))
    (fine : ¬Failed first.program (checkBody c m (s.markChecked c.current))) :
    Quiet first.program s (checkBody c m (s.markChecked c.current)) := by
  let f := first.program.function c.current
  let u := (s.markChecked c.current).enter m f
  let v := checkAll c f.body u
  have entered : c.current ∈ u.checked := List.mem_cons_self
  have body : checkBody c m (s.markChecked c.current) =
      v.2.leave (s.markChecked c.current) c.current v.1 := by
    unfold checkBody
    dsimp only
    rw [show (s.markChecked c.current).program = first.program from same]
  rw [body] at fine ⊢
  have inside := later_checkAll again.keeping f.body entered
  have left : Later (· = c.current) v.2 (v.2.leave (s.markChecked c.current) c.current v.1) :=
    (later_modifyFunction (inside.mem entered) ({ · with body := v.1 }) (fun _ => rfl)
      ⟨rfl, .inl rfl⟩).trans (.of_types (.refl _) rfl rfl fun clean => clean)
  have stands : Stands first.program c (Accounts first) (Quiet first.program)
      (Failed first.program) (functionScopes m first.program f) u := by
    refine ⟨same, ?_, entered, ?_⟩
    · change functionScopes m s.program f = _
      rw [same]
    · intro g type account t quiet fine
      exact answers g account.1 t (quiet.program.trans same) fine
  have recheck := typed.recheck again stands fun failed => fine (failed.later left)
  rcases recheck with ⟨agrees, statements, quiet, -⟩ | ⟨refused, unclean⟩
  · have agrees : f.agrees first.program = true := by
      rw [Function.agrees, agrees, Bool.or_true]
    have program : v.2.program = first.program := quiet.program.trans same
    have entering := quiet_markChecked (s := s) agrees
    have inside : Quiet first.program (s.markChecked c.current) v.2 :=
      ⟨quiet.program, quiet.clean, quiet.agree⟩
    have leaving : Quiet first.program v.2 (v.2.leave (s.markChecked c.current) c.current v.1) := by
      refine ⟨Program.modifyFunction_eq_self ?_, fun clean => clean, fun _ hid hno => absurd hid hno⟩
      rw [program, statements]
    exact (entering.trans inside).trans leaving
  · refine absurd ?_ fine
    refine Failed.later left ⟨unclean, c.current, inside.mem entered, ?_⟩
    change f.agrees first.program = false
    rw [Function.agrees, written, refused]
    rfl

theorem checkWithin_again (tables : first.program.Tables)
    (correct : ∀ id ∈ first.checked, Correct modules first id) (depth : Nat) (id : FunctionId)
    (hid : id ∈ first.checked) (s : State) (same : s.program = first.program)
    (fine : ¬Failed first.program (checkWithin modules depth id s)) :
    Quiet first.program s (checkWithin modules depth id s) := by
  induction depth generalizing id s with
  | zero => exact .refl s
  | succ depth ih =>
    unfold checkWithin at fine ⊢
    split
    · exact .refl s
    · rename_i fresh
      rw [if_neg fresh] at fine
      dsimp only at fine ⊢
      have program : (s.markChecked id).program = first.program := same
      rw [program] at fine ⊢
      split
      · rename_i native
        exact quiet_markChecked (by rw [Function.agrees, native, Bool.true_or])
      · rename_i written
        rw [if_neg written] at fine
        rcases correct id hid with native | ⟨m, Γ, hm, typed⟩
        · exact absurd native written
        · rw [hm] at fine ⊢
          exact checkBody_again (c := ⟨modules, id, checkWithin modules depth⟩)
            (again_quiet (keeps_checkWithin modules depth) tables) typed
            (Bool.not_eq_true _ ▸ written) same (fun f hf t ht fine => ih f hf t ht fine) fine

theorem quiet_foldl {α : Type} {step : State → α → State} (keeps : ∀ s a, Keeps s (step s a))
    (as : List α) (hstep : ∀ a ∈ as, ∀ t, t.program = p → ¬Failed p (step t a) →
      Quiet p t (step t a))
    (same : s.program = p) (fine : ¬Failed p (as.foldl step s)) : Quiet p s (as.foldl step s) := by
  induction as generalizing s with
  | nil => exact .refl s
  | cons a rest ih =>
    have fine' : ¬Failed p (step s a) := fun failed =>
      fine (failed.later (keeps_foldl keeps rest (step s a)).toLater)
    have quiet := hstep a List.mem_cons_self s same fine'
    exact quiet.trans (ih (fun b hb => hstep b (List.mem_cons_of_mem _ hb))
      (quiet.program.trans same) fine)

end Typing

namespace Compilation

variable {c : Compilation}

def entered (c : Compilation) : List FunctionId := (c.checkFrom 1 c.unchecked).checked

/-- In all functions that a check enters, the types of operands agree. -/
def Settled (c : Compilation) : Prop :=
  ∀ id ∈ c.entered, (c.program.function id).agrees c.program = true

instance : Decidable c.Settled :=
  inferInstanceAs (Decidable (∀ id ∈ c.entered, (c.program.function id).agrees c.program = true))

theorem quiet_checkFrom {first s : Typing.State} (h : c.Accepted first)
    (same : s.program = first.program) (fine : ¬Failed first.program (c.checkFrom 1 s)) :
    Quiet first.program s (c.checkFrom 1 s) := by
  refine quiet_foldl (fun s index => keeps_checkModule c.modules index s) _ ?_ same fine
  intro index hindex t ht fine
  have positive : 1 ≤ index := by
    simp only [List.range_eq_range', List.drop_range', List.mem_range'_1] at hindex
    omega
  unfold checkModule at fine ⊢
  split
  · exact .refl t
  · rename_i m hm
    rw [hm] at fine
    refine quiet_foldl (fun s id => keeps_checkFunction c.modules id s) _ ?_ ht fine
    intro id hid u hu fine
    exact checkWithin_again h.tables h.correct _ id (h.entered index m positive hm id hid) u hu fine

/-- A program that was checked without an error is checked again without an error if and only if
    the types of operands agree in it by now, and then nothing changes. -/
theorem check_again (read : Written c.modules c.program)
    (accepted : c.checkAll.diagnostics.hasError = false) :
    (c.checkAll.checkAll.diagnostics.hasError = false ↔ c.checkAll.Settled) ∧
      (c.checkAll.Settled → c.checkAll.checkAll.program = c.checkAll.program) := by
  have first := accepted_checkFrom read.library accepted
  have quiet := quiet_checkFrom first (s := c.checkAll.unchecked) rfl
  have settled (h : c.checkAll.Settled) :
      Quiet c.checkAll.program c.checkAll.unchecked (c.checkFrom 1 c.checkAll.unchecked) := by
    refine quiet ?_
    rintro ⟨-, id, hid, differs⟩
    have agrees := h id hid
    rw [show (c.checkAll.program.function id).agrees c.checkAll.program = false from differs]
      at agrees
    cases agrees
  refine ⟨⟨fun clean id hid => ?_, fun h => (settled h).clean accepted⟩,
    fun h => (settled h).program⟩
  exact (quiet fun failed => failed.1 clean).agree id hid List.not_mem_nil

/-- The second check changes nothing about a function whose return type the first one decided. -/
theorem check_again_of_inferred :
    let c := new.readAll [lex ⟨"m.kv", "fn f() { ret 1; }"⟩]
    c.checkAll.diagnostics.hasError = false ∧ c.checkAll.Settled ∧
      c.checkAll.checkAll.program = c.checkAll.program := by
  intro c
  have both : c.checkAll.diagnostics.hasError = false ∧ c.checkAll.Settled := by decide +kernel
  exact ⟨both.1, both.2, (check_again (written_readAll written_new _) both.1).2 both.2⟩

/-- When the comparison is checked first, both calls are taken for `Void`; by the second time the
    return type of one of them is `Int`. -/
theorem check_again_refused :
    let c := new.readAll
      [lex ⟨"m.kv", "fn h() { }\nfn f() { if f() == h(): { } ret 1; }"⟩]
    c.checkAll.diagnostics.hasError = false ∧
      c.checkAll.checkAll.diagnostics.hasError = true := by
  decide +kernel

end Compilation
end ObjectLang
