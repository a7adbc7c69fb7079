import ObjectLang.Proofs.Grammar.File
import ObjectLang.Proofs.Typing.Function
set_option autoImplicit false

/-!
# Checked compilations

A compilation whose check records no error is typed: all functions that its modules declare have
been entered, and every function that has been entered is typed under the return types that were
found.
-/

namespace ObjectLang

open Typing

namespace Typing

variable {modules : List Module} {depth : Nat} {s : State}

/-- Where modules are checked one after the other: any number of calls may be nested. -/
structure Outside (modules : List Module) (depth : Nat) (s : State) : Prop where
  valid : Valid modules depth s
  deep : s.program.functions.size + 1 = depth

theorem checkFunction_sound (h : Outside modules depth s) {id : FunctionId}
    (declares : s.program.Declares id) (clean : (checkFunction modules id s).Clean) :
    Advances modules depth (fun _ => False) s (checkFunction modules id s) ∧
      id ∈ (checkFunction modules id s).checked := by
  unfold checkFunction at clean ⊢
  rw [h.deep] at clean ⊢
  exact checkWithin_sound modules depth id s h.valid declares clean

theorem Outside.after {t : State} (h : Outside modules depth s)
    (advances : Advances modules depth (fun _ => False) s t) : Outside modules depth t :=
  ⟨advances.valid, advances.evolves.size ▸ h.deep⟩

theorem advances_foldl {α : Type} {step : State → α → State} (keeps : ∀ s a, Keeps s (step s a))
    {P : α → State → Prop} (kept : ∀ a s t, Keeps s t → P a s → P a t) (as : List α)
    (hstep : ∀ a ∈ as, ∀ s, Outside modules depth s → (step s a).Clean →
      Advances modules depth (fun _ => False) s (step s a) ∧ P a (step s a))
    (h : Outside modules depth s) (clean : (as.foldl step s).Clean) :
    Advances modules depth (fun _ => False) s (as.foldl step s) ∧
      ∀ a ∈ as, P a (as.foldl step s) := by
  induction as generalizing s with
  | nil => exact ⟨.refl h.valid fun _ no => no.elim, List.forall_mem_nil _⟩
  | cons a rest ih =>
    have behind := keeps_foldl keeps rest (step s a)
    obtain ⟨first, done⟩ := hstep a List.mem_cons_self s h (behind.clean clean)
    obtain ⟨others, all⟩ := ih (fun b hb => hstep b (List.mem_cons_of_mem _ hb)) (h.after first) clean
    refine ⟨first.trans others, fun b hb => ?_⟩
    rcases List.mem_cons.1 hb with rfl | hb
    · exact kept b _ _ behind done
    · exact all b hb

def Entered (modules : List Module) (index : Nat) (s : State) : Prop :=
  ∀ m ∈ modules[index]?, ∀ id ∈ m.ownFunctions, id ∈ s.checked

theorem checkModule_sound (index : Nat) (h : Outside modules depth s)
    (clean : (checkModule modules index s).Clean) :
    Advances modules depth (fun _ => False) s (checkModule modules index s) ∧
      Entered modules index (checkModule modules index s) := by
  unfold Entered
  unfold checkModule at clean ⊢
  split at clean <;> rename_i hm
  · rw [hm]
    refine ⟨.refl h.valid fun _ no => no.elim, fun m mem => ?_⟩
    cases mem
  · rename_i m
    rw [hm]
    have declared (t : State) (ht : Outside modules depth t) (id : FunctionId)
        (hid : id ∈ m.ownFunctions) : t.program.Declares id :=
      (ht.valid.visible m (List.mem_of_getElem? hm)).functions id (List.mem_append_right _ hid)
    obtain ⟨advances, all⟩ := advances_foldl (P := fun id t => id ∈ t.checked)
      (fun s id => keeps_checkFunction modules id s) (fun id s t keeps => keeps.toLater.mem)
      m.ownFunctions (fun id hid t ht => checkFunction_sound ht (declared t ht id hid)) h clean
    refine ⟨advances, ?_⟩
    rintro _ ⟨⟩ id hid
    exact all id hid

end Typing

namespace Compilation

variable {c : Compilation}

theorem outside_unchecked (h : Library c.modules c.program) :
    Outside c.modules (c.program.functions.size + 1) c.unchecked := by
  refine ⟨⟨h.program.toTables, h.modules, h.read, fun id _ => h.program.bodies id, .nil, nofun, ?_⟩,
    rfl⟩
  exact Nat.lt_succ_self _

/-- What a check without errors has established. -/
structure Accepted (c : Compilation) (t : Typing.State) : Prop where
  later : Later (fun _ => False) c.unchecked t
  tables : t.program.Tables
  visible : ∀ m ∈ c.modules, m.Closed t.program
  declared : ∀ id ∈ t.checked, t.program.Declares id
  entered : ∀ index m, 1 ≤ index → c.modules[index]? = some m →
    ∀ id ∈ m.ownFunctions, id ∈ t.checked
  correct : ∀ id ∈ t.checked, Correct c.modules t id
  walked : ∀ id ∈ t.checked, Walked c.modules (c.program.function id).body t id

theorem accepted_checkFrom (h : Library c.modules c.program)
    (clean : (c.checkFrom 1 c.unchecked).Clean) : c.Accepted (c.checkFrom 1 c.unchecked) := by
  obtain ⟨advances, all⟩ := advances_foldl (P := fun index t => Entered c.modules index t)
    (fun s index => keeps_checkModule c.modules index s)
    (fun index s t keeps entered m hm id hid => keeps.toLater.mem (entered m hm id hid))
    ((List.range c.modules.length).drop 1)
    (fun index _ t ht => checkModule_sound index ht) (outside_unchecked h) clean
  have sound (id : FunctionId) (hid : id ∈ (c.checkFrom 1 c.unchecked).checked) :=
    advances.sound id hid List.not_mem_nil (fun _ => False) _ not_false (.refl _ _)
  refine ⟨advances.toLater, advances.valid.tables, advances.valid.visible, advances.valid.declared,
    ?_, fun id hid => (sound id hid).1, fun id hid => (sound id hid).2⟩
  intro index m positive hm id hid
  have inside : index ∈ (List.range c.modules.length).drop 1 := by
    have lt := (List.getElem?_eq_some_iff.1 hm).1
    simp only [List.range_eq_range', List.drop_range', List.mem_range'_1]
    omega
  exact all index inside m hm id hid

end Compilation
end ObjectLang
