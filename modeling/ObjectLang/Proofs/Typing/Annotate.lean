import ObjectLang.Proofs.Calls.Kept
import ObjectLang.Proofs.Typing.Trail
set_option autoImplicit false

/-!
# The checker only annotates

Whatever is checked, in whatever program and with whatever errors: bodies get notes that can be erased
again, a return type that is open may be decided, and array and reference types are registered behind
the others. Nothing else of a program changes. Since every part of a run does no more than that, a return
type that was decided stays.
-/

namespace ObjectLang

/-- Array and reference types are added, and no others; what is known keeps its place. -/
structure Registry.Gains (r r' : Registry) : Prop where
  grows : r.Grows r'
  gained : ∀ id, ¬r.Knows id → r'.Knows id →
    ∃ component, r'.get id = .array component ∨ r'.get id = .reference component

namespace Registry.Gains

theorem refl (r : Registry) : Gains r r := ⟨.refl r, fun _ fresh known => absurd known fresh⟩

theorem trans {r r' r'' : Registry} (h : Gains r r') (h' : Gains r' r'') : Gains r r'' := by
  refine ⟨h.grows.trans h'.grows, fun id fresh known => ?_⟩
  by_cases before : r'.Knows id
  · rw [h'.grows.get_eq before]
    exact h.gained id fresh before
  · exact h'.gained id before known

theorem intern (r : Registry) (found : Option TypeId) {component : TypeId} {t : Ty}
    (one : t.components = [component]) (plain : t = .array component ∨ t = .reference component) :
    Gains r (r.intern found component t one).2 := by
  refine ⟨grows_intern r found component t one, fun id fresh known => ⟨component, ?_⟩⟩
  rcases intern_cases r found component t one with same | ⟨before, same⟩
  · rw [same] at known
    exact absurd known fresh
  · rw [same] at known ⊢
    have size : id.index < r.size + 1 := size_add r t before ▸ known
    have last : id.index = r.size := Nat.le_antisymm (Nat.le_of_lt_succ size) (Nat.le_of_not_lt fresh)
    rw [get_add, if_pos last]
    exact plain

theorem arrayOf (r : Registry) (element : TypeId) : Gains r (r.arrayOf element).2 :=
  intern r _ rfl (.inl rfl)

theorem referenceTo (r : Registry) (referent : TypeId) : Gains r (r.referenceTo referent).2 :=
  intern r _ rfl (.inr rfl)

end Registry.Gains

/-- The function with notes in its body, and with a return type that may be decided if it is open and
    not declared. -/
structure Function.Annotates (f g : Function) : Prop where
  declared : g.declared = f.declared
  returnType : g.returnType = f.returnType ∨
    f.traits.isExplicit = false ∧ f.returnType = .void ∧ g.returnType ≠ .void
  body : Statement.allErased g.body = Statement.allErased f.body
  targets : Kept (Statement.allTargets f.body) (Statement.allTargets g.body)

namespace Function.Annotates

variable {f g h : Function}

theorem refl (f : Function) : Annotates f f := ⟨rfl, .inl rfl, rfl, .refl _⟩

/-- A return type is decided once. -/
theorem returnType_eq (first : Annotates f g) (second : Annotates g h)
    (decided : g.returnType ≠ f.returnType) : h.returnType = g.returnType := by
  rcases first.returnType with same | ⟨-, -, filled⟩
  · exact absurd same decided
  · rcases second.returnType with same | ⟨-, empty, -⟩
    · exact same
    · exact absurd empty filled

theorem trans (first : Annotates f g) (second : Annotates g h) : Annotates f h where
  declared := second.declared.trans first.declared
  returnType := by
    rcases first.returnType with same | decided
    · rcases second.returnType with same' | ⟨inferred, empty, filled⟩
      · exact .inl (same'.trans same)
      · have traits : g.traits = f.traits := by
          have both := congrArg Function.traits first.declared
          exact both
        exact .inr ⟨traits ▸ inferred, same ▸ empty, filled⟩
    · obtain ⟨inferred, empty, filled⟩ := decided
      have stays := first.returnType_eq second fun same => filled (same.trans empty)
      exact .inr ⟨inferred, empty, stays.symm ▸ filled⟩
  body := second.body.trans first.body
  targets := first.targets.trans second.targets

end Function.Annotates

structure Program.Annotates (p q : Program) : Prop where
  size : q.functions.size = p.functions.size
  functions : ∀ id, (p.function id).Annotates (q.function id)
  types : p.types.Gains q.types

namespace Program.Annotates

variable {p q r : Program}

theorem refl (p : Program) : Annotates p p := ⟨rfl, fun _ => .refl _, .refl _⟩

theorem trans (h : Annotates p q) (h' : Annotates q r) : Annotates p r :=
  ⟨h'.size.trans h.size, fun id => (h.functions id).trans (h'.functions id),
    h.types.trans h'.types⟩

theorem of_types (h : p.types.Gains q.types) (same : q.functions = p.functions) :
    Annotates p q := by
  refine ⟨congrArg Arena.size same, fun id => ?_, h⟩
  rw [function, function, same]
  exact .refl _

theorem replace (h : Annotates p q) {id : FunctionId} {change : Function → Function}
    (replaced : (p.function id).Annotates (change (q.function id))) :
    Annotates p (q.modifyFunction id change) := by
  by_cases declares : q.Declares id
  · refine ⟨(size_modifyFunction q id change).trans h.size, fun other => ?_, h.types⟩
    rw [function_modifyFunction q change declares]
    split
    · rename_i same
      exact same ▸ replaced
    · exact h.functions other
  · rw [modifyFunction_of_not_declares declares]
    exact h

end Program.Annotates

namespace Typing

theorem Change.annotates {current : FunctionId} {s t : State} (h : Change current s t) :
    s.program.Annotates t.program := by
  cases h with
  | array element => exact .of_types (.arrayOf _ element) rfl
  | reference referent => exact .of_types (.referenceTo _ referent) rfl
  | names scopes => exact .refl _
  | error line e => exact .refl _
  | decision type filled infers =>
    obtain ⟨inferred, empty⟩ := Bool.and_eq_true_iff.1 infers
    refine (Program.Annotates.refl s.program).replace ⟨rfl, .inr ⟨?_, ?_, filled⟩, rfl, .refl _⟩
    · exact Bool.not_eq_eq_eq_not.1 inferred
    · exact beq_iff_eq.1 empty

theorem Trail.annotates {current : FunctionId} {s t : State} {log : List Request}
    (h : Trail current s log t) (requests : ∀ a ∈ log, a.before.program.Annotates a.after.program) :
    s.program.Annotates t.program :=
  (h.keeps (R := fun s t => s.program.Annotates t.program) (fun _ => .refl _)
    Program.Annotates.trans Change.annotates requests).1

def Context.Annotating (c : Context) : Prop :=
  ∀ target (s : State), s.program.Annotates (c.checkTarget target s).program

theorem Traced.annotates {α : Type} {c : Context} {F : Context → α} {s t : State}
    (h : Traced c s F t) (annotating : c.Annotating) : s.program.Annotates t.program := by
  obtain ⟨log, trail, given, -⟩ := h
  exact trail.annotates fun a ha => given a ha ▸ annotating a.target a.before

theorem annotates_checkBody {c : Context} (annotating : c.Annotating) (m : Module) (s : State) :
    s.program.Annotates (checkBody c m s).program := by
  let f := s.program.function c.current
  have inside := (traced_checkAll (c := c) f.body (s.enter m f)).annotates annotating
  have whole := inside.functions c.current
  exact inside.replace ⟨whole.declared, whole.returnType, erased_checkAll f.body _,
    kept_checkAll f.body _⟩

theorem annotates_checkWithin (modules : List Module) (depth : Nat) (id : FunctionId) (s : State) :
    s.program.Annotates (checkWithin modules depth id s).program := by
  induction depth generalizing id s with
  | zero => exact .refl _
  | succ depth ih =>
    unfold checkWithin
    split
    · exact .refl _
    · dsimp only
      split
      · exact .refl _
      · split
        · exact .refl _
        · rename_i m _
          exact annotates_checkBody (c := ⟨modules, id, checkWithin modules depth⟩) ih m
            (s.markChecked id)

theorem annotates_foldl (modules : List Module) (ids : List FunctionId) (s : State) :
    s.program.Annotates (ids.foldl (fun s id => checkFunction modules id s) s).program := by
  induction ids generalizing s with
  | nil => exact .refl _
  | cons id rest ih => exact (annotates_checkWithin modules _ id s).trans (ih _)

theorem annotates_checkModule (modules : List Module) (index : Nat) (s : State) :
    s.program.Annotates (checkModule modules index s).program := by
  unfold checkModule
  split
  · exact .refl _
  · exact annotates_foldl modules _ s

/-- Checking a function, a module or any statement on the way annotates the program, whatever state it
    begins in and whether it has errors or not; and the statement that comes of a check is the one that
    was checked, with notes. A return type that some checks have changed is not changed by later ones. -/
theorem checks_annotate (modules : List Module) :
    (∀ id (s : State), s.program.Annotates (checkFunction modules id s).program) ∧
    (∀ index (s : State), s.program.Annotates (checkModule modules index s).program) ∧
    (∀ depth id statement (s : State),
      let v := check { modules, current := id, checkTarget := checkWithin modules depth } statement s
      s.program.Annotates v.state.program ∧ v.statement.erased = statement.erased ∧
        Kept statement.targets v.statement.targets) ∧
    (∀ (first rest : List FunctionId) (id : FunctionId) (s : State),
      let t := first.foldl (fun s id => checkFunction modules id s) s
      let u := rest.foldl (fun s id => checkFunction modules id s) t
      (t.program.function id).returnType ≠ (s.program.function id).returnType →
        (u.program.function id).returnType = (t.program.function id).returnType) := by
  refine ⟨fun id s => annotates_checkWithin modules _ id s, annotates_checkModule modules, ?_, ?_⟩
  · intro depth id statement s
    exact ⟨(traced_check statement s).annotates (annotates_checkWithin modules depth),
      erased_check statement s, kept_check statement s⟩
  · intro first rest id s t u decided
    exact ((annotates_foldl modules first s).functions id).returnType_eq
      ((annotates_foldl modules rest t).functions id) decided

end Typing
end ObjectLang
