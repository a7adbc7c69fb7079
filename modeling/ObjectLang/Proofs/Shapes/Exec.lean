import ObjectLang.Proofs.Machine.Return
import ObjectLang.Proofs.Scoping.Exec
import ObjectLang.Proofs.Shapes.Eval
set_option autoImplicit false

/-!
# Statements keep shapes

A checked statement of a program that keeps shapes leaves heap and variables as they are described,
or ends with a fault and a heap that is. As long as the call has not returned, its variables mirror
the names that are visible behind the statement; afterwards they still do where the segment is
closed.
-/

namespace ObjectLang.Machine

open Eval Typing

variable {α β : Type} {types : Registry} {R : Shape} {depth : Nat} {Γ Γ' Δ : Scopes Meaning}
  {W W' : World} {s t : State}

structure Lasts (types : Registry) (R : Shape) (depth : Nat) (Γ : Scopes Meaning) (W : World)
    (s : State) : Prop where
  heap : W.Describes types s.heap
  scopes : s.returned = none → Mirrors types W (depth + 1) Γ s.scopes
  outer : Mirrors types W depth Γ.closeSegment s.scopes.closeSegment
  returned : ∀ v ∈ s.returned, v.Fits types W R

namespace Lasts

theorem stands (h : Lasts types R depth Γ W s) (goes : s.returned = none) :
    Stands types (depth + 1) Γ W s := ⟨h.heap, h.scopes goes⟩

theorem of_stands (h : Stands types (depth + 1) Γ W s) (goes : s.returned = none) :
    Lasts types R depth Γ W s :=
  ⟨h.heap, fun _ => h.scopes, h.scopes.closed, fun v mem => by rw [goes] at mem; cases mem⟩

theorem moved (h : Lasts types R depth Γ W s) (moved : Moved types W s W' t) :
    Lasts types R depth Γ W' t := by
  obtain ⟨⟨scopes, returned⟩, grows, heap⟩ := moved
  refine ⟨heap, fun goes => ?_, ?_, fun v mem => ?_⟩
  · exact scopes ▸ (h.scopes (returned ▸ goes)).grows grows
  · exact scopes ▸ h.outer.grows grows
  · exact (h.returned v (returned ▸ mem)).grows grows

theorem skips (h : Lasts types R depth Γ W s) (ended : s.returned ≠ none)
    (same : Γ'.closeSegment = Γ.closeSegment) : Lasts types R depth Γ' W s :=
  ⟨h.heap, fun goes => absurd goes ended, same ▸ h.outer, h.returned⟩

theorem opened (h : Lasts types R depth Γ W s) (goes : s.returned = none) :
    Lasts types R (depth + 1) (Γ.openSegment []) W s.opened :=
  of_stands ⟨h.heap, .opened (depth + 1) Γ s.scopes (h.scopes goes)⟩ goes

end Lasts

/-- The evaluation ends where `P` holds of what is known then, or with a fault and a described heap. -/
def Runs (types : Registry) (W : World) (P : World → α → State → Prop) (x : Eval α) (s : State) :
    Prop :=
  (x s).Meets (fun v t => ∃ W', W.Grows W' ∧ P W' v t)
    fun _ t => ∃ W' : World, W'.Describes types t.heap

namespace Runs

variable {P P' : World → α → State → Prop} {Q : World → β → State → Prop} {x : Eval α}
  {f : α → Eval β}

theorem mono (h : Runs types W P x s) (imp : ∀ W' v t, W.Grows W' → P W' v t → P' W' v t) :
    Runs types W P' x s := by
  refine Outcome.Meets.mono h (fun v t ⟨W', grows, holds⟩ => ?_) fun _ _ h => h
  exact ⟨W', grows, imp W' v t grows holds⟩

theorem bind (hx : Runs types W P x s)
    (hf : ∀ W' v t, W.Grows W' → P W' v t → Runs types W' Q (f v) t) :
    Runs types W Q (x >>= f) s := by
  refine meets_bind hx fun v t ⟨W', grows, holds⟩ => ?_
  refine Outcome.Meets.mono (hf W' v t grows holds) (fun w u ⟨W'', grows', r⟩ => ?_) fun _ _ h => h
  exact ⟨W'', grows.trans grows', r⟩

theorem pure {v : α} (holds : P W v s) : Runs types W P (Pure.pure v : Eval α) s :=
  ⟨W, .refl W, holds⟩

theorem of_sound {Q : World → α → Prop} (h : Lasts types R depth Γ W s) (sound : Sound types W Q x s) :
    Runs types W (fun W' v t => Lasts types R depth Γ W' t ∧ t.returned = s.returned ∧ Q W' v) x s := by
  refine Outcome.Meets.mono sound (fun v t ⟨W', moved, q⟩ => ?_) fun _ _ h => h
  exact ⟨W', moved.grows, h.moved moved, moved.frame.2, q⟩

theorem inScope {x : Eval α} (closed : Δ.closeSegment = Γ)
    (h : Runs types W (fun W' _ t => Lasts types R (depth + 1) Δ W' t) x s.opened) :
    Runs types W (fun W' _ t => Lasts types R depth Γ W' t) (inScope x) s := by
  refine meets_closing (Outcome.Meets.mono h (fun _ t ⟨W', grows, lasts⟩ => ?_) fun _ _ h => h)
  have outer : Mirrors types W' (depth + 1) Γ t.scopes.closeSegment := closed ▸ lasts.outer
  exact ⟨W', grows, lasts.heap, fun _ => outer, outer.closed, lasts.returned⟩

theorem loop {J : World → State → Prop} {test : Eval Bool} {body : Eval Unit}
    (htest : ∀ W s, J W s →
      Runs types W (fun W' again t => J W' t ∧ (again = true → t.returned = none)) test s)
    (hbody : ∀ W s, J W s → s.returned = none → Runs types W (fun W' _ t => J W' t) body s)
    (rounds : Nat) (h : J W s) :
    Runs types W (fun W' _ t => J W' t) (Eval.loop test body rounds) s := by
  induction rounds generalizing W s with
  | zero => trivial
  | succ rounds ih =>
    rw [loop_succ]
    refine (htest W s h).bind fun W' again t _ ⟨holds, goes⟩ => ?_
    cases again with
    | false => exact .pure holds
    | true => exact (hbody W' t holds (goes rfl)).bind fun W'' _ u _ holds => ih holds

end Runs

/-- One round of a counting loop: the body, and then the step, unless the call has returned. -/
theorem Runs.round {body step : Eval Unit}
    (hbody : Runs types W (fun W' _ t => Lasts types R depth Γ W' t) body s)
    (hstep : ∀ W t, Lasts types R depth Γ W t → t.returned = none →
      Runs types W (fun W' _ t => Lasts types R depth Γ W' t) step t) :
    Runs types W (fun W' _ t => Lasts types R depth Γ W' t)
      (do body; if ← hasReturned then Pure.pure () else step) s := by
  refine hbody.bind fun W' _ t _ lasts => ?_
  unfold Runs
  rw [hasReturned_bind]
  cases returned : t.returned with
  | some v => exact ⟨W', .refl W', lasts⟩
  | none => exact hstep W' t lasts returned

section Statements

variable {p : Program} {entered : List FunctionId} {returns : FunctionId → TypeId → Prop}
  {c : Context} {current : FunctionId}

theorem runs_condition (w : Setting p entered returns c) {e : Expr} {type : TypeId}
    (typed : HasType p returns Γ e type) (keeps : e.keepsShapes p = true)
    (h : Lasts p.types R depth Γ W s) (goes : s.returned = none) (line : Nat) :
    Runs p.types W (fun W' _ t => Lasts p.types R depth Γ W' t ∧ t.returned = none)
      (condition c e line) s := by
  have sound := sound_eval w e typed keeps (e.flows_any p) (h.stands goes)
  have tested : Sound p.types W (fun _ _ => True) (condition c e line) s :=
    sound.bind fun _ _ _ moved _ => (Sound.ofExcept moved.heap line _).mono fun _ _ _ _ => trivial
  exact (Runs.of_sound h tested).mono fun _ _ _ _ ⟨lasts, same, _⟩ => ⟨lasts, same.trans goes⟩

theorem runs_goesOn (w : Setting p entered returns c) {e : Expr} {type : TypeId}
    (typed : HasType p returns Γ e type) (keeps : e.keepsShapes p = true)
    (h : Lasts p.types R depth Γ W s) (line : Nat) :
    Runs p.types W (fun W' again t => Lasts p.types R depth Γ W' t ∧
      (again = true → t.returned = none)) (goesOn c e line) s := by
  cases returned : s.returned with
  | some v =>
    have run : goesOn c e line s = .done false s := by
      unfold goesOn
      rw [hasReturned_bind, returned]
      rfl
    unfold Runs
    rw [run]
    exact ⟨W, .refl W, h, fun no => Bool.noConfusion no⟩
  | none =>
    have run : goesOn c e line s = condition c e line s := by
      unfold goesOn
      rw [hasReturned_bind, returned]
      rfl
    unfold Runs
    rw [run]
    exact (runs_condition w typed keeps h returned line).mono fun _ _ _ _ ⟨lasts, goes⟩ =>
      ⟨lasts, fun _ => goes⟩

theorem runs_writeVar (h : Lasts types R depth Γ W s) (goes : s.returned = none) {name : String}
    {type : TypeId} (bound : Γ.get? name = some (.value type)) {v : Value}
    (fits : v.Fits types W (types.shape type)) (line : Nat) :
    Runs types W (fun W' _ t => Lasts types R depth Γ W' t) (writeVar name v line) s := by
  unfold Runs writeVar
  cases done : s.scopes.set? name v with
  | some scopes =>
    have kept := (h.scopes goes).set? bound fits done
    exact ⟨W, .refl W, .of_stands ⟨h.heap, kept⟩ goes⟩
  | none => exact ⟨W, h.heap⟩

theorem sound_setField (hW : W.Describes p.types s.heap) (agree : p.FieldsAgree) {base v : Value}
    {owner field : TypeId} {name : String} (fits : base.Fits p.types W (.object owner))
    (declared : p.types.fieldType? owner name = some field)
    (holds : v.Fits p.types W (p.types.shape field)) (line : Nat) :
    Sound p.types W (fun _ _ => True) (do
      let ref ← Eval.ofExcept line base.asObject
      Eval.onHeap fun h => ((), h.setField ref name v)) s := by
  refine (Sound.ofExcept hW line base.asObject).bind fun W' ref t moved is => ?_
  have fits := Value.eq_object_of_asObject is ▸ fits.grows moved.grows
  exact .onHeap ⟨W', .refl W', moved.heap.setField agree fits declared (holds.grows moved.grows),
    trivial⟩

theorem sound_writeSlot (hW : W.Describes types s.heap) {ref : ArrayRef} {slots : Shape} {v : Value}
    (fits : (Value.array ref).Fits types W (.array slots)) (holds : v.Fits types W slots.asSlot)
    (index : Value) (line : Nat) :
    Sound types W (fun _ _ => True) (writeSlot ref index v line) s := by
  refine (Sound.ofExcept hW line index.asInt).bind fun W₁ i s₁ moved₁ _ => ?_
  refine Sound.read ?_
  refine (Sound.ofExcept moved₁.heap line _).bind fun W₂ place s₂ moved₂ _ => ?_
  have grows := (moved₁.trans moved₂).grows
  have stored := moved₂.heap.setSlot (fits.grows grows) (holds.grows grows) place
  exact .onHeap ⟨W₂, .refl W₂, stored, trivial⟩

/-- What is stored stays where it passes for what is there. -/
theorem runs_store (w : Setting p entered returns c) {target : Expr} {type : TypeId}
    (place : HasType p returns Γ target type) (keeps : target.keepsShapes p = true) {v : Value}
    (h : Lasts p.types R depth Γ W s) (goes : s.returned = none)
    (fits : v.Fits p.types W (p.placeShape target)) (line : Nat) :
    Runs p.types W (fun W' _ t => Lasts p.types R depth Γ W' t) (store c target v line) s := by
  cases place with
  | var name _ at_ bound => exact runs_writeVar h goes bound fits line
  | field base name at_ owner _ object rule =>
    obtain ⟨keeps, isObject⟩ := Bool.and_eq_true_iff.1 keeps
    obtain ⟨keeps, steady⟩ := Bool.and_eq_true_iff.1 keeps
    cases shape : p.shape base with
    | object owner' =>
      have declared := object.fieldType?_of_shape w.tables w.settles rule shape
      have sound := (sound_eval w base object keeps steady (h.stands goes)).bind
        fun _ _ _ moved found => sound_setField moved.heap w.shapes.fields (shape ▸ found) declared
          (fits.grows moved.grows) line
      exact (Runs.of_sound h sound).mono fun _ _ _ _ ⟨lasts, _⟩ => lasts
    | _ => rw [shape] at isObject; cases isObject
  | index base index at_ array index' _ stored rule placed int =>
    obtain ⟨keeps, keepsP⟩ := Bool.and_eq_true_iff.1 keeps
    obtain ⟨keepsB, steady⟩ := Bool.and_eq_true_iff.1 keeps
    obtain ⟨shape, read⟩ := stored.shape_of_elementType w.tables w.settles rule index at_
    have fits : v.Fits p.types W (p.shape (.index base index at_)).asSlot := fits
    rw [read] at fits
    have stands := h.stands goes
    have sound : Sound p.types W (fun _ _ => True) (store c (.index base index at_) v line) s := by
      refine (sound_eval w base stored keepsB steady stands).bind fun _ b _ moved₁ found => ?_
      have stands := stands.moved moved₁
      refine (Sound.ofExcept moved₁.heap line b.asArray).bind fun _ ref _ moved₂ is => ?_
      have stands := stands.moved moved₂
      refine (sound_eval w index placed keepsP (index.flows_any p) stands).bind
        fun _ _ _ moved₃ _ => ?_
      have found := Value.eq_array_of_asArray is ▸ shape ▸
        (found.grows moved₂.grows).grows moved₃.grows
      have grows := ((moved₁.trans moved₂).trans moved₃).grows
      exact sound_writeSlot moved₃.heap found ((Shape.asSlot_asSlot _).symm ▸ fits.grows grows) _ line
    exact (Runs.of_sound h sound).mono fun _ _ _ _ ⟨lasts, _⟩ => lasts
  | _ => exact ⟨W, h.heap⟩

theorem runs_call (w : Setting p entered returns c) {callee : Expr} {arguments : List Expr}
    {target : FunctionId} {injected : Bool} {line : Nat} {type : TypeId}
    (typed : HasType p returns Γ (.call callee arguments (some target) injected line) type)
    (keeps : (Expr.call callee arguments (some target) injected line).keepsShapes p = true)
    (h : Lasts p.types R depth Γ W s) (goes : s.returned = none) :
    Runs p.types W (fun W' _ t => Lasts p.types R depth Γ W' t)
      (exec c (.call callee arguments (some target) injected line)) s := by
  have sound := (sound_eval w _ typed keeps (Expr.flows_any p _) (h.stands goes)).bind
    fun _ _ _ moved _ => Sound.pure (Q := fun _ (_ : Unit) => True) (v := ()) moved.heap trivial
  rw [Side.exec_call]
  exact (Runs.of_sound h sound).mono fun _ _ _ _ ⟨lasts, _⟩ => lasts

theorem Runs.branch {body : Statement} {x : Eval Unit}
    (inside : Checks p returns current (Γ.openSegment []) body Δ)
    (h : Runs types W (fun W' _ t => Lasts types R (depth + 1) Δ W' t) x s.opened) :
    Runs types W (fun W' _ t => Lasts types R depth Γ W' t) (Eval.inScope x) s :=
  .inScope (inside.closeSegment.trans (Scopes.closeSegment_openSegment Γ [])) h

mutual

/-- A checked statement keeps what lasts. -/
theorem runs_exec (w : Setting p entered returns c) (st : Statement)
    {depth : Nat} {Γ Γ' : Scopes Meaning} {W : World} {s : State}
    (checks : Checks p returns current Γ st Γ') (keeps : st.keepsShapes p current = true)
    (h : Lasts p.types (p.types.shape (p.function current).returnType) depth Γ W s)
    (goes : s.returned = none) :
    Runs p.types W
      (fun W' _ t => Lasts p.types (p.types.shape (p.function current).returnType) depth Γ' W' t)
      (exec c st) s := by
  cases checks with
  | block _ Δ statements line inside =>
    refine Runs.inScope ?_ (runs_execAll w statements inside keeps (h.opened goes))
    exact inside.closeSegment.trans (Scopes.closeSegment_openSegment Γ [])
  | declare _ name written value nameLine line found type typed fresh filled known rule =>
    obtain ⟨keeps, _⟩ := Bool.and_eq_true_iff.1 keeps
    obtain ⟨keeps, flows⟩ := Bool.and_eq_true_iff.1 keeps
    have sound := sound_eval w value typed keeps flows (h.stands goes)
    refine (Runs.of_sound h sound).bind fun W' v t _ ⟨lasts, same, fits⟩ => ?_
    have goes := same.trans goes
    exact ⟨W', .refl W', .of_stands ⟨lasts.heap, .push depth Γ t.scopes name type v
      (lasts.scopes goes) fits⟩ goes⟩
  | assign _ target written value line found type typed place rule =>
    obtain ⟨keeps, keepsT⟩ := Bool.and_eq_true_iff.1 keeps
    obtain ⟨keeps, flows⟩ := Bool.and_eq_true_iff.1 keeps
    have sound := sound_eval w value typed keeps flows (h.stands goes)
    refine (Runs.of_sound h sound).bind fun W' v t _ ⟨lasts, same, fits⟩ => ?_
    exact runs_store w place keepsT lasts (same.trans goes) fits line
  | ret _ value line type typed rule =>
    obtain ⟨keeps, flows⟩ := Bool.and_eq_true_iff.1 keeps
    have sound := sound_eval w value typed keeps flows (h.stands goes)
    refine (Runs.of_sound h sound).bind fun W' v t _ ⟨lasts, _, fits⟩ => ?_
    refine ⟨W', .refl W', lasts.heap, fun open_ => absurd open_ (Option.some_ne_none v), lasts.outer,
      fun u mem => ?_⟩
    cases mem
    exact fits
  | ifThen _ Δ test body line holds inside =>
    obtain ⟨keepsT, keepsB⟩ := Bool.and_eq_true_iff.1 keeps
    refine (runs_condition w holds keepsT h goes line).bind fun W' again t _ ⟨lasts, goes⟩ => ?_
    cases again with
    | false => exact .pure lasts
    | true => exact .branch inside (runs_exec w body inside keepsB (lasts.opened goes) goes)
  | ifElse _ Δ Δ' test body otherwise line holds inside inside' =>
    obtain ⟨keeps, keepsO⟩ := Bool.and_eq_true_iff.1 keeps
    obtain ⟨keepsT, keepsB⟩ := Bool.and_eq_true_iff.1 keeps
    refine (runs_condition w holds keepsT h goes line).bind fun W' again t _ ⟨lasts, goes⟩ => ?_
    cases again with
    | false => exact .branch inside' (runs_exec w otherwise inside' keepsO (lasts.opened goes) goes)
    | true => exact .branch inside (runs_exec w body inside keepsB (lasts.opened goes) goes)
  | whileLoop _ Δ test body line holds inside =>
    obtain ⟨keepsT, keepsB⟩ := Bool.and_eq_true_iff.1 keeps
    refine Runs.loop (fun W s h => runs_goesOn w holds keepsT h line) (fun W s h goes => ?_) _ h
    exact .branch inside (runs_exec w body inside keepsB (h.opened goes) goes)
  | forLoop _ Γ'' Δ first test step body line begins holds steps inside =>
    obtain ⟨keeps, keepsB⟩ := Bool.and_eq_true_iff.1 keeps
    obtain ⟨keeps, keepsS⟩ := Bool.and_eq_true_iff.1 keeps
    obtain ⟨keepsF, keepsT⟩ := Bool.and_eq_true_iff.1 keeps
    refine .branch begins ?_
    refine (runs_exec w first begins keepsF (h.opened goes) goes).bind fun W' _ t _ lasts => ?_
    refine Runs.loop (fun W s h => runs_goesOn w holds keepsT h line) (fun W s h goes => ?_) _ lasts
    refine .round (.branch inside (runs_exec w body inside keepsB (h.opened goes) goes)) ?_
    exact fun W t lasts goes => runs_exec w step steps keepsS lasts goes
  | call _ callee arguments target injected line type typed =>
    cases typed with
    | call _ _ target _ _ types _ leads typed arity pairs receiver result =>
      exact runs_call w (.call callee arguments target injected line types type leads typed arity pairs
        receiver result) keeps h goes
termination_by structural st

theorem runs_execAll (w : Setting p entered returns c) (sts : List Statement)
    {depth : Nat} {Γ Γ' : Scopes Meaning} {W : World} {s : State}
    (checks : ChecksAll p returns current Γ sts Γ')
    (keeps : Statement.allKeepShapes p current sts = true)
    (h : Lasts p.types (p.types.shape (p.function current).returnType) depth Γ W s) :
    Runs p.types W
      (fun W' _ t => Lasts p.types (p.types.shape (p.function current).returnType) depth Γ' W' t)
      (execAll c sts) s := by
  cases checks with
  | nil => exact .pure h
  | cons _ Γ'' _ statement rest head tail =>
    obtain ⟨keepsS, keepsR⟩ := Bool.and_eq_true_iff.1 keeps
    unfold Runs execAll
    rw [hasReturned_bind]
    cases returned : s.returned with
    | some v =>
      -- What is left is skipped, and the names that it would declare are never looked up.
      have same := tail.closeSegment.trans head.closeSegment
      exact ⟨W, .refl W, h.skips (returned ▸ Option.some_ne_none v) same⟩
    | none =>
      exact (runs_exec w statement head keepsS h returned).bind fun W' _ t _ lasts =>
        runs_execAll w rest tail keepsR lasts
termination_by structural sts

end

end Statements
end ObjectLang.Machine
