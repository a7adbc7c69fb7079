import ObjectLang.Proofs.Machine.Watch
import ObjectLang.Proofs.Shapes.Exec
set_option autoImplicit false

/-!
# Calls keep shapes

In a program that keeps shapes, a call of a checked function gives what its return type is meant
for, however deep calls nest.
-/

namespace ObjectLang.Machine

open Eval Typing

variable {p : Program} {entered : List FunctionId} {returns : FunctionId → TypeId → Prop}
  {W : World} {s : State}

/-- The host provides the function, or it has a checked body that keeps shapes. -/
def Fine (p : Program) (returns : FunctionId → TypeId → Prop) (f : FunctionId) : Prop :=
  (p.function f).isNative = true ∨
    (∃ m Γ, ChecksAll p returns f (functionScopes m p (p.function f)) (p.function f).body Γ) ∧
      Statement.allKeepShapes p f (p.function f).body = true

structure Shaped (p : Program) (entered : List FunctionId)
    (returns : FunctionId → TypeId → Prop) : Prop where
  tables : p.Tables
  settles : Settles p entered returns
  shapes : p.KeepsShapes entered
  fine : ∀ f ∈ entered, Fine p returns f

theorem lasts_inCall (hW : W.Describes p.types s.heap) (m : Module) {f : Function}
    {arguments : List Value} {R : Shape} (takes : p.Takes W f arguments) (written : f.isNative = false)
    (arity : arguments.length = f.parameters.length) :
    Lasts p.types R 0 (functionScopes m p f) W (s.inCall f arguments) :=
  .of_stands ⟨hW, .frame m p (takes.parameters written arity)⟩ rfl

theorem sound_inFrame {R : Shape} {Γ : Scopes Meaning} {f : Function} {arguments : List Value}
    {body : Eval Unit}
    (h : Runs p.types W (fun W' _ t => Lasts p.types R 0 Γ W' t) body (s.inCall f arguments)) :
    Sound p.types W (fun W' v => v.Fits p.types W' R)
      (inFrame ((f.parameters.map Parameter.name).zip arguments) body) s := by
  refine meets_inFrame (Outcome.Meets.mono h (fun _ t ⟨W', grows, lasts⟩ => ?_) fun _ _ h => h)
  refine ⟨W', ⟨⟨rfl, rfl⟩, grows, lasts.heap⟩, ?_⟩
  cases returned : t.returned with
  | none => exact Value.fits_of_isScalar rfl
  | some v => exact lasts.returned v returned

theorem Shaped.setting (shaped : Shaped p entered returns) {c : Context} (calls : c.Keeps p entered) :
    Setting p entered returns c := ⟨shaped.tables, shaped.settles, shaped.shapes, calls⟩

theorem runs_body {c : Context} (w : Setting p entered returns c) (hW : W.Describes p.types s.heap)
    {f : FunctionId} (fine : Fine p returns f) (written : (p.function f).isNative = false)
    {arguments : List Value} (takes : p.Takes W (p.function f) arguments)
    (arity : arguments.length = (p.function f).parameters.length) :
    ∃ Γ, Runs p.types W
      (fun W' _ t => Lasts p.types (p.types.shape (p.function f).returnType) 0 Γ W' t)
      (execAll c (p.function f).body) (s.inCall (p.function f) arguments) := by
  obtain ⟨⟨m, Γ, checks⟩, keeps⟩ := fine.resolve_left (Bool.eq_false_iff.1 written)
  exact ⟨Γ, runs_execAll w _ checks keeps (lasts_inCall hW m takes written arity)⟩

theorem sound_callWithin (rounds depth : Nat)
    (w : ∀ earlier < depth, Setting p entered returns (within p rounds earlier))
    (hW : W.Describes p.types s.heap) {f : FunctionId} (fine : Fine p returns f)
    {arguments : List Value} (takes : p.Takes W (p.function f) arguments) (fresh : Shape)
    (line : Nat) :
    Sound p.types W (fun W' v => v.Fits p.types W' (p.given (p.function f) fresh))
      (callWithin p rounds depth f arguments line) s := by
  cases depth with
  | zero => trivial
  | succ depth =>
    unfold callWithin
    dsimp only
    split
    · rename_i arity
      split
      · rename_i host
        exact sound_callNative hW host takes fresh line
      · rename_i written
        have written := Bool.eq_false_iff.2 written
        obtain ⟨Γ, runs⟩ := runs_body (w depth (Nat.lt_succ_self _)) hW fine written takes arity
        have given : p.given (p.function f) fresh = p.types.shape (p.function f).returnType := by
          rw [Program.given, if_neg]
          exact fun host => Bool.eq_false_iff.1 written (Bool.and_eq_true_iff.1 host).1
        rw [given]
        exact sound_inFrame runs
    · exact .fail hW line _

/-- However deep calls nest. -/
theorem Shaped.keeps (shaped : Shaped p entered returns) (rounds depth : Nat) :
    (within p rounds depth).Keeps p entered := by
  induction depth using Nat.strongRecOn with
  | ind depth ih =>
    refine ⟨rfl, fun f known fresh W s arguments line hW takes => ?_⟩
    exact sound_callWithin rounds depth (fun earlier lt => shaped.setting (ih earlier lt)) hW
      (shaped.fine f known) takes fresh line

end ObjectLang.Machine
