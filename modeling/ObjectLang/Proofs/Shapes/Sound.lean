import ObjectLang.Proofs.Machine.Frame
import ObjectLang.Proofs.Shapes.World
set_option autoImplicit false

/-!
# Evaluations that keep shapes

An evaluation is sound if it leaves a heap that can be described again, with what was known before
and more, and gives a value that fits there. The operations of the host are sound, and so are calls
of a bound target, whatever runs in its place.
-/

namespace ObjectLang

theorem Value.eq_array_of_asArray {v : Value} {ref : ArrayRef} (h : v.asArray = .ok ref) :
    v = .array ref := by
  unfold asArray at h
  split at h <;> cases h
  rfl

theorem Value.eq_object_of_asObject {v : Value} {ref : ObjectRef} (h : v.asObject = .ok ref) :
    v = .object ref := by
  unfold asObject at h
  split at h <;> cases h
  rfl

theorem Function.isHost_iff {f : Function} {native : Machine.Native} (written : f.isNative = true)
    (named : Machine.Native.named? f.name = some native) (other : Machine.Native) :
    f.isHost other = true ↔ other = native := by
  rw [isHost, written, named, Bool.true_and, beq_iff_eq, Option.some.injEq, eq_comm]

/-- What a call gives; a fresh array of the host is of the shape that it is taken for. -/
def Program.given (p : Program) (f : Function) (fresh : Shape) : Shape :=
  if f.isHost .malloc then .array fresh else p.types.shape f.returnType

theorem Program.Alike.given_eq {p : Program} {entered : List FunctionId} {type : TypeId}
    {f g : FunctionId} (alike : p.Alike entered type f g) (fresh : Shape) :
    p.given (p.function g) fresh = p.given (p.function f) fresh := by
  have foreign {h : FunctionId} (written : (p.function h).isNative = false) :
      ¬(p.function h).isHost .malloc = true :=
    fun host => Bool.eq_false_iff.1 written (Bool.and_eq_true_iff.1 host).1
  rw [Program.given, if_neg (foreign alike.written.2), Program.given,
    if_neg (foreign alike.written.1), alike.result]

structure Program.Takes (p : Program) (W : World) (f : Function) (arguments : List Value) :
    Prop where
  known : ∀ v ∈ arguments, v.Fits p.types W .any
  copies : f.isHost .memcpy = true → ∀ dest src rest, arguments = dest :: src :: rest →
    ∃ slots, dest.Fits p.types W (.array slots) ∧ src.Fits p.types W (.array slots)
  parameters : f.isNative = false → arguments.length = f.parameters.length →
    List.Forall₂ (fun s v => Value.Fits p.types W s v) (f.parameterTypes.map p.types.shape) arguments

namespace Machine

open Eval

variable {α β : Type} {types : Registry} {W W' : World} {s t : State}

structure Moved (types : Registry) (W : World) (s : State) (W' : World) (t : State) : Prop where
  frame : SameFrame s t
  grows : W.Grows W'
  heap : W'.Describes types t.heap

theorem Moved.refl (hW : W.Describes types s.heap) : Moved types W s W s := ⟨.refl s, .refl W, hW⟩

theorem Moved.trans {W'' : World} {u : State} (h : Moved types W s W' t)
    (h' : Moved types W' t W'' u) : Moved types W s W'' u :=
  ⟨h.frame.trans h'.frame, h.grows.trans h'.grows, h'.heap⟩

/-- The evaluation ends with a described heap, and with a value that is in `Q` there. -/
def Sound (types : Registry) (W : World) (Q : World → α → Prop) (x : Eval α) (s : State) : Prop :=
  (x s).Meets (fun v t => ∃ W', Moved types W s W' t ∧ Q W' v)
    fun _ t => ∃ W' : World, W'.Describes types t.heap

namespace Sound

variable {Q Q' : World → α → Prop} {R : World → β → Prop} {x : Eval α} {f : α → Eval β}

theorem mono (h : Sound types W Q x s) (imp : ∀ W' v, W.Grows W' → Q W' v → Q' W' v) :
    Sound types W Q' x s := by
  refine Outcome.Meets.mono h (fun v t ⟨W', moved, q⟩ => ?_) fun _ _ h => h
  exact ⟨W', moved, imp W' v moved.grows q⟩

theorem pure (hW : W.Describes types s.heap) {v : α} (q : Q W v) :
    Sound types W Q (Pure.pure v : Eval α) s := ⟨W, .refl hW, q⟩

theorem bind (hx : Sound types W Q x s)
    (hf : ∀ W' v t, Moved types W s W' t → Q W' v → Sound types W' R (f v) t) :
    Sound types W R (x >>= f) s := by
  refine meets_bind hx fun v t ⟨W', moved, q⟩ => ?_
  refine Outcome.Meets.mono (hf W' v t moved q) (fun w u ⟨W'', moved', r⟩ => ?_) fun _ _ h => h
  exact ⟨W'', moved.trans moved', r⟩

theorem fail (hW : W.Describes types s.heap) (line : Nat) (cause : Fault.Cause) :
    Sound types W Q (fail line cause) s := ⟨W, hW⟩

theorem ofExcept (hW : W.Describes types s.heap) (line : Nat) (result : Except Fault.Cause α) :
    Sound types W (fun _ v => result = .ok v) (ofExcept line result) s :=
  meets_ofExcept (fun _ ok => ⟨W, .refl hW, ok⟩) fun _ _ => ⟨W, hW⟩

theorem read {g : State → α} (h : Sound types W R (f (g s)) s) :
    Sound types W R (Eval.read g >>= f) s := h

theorem onHeap {f : Heap → α × Heap} (h : ∃ W', W.Grows W' ∧ W'.Describes types (f s.heap).2 ∧
    Q W' (f s.heap).1) : Sound types W Q (onHeap f) s := by
  obtain ⟨W', grows, hW', q⟩ := h
  exact ⟨W', ⟨⟨rfl, rfl⟩, grows, hW'⟩, q⟩

theorem onConsole (hW : W.Describes types s.heap) (line : Nat)
    (f : Console → Except Fault.Cause α × Console) :
    Sound types W (fun _ _ => True) (onConsole line f) s := by
  unfold Eval.onConsole
  exact meets_ofExcept (fun _ _ => ⟨W, ⟨⟨rfl, rfl⟩, .refl W, hW⟩, trivial⟩) fun _ _ => ⟨W, hW⟩

end Sound

section Operations

variable (hW : W.Describes types s.heap)

include hW

theorem sound_display (value : Value) : Sound types W (fun _ _ => True) (display value) s := by
  unfold Sound
  rw [display]
  split
  · exact ⟨W, .refl hW, trivial⟩
  · trivial

theorem sound_print (line : Nat) (value : Value) :
    Sound types W (fun _ _ => True) (print line value) s :=
  (sound_display hW value).bind fun _ _ _ moved _ => .onConsole moved.heap line _

/-- An array may be made for whatever its element passes for. -/
theorem sound_allocate {slots : Shape} {element : Value} (fits : element.Fits types W slots.asSlot)
    (line size : Nat) :
    Sound types W (fun W' v => v.Fits types W' (.array slots)) (allocate line element size) s := by
  refine Sound.read ?_
  split
  · rename_i done
    exact .onHeap (hW.fill fits done)
  · exact .fail hW line _

theorem sound_copy {dest src : Value} {slots : Shape} (hd : dest.Fits types W (.array slots))
    (hs : src.Fits types W (.array slots)) (line : Nat) (size : Value) :
    Sound types W (fun _ v => v.isScalar = true) (copy line dest src size) s := by
  refine (Sound.ofExcept hW line dest.asArray).bind fun W₁ dest' s₁ moved₁ isDest => ?_
  refine (Sound.ofExcept moved₁.heap line src.asArray).bind fun W₂ src' s₂ moved₂ isSrc => ?_
  refine (Sound.ofExcept moved₂.heap line size.asInt).bind fun W₃ requested s₃ moved₃ _ => ?_
  refine (Sound.ofExcept moved₃.heap line _).bind fun W₄ count s₄ moved₄ _ => ?_
  have grows := (moved₁.trans (moved₂.trans (moved₃.trans moved₄))).grows
  have hd := Value.eq_array_of_asArray isDest ▸ hd.grows grows
  have hs := Value.eq_array_of_asArray isSrc ▸ hs.grows grows
  dsimp only
  split
  · exact .pure moved₄.heap rfl
  · refine Sound.read ?_
    split
    · exact .onHeap ⟨W₄, .refl W₄, moved₄.heap.copySlots hd hs count, rfl⟩
    · exact .fail moved₄.heap line _

end Operations

section Native

variable {p : Program} {f : Function} {native : Native} {arguments : List Value}

theorem sound_native (hW : W.Describes p.types s.heap) (written : f.isNative = true)
    (named : Native.named? f.name = some native) (takes : p.Takes W f arguments) (fresh : Shape)
    (line : Nat) : Sound p.types W (fun W' v => v.Fits p.types W' (p.given f fresh))
      (native.call line arguments) s := by
  have scalar {x : Eval Value} (h : Sound p.types W (fun _ v => v.isScalar = true) x s) :
      Sound p.types W (fun W' v => v.Fits p.types W' (p.given f fresh)) x s :=
    h.mono fun _ _ _ plain => Value.fits_of_isScalar plain
  unfold Native.call
  split
  · exact scalar ((sound_print hW line _).bind fun _ _ _ moved _ => .pure moved.heap rfl)
  · refine scalar ((sound_print hW line _).bind fun _ _ _ moved _ => ?_)
    refine (Sound.onConsole moved.heap line _).bind fun _ _ _ moved _ => ?_
    exact (Sound.onConsole moved.heap line _).bind fun _ _ _ moved _ => .pure moved.heap rfl
  · rename_i size
    refine (Sound.ofExcept hW line size.asInt).bind fun _ _ _ moved _ => ?_
    refine (Sound.ofExcept moved.heap line _).bind fun _ _ _ moved _ => ?_
    rw [Program.given, if_pos ((Function.isHost_iff written named .malloc).2 rfl)]
    exact sound_allocate moved.heap (Value.fits_of_isScalar rfl) line _
  · rename_i dest src size
    have copies := (Function.isHost_iff written named .memcpy).2 rfl
    obtain ⟨slots, hd, hs⟩ := takes.copies copies dest src [size] rfl
    exact scalar (sound_copy hW hd hs line size)
  · exact scalar ((sound_display hW _).bind fun _ _ _ moved _ => .fail moved.heap line _)
  · exact .fail hW line _

theorem sound_callNative (hW : W.Describes p.types s.heap) (written : f.isNative = true)
    (takes : p.Takes W f arguments) (fresh : Shape) (line : Nat) :
    Sound p.types W (fun W' v => v.Fits p.types W' (p.given f fresh))
      (callNative f arguments line) s := by
  unfold callNative
  split
  · rename_i native named
    exact sound_native hW written named takes fresh line
  · exact .fail hW line _

end Native

section Targets

variable {p : Program} {entered : List FunctionId} {es : List Expr} {arguments : List Value}
  {ref : ObjectRef} {f g : FunctionId}

theorem forall_of_forall₂ {R : α → β → Prop} {P : β → Prop} {as : List α} {bs : List β}
    (h : List.Forall₂ R as bs) (imp : ∀ a ∈ as, ∀ b, R a b → P b) : ∀ b ∈ bs, P b := by
  induction h with
  | nil => exact List.forall_mem_nil P
  | cons head tail ih =>
    obtain ⟨first, others⟩ := List.forall_mem_cons.1 imp
    exact List.forall_mem_cons.2 ⟨first _ head, ih others⟩

theorem fits_any_of_forall₂ {shapes : List Shape}
    (fits : List.Forall₂ (fun s v => Value.Fits types W s v) shapes arguments) :
    ∀ v ∈ arguments, v.Fits types W .any :=
  forall_of_forall₂ fits fun _ _ _ fits => fits.toAny

theorem takes_of_expects
    (fits : List.Forall₂ (fun s v => Value.Fits p.types W s v) (p.expects (p.function f) es)
      arguments) :
    p.Takes W (p.function f) arguments := by
  refine ⟨fits_any_of_forall₂ fits, ?_, ?_⟩
  · intro copies dest src rest same
    subst same
    have written : (p.function f).isNative = true := (Bool.and_eq_true_iff.1 copies).1
    unfold Program.expects at fits
    rw [if_pos written, copies] at fits
    obtain ⟨d, more, rfl⟩ : ∃ d more, es = d :: more := by
      cases es with
      | nil => cases fits
      | cons d more => exact ⟨d, more, rfl⟩
    cases more with
    | nil =>
      cases fits with
      | cons _ none => cases none
    | cons _ _ =>
      cases fits with
      | cons first tail =>
        cases tail with
        | cons second _ =>
          split at first <;> rename_i stored
          · rw [if_pos stored] at second
            cases shape : p.shape d with
            | array slots => exact ⟨slots, shape ▸ first, shape ▸ second⟩
            | _ => rw [shape] at stored; cases stored
          · rw [if_neg stored] at second
            exact ⟨.plain, first, second⟩
  · intro written _
    unfold Program.expects at fits
    rwa [if_neg (Bool.eq_false_iff.1 written)] at fits

theorem fits_receiver (fits : List.Forall₂ (fun s v => Value.Fits p.types W s v)
      (p.expects (p.function f) es) arguments)
    (first : arguments.head? = some (.object ref)) :
    ∃ type, W.objects[ref.index]? = some type ∧
      p.types.passes (.object type) (p.receiverShape (p.function f)) = true := by
  obtain ⟨rest, rfl⟩ : ∃ rest, arguments = .object ref :: rest := List.head?_eq_some_iff.1 first
  unfold Program.receiverShape
  split
  · exact fits_any_of_forall₂ fits _ List.mem_cons_self
  · rename_i written
    unfold Program.expects at fits
    rw [if_neg written] at fits
    cases types : (p.function f).parameterTypes with
    | nil =>
      rw [types] at fits
      cases fits
    | cons self others =>
      rw [types] at fits
      cases fits with
      | cons head tail => exact head

theorem takes_of_alike {type : TypeId} (alike : p.Alike entered type f g)
    (known : W.objects[ref.index]? = some type)
    (fits : List.Forall₂ (fun s v => Value.Fits p.types W s v) (p.expects (p.function f) es)
      arguments)
    (first : arguments.head? = some (.object ref)) : p.Takes W (p.function g) arguments := by
  obtain ⟨rest, rfl⟩ : ∃ rest, arguments = .object ref :: rest := List.head?_eq_some_iff.1 first
  have foreign := Bool.eq_false_iff.1 alike.written.2
  refine ⟨fits_any_of_forall₂ fits, ?_, fun _ arity => ?_⟩
  · exact fun copies => absurd (Bool.and_eq_true_iff.1 copies).1 foreign
  · have receiver := alike.receiver
    have parameters := alike.parameters
    unfold Program.receiverShape at receiver
    rw [if_neg foreign] at receiver
    unfold Program.expects at fits
    rw [if_neg (Bool.eq_false_iff.1 alike.written.1)] at fits
    have length : (p.function g).parameterTypes.length = (Value.object ref :: rest).length :=
      (List.length_map _).trans arity.symm
    cases typesG : (p.function g).parameterTypes with
    | nil =>
      rw [typesG] at length
      cases length
    | cons self others =>
      rw [typesG] at receiver parameters
      cases typesF : (p.function f).parameterTypes with
      | nil =>
        rw [typesF] at fits
        cases fits
      | cons self' others' =>
        rw [typesF] at fits parameters
        cases fits with
        | cons head tail =>
          refine .cons ⟨type, known, receiver⟩ ?_
          rw [List.tail_cons, List.tail_cons] at parameters
          exact parameters ▸ tail

/-- Calls of checked functions are sound, whatever they take a fresh array for. -/
structure Context.Keeps (c : Context) (p : Program) (entered : List FunctionId) : Prop where
  program : c.program = p
  call : ∀ f ∈ entered, ∀ fresh W s arguments line, World.Describes p.types W s.heap →
    p.Takes W (p.function f) arguments →
      Sound p.types W (fun W' v => v.Fits p.types W' (p.given (p.function f) fresh))
        (c.call f arguments line) s

/-- The function that runs for a call is checked, takes the arguments, and gives the like. -/
theorem dispatch_takes (hW : W.Describes p.types s.heap) (known : f ∈ entered)
    (alike : p.StandInsAlike entered f) {injected : Bool}
    (dynamic : injected = true → (p.function f).traits.isStatic = false)
    (fits : List.Forall₂ (fun s v => Value.Fits p.types W s v) (p.expects (p.function f) es)
      arguments) :
    let g := dispatch p f (if injected then arguments.head? else none) s.heap
    g ∈ entered ∧ p.Takes W (p.function g) arguments ∧
      ∀ fresh, p.given (p.function g) fresh = p.given (p.function f) fresh := by
  intro g
  rcases p.eq_or_found_of_dispatch f (if injected then arguments.head? else none) s.heap with
    same | ⟨ref, receives, dispatched, found⟩
  · have same : g = f := same
    rw [same]
    exact ⟨known, takes_of_expects fits, fun _ => rfl⟩
  · cases injected with
    | false => cases receives
    | true =>
      obtain ⟨type, typed, passes⟩ := fits_receiver fits receives
      rw [hW.type_eq typed] at found
      have size := hW.known type (List.mem_of_getElem? typed)
      rcases alike dispatched (dynamic rfl) type.index size passes g found with same | stands
      · rw [same]
        exact ⟨known, takes_of_expects fits, fun _ => rfl⟩
      · exact ⟨stands.entered, takes_of_alike stands typed fits receives, stands.given_eq⟩

theorem sound_callTarget {c : Context} (hc : c.Keeps p entered) (hW : W.Describes p.types s.heap)
    (known : f ∈ entered) (alike : p.StandInsAlike entered f) {injected : Bool}
    (dynamic : injected = true → (p.function f).traits.isStatic = false)
    (fits : List.Forall₂ (fun s v => Value.Fits p.types W s v) (p.expects (p.function f) es)
      arguments) (fresh : Shape) (line : Nat) :
    Sound p.types W (fun W' v => v.Fits p.types W' (p.given (p.function f) fresh))
      (callTarget c f injected arguments line) s := by
  obtain ⟨reached, takes, given⟩ := dispatch_takes hW known alike dynamic fits
  have sound := hc.call _ reached fresh W s arguments line hW takes
  rw [given, ← hc.program] at sound
  exact hc.program ▸ sound

end Targets

end Machine
end ObjectLang
