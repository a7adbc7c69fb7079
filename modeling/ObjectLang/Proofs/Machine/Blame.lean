import ObjectLang.Machine.Run
import ObjectLang.Proofs.Machine.Outcome
set_option autoImplicit false

/-!
# What a fault is blamed on

Operations on values, on the heap and on the console have faults of their own. They are never about a
variable, and only a function of the host that is given too many or too few arguments has one about a
call.
-/

namespace ObjectLang

/-- Whether the cause is about values or about the world outside, and not about a variable or a
    call. -/
def Fault.Cause.isPlain : Fault.Cause → Bool
  | .unknownVariable _ | .unresolvedCall _ | .missingNative _ | .argumentCount .. => false
  | _ => true

def Fault.Blames (P : Fault.Cause → Prop) : Fault → Prop
  | .at _ cause => P cause
  | .noEntry => True

def PlainResult {α : Type} (result : Except Fault.Cause α) : Prop :=
  ∀ cause, result = .error cause → cause.isPlain = true

theorem plainResult_ok {α : Type} (value : α) :
    PlainResult (.ok value : Except Fault.Cause α) := nofun

theorem plainResult_error {α : Type} {cause : Fault.Cause} (h : cause.isPlain = true) :
    PlainResult (.error cause : Except Fault.Cause α) := by
  rintro _ ⟨⟩
  exact h

namespace Value

theorem plain_asBool (value : Value) : PlainResult value.asBool := by
  unfold asBool
  split
  · exact plainResult_ok _
  · exact plainResult_error rfl

theorem plain_asInt (value : Value) : PlainResult value.asInt := by
  unfold asInt
  split
  · exact plainResult_ok _
  · exact plainResult_error rfl

theorem plain_asArray (value : Value) : PlainResult value.asArray := by
  unfold asArray
  split
  · exact plainResult_ok _
  · exact plainResult_error rfl

theorem plain_asObject (value : Value) : PlainResult value.asObject := by
  unfold asObject
  split
  · exact plainResult_ok _
  · exact plainResult_error rfl

theorem plain_place (index : Word) (length : Nat) : PlainResult (place index length) := by
  unfold place
  split
  · exact plainResult_ok _
  · exact plainResult_error rfl

theorem plain_count (size : Word) : PlainResult (count size) := by
  unfold count
  split
  · exact plainResult_ok _
  · exact plainResult_error rfl

theorem plain_exact (result : Option Word) : PlainResult (exact result) := by
  unfold Value.exact
  split
  · exact plainResult_ok _
  · exact plainResult_error rfl

theorem plain_cast (value : Value) (type : TypeId) : PlainResult (value.cast type) := by
  unfold cast
  split
  · split
    · split
      · exact plainResult_ok _
      · exact plainResult_error rfl
    · exact plainResult_ok _
  · split
    · exact plain_exact _
    · exact plainResult_ok _
  · exact plainResult_ok _

end Value

namespace BinaryOperator

theorem plain_applyInt {op : BinaryOperator} {a b : Word} {result : Except Fault.Cause Value}
    (h : op.applyInt a b = some result) : PlainResult result := by
  unfold applyInt at h
  split at h <;> cases h <;>
    first
    | exact Value.plain_exact _
    | exact plainResult_ok _
    | (split
       · exact plainResult_error rfl
       · exact Value.plain_exact _)

theorem plain_apply (op : BinaryOperator) (a b : Value) : PlainResult (op.apply a b) := by
  have known {result : Except Fault.Cause Value} (h : op.applyKnown a b = some result) :
      PlainResult result := by
    unfold applyKnown at h
    split at h
    · exact plain_applyInt h
    · obtain ⟨value, -, rfl⟩ := Option.map_eq_some_iff.1 h
      exact plainResult_ok _
    · obtain ⟨value, -, rfl⟩ := Option.map_eq_some_iff.1 h
      exact plainResult_ok _
    · obtain ⟨value, -, rfl⟩ := Option.map_eq_some_iff.1 h
      exact plainResult_ok _
    · cases h
  unfold apply
  split
  · exact plainResult_ok _
  · exact plainResult_ok _
  · cases found : op.applyKnown a b with
    | none => exact plainResult_error rfl
    | some result => exact known found

end BinaryOperator

namespace Console

theorem plain_write (c : Console) (parts : List String) : PlainResult (c.write parts).1 := by
  induction parts generalizing c with
  | nil => exact plainResult_ok _
  | cons part rest ih =>
    unfold write
    split
    · exact ih _
    · rename_i e d failed
      unfold writePart at failed
      dsimp only at failed
      split at failed
      · cases failed
      · cases failed
        exact plainResult_error rfl

theorem plain_flush (c : Console) : PlainResult c.flush := by
  unfold flush
  split
  · exact plainResult_error rfl
  · exact plainResult_ok _

theorem plain_readLine (c : Console) : PlainResult c.readLine.1 := by
  unfold readLine
  split
  · exact plainResult_error rfl
  · unfold lineText
    dsimp only
    split
    · exact plainResult_ok _
    · exact plainResult_error rfl

end Console

namespace Machine

variable {α β : Type} {P : Fault.Cause → Prop}

/-- Whenever the evaluation ends with a fault, its cause is in `P`. -/
def Blames (P : Fault.Cause → Prop) (x : Eval α) : Prop :=
  ∀ s, (x s).Meets (fun _ _ => True) fun e _ => e.Blames P

def Yields (Q : α → Prop) (x : Eval α) : Prop :=
  ∀ s, (x s).Meets (fun v _ => Q v) fun _ _ => True

namespace Blames

open Eval

theorem pure (value : α) : Blames P (Pure.pure value : Eval α) := fun _ => trivial

theorem bind {x : Eval α} {f : α → Eval β} (hx : Blames P x) (hf : ∀ v, Blames P (f v)) :
    Blames P (x >>= f) := fun s => meets_bind (hx s) fun v t _ => hf v t

theorem bind_of {x : Eval α} {f : α → Eval β} {Q : α → Prop} (hx : Blames P x)
    (values : Yields Q x) (hf : ∀ v, Q v → Blames P (f v)) : Blames P (x >>= f) := by
  intro s
  refine meets_bind (((hx s).and (values s)).mono (fun v _ h => h.2) fun e _ h => h.1) ?_
  exact fun v t h => hf v h t

theorem fail (line : Nat) {cause : Fault.Cause} (h : P cause) :
    Blames P (fail line cause : Eval α) := fun _ => h

theorem ofExcept (line : Nat) {result : Except Fault.Cause α}
    (h : ∀ cause, result = .error cause → P cause) : Blames P (ofExcept line result) :=
  fun _ => meets_ofExcept (fun _ _ => trivial) h

theorem read (f : State → α) : Blames P (read f) := fun _ => trivial

theorem onHeap (f : Heap → α × Heap) : Blames P (onHeap f) := fun _ => trivial

theorem onConsole (line : Nat) {f : Console → Except Fault.Cause α × Console}
    (h : ∀ c cause, (f c).1 = .error cause → P cause) : Blames P (onConsole line f) := by
  intro s
  exact ofExcept line (h s.console) { s with console := (f s.console).2 }

theorem declare (name : String) (value : Value) : Blames P (declare name value) :=
  fun _ => trivial

theorem setReturned (value : Value) : Blames P (setReturned value) := fun _ => trivial

theorem closing {x : Eval α} (h : Blames P x) (close : State → State) :
    Blames P (closing x close) := fun s => meets_closing (h s)

theorem inScope {x : Eval α} (h : Blames P x) : Blames P (inScope x) :=
  fun s => h.closing _ { s with scopes := s.scopes.openSegment [] }

theorem inFrame {body : Eval Unit} (h : Blames P body) (bindings : List (String × Value)) :
    Blames P (inFrame bindings body) := by
  intro s
  have call := h.bind fun _ => Blames.read (P := P) fun t => t.returned.getD .void
  exact call.closing _ { s with scopes := Scopes.empty.openSegment bindings, returned := none }

theorem loop {test : Eval Bool} {body : Eval Unit} (htest : Blames P test) (hbody : Blames P body)
    (rounds : Nat) : Blames P (loop test body rounds) := by
  induction rounds with
  | zero => exact fun _ => trivial
  | succ rounds ih =>
    rw [loop_succ]
    refine htest.bind fun again => ?_
    split
    · exact hbody.bind fun _ => ih
    · exact .pure ()

end Blames

section Plain

variable (plain : ∀ cause : Fault.Cause, cause.isPlain = true → P cause)

include plain

theorem Blames.ofPlain (line : Nat) {result : Except Fault.Cause α} (h : PlainResult result) :
    Blames P (Eval.ofExcept line result) := .ofExcept line fun cause he => plain cause (h cause he)

theorem Blames.onPlainConsole (line : Nat) {f : Console → Except Fault.Cause α × Console}
    (h : ∀ c, PlainResult (f c).1) : Blames P (Eval.onConsole line f) :=
  .onConsole line fun c cause he => plain cause (h c cause he)

omit plain in
theorem blames_display (value : Value) : Blames P (display value) := by
  intro s
  unfold display
  split <;> trivial

theorem blames_print (line : Nat) (value : Value) : Blames P (print line value) :=
  (blames_display value).bind fun _ => .onPlainConsole plain line fun c => c.plain_write _

theorem blames_allocate (line : Nat) (element : Value) (size : Nat) :
    Blames P (allocate line element size) := by
  refine (Blames.read _).bind fun heap => ?_
  split
  · exact .onHeap _
  · rename_i cause failed
    unfold Heap.fill at failed
    split at failed
    · cases failed
    · cases failed
      exact .fail line (plain _ rfl)

theorem blames_copy (line : Nat) (dest src size : Value) : Blames P (copy line dest src size) := by
  refine (Blames.ofPlain plain _ dest.plain_asArray).bind fun d => ?_
  refine (Blames.ofPlain plain _ src.plain_asArray).bind fun r => ?_
  refine (Blames.ofPlain plain _ size.plain_asInt).bind fun requested => ?_
  refine (Blames.ofPlain plain _ (Value.plain_count _)).bind fun count => ?_
  split
  · exact .pure _
  · refine (Blames.read _).bind fun heap => ?_
    dsimp only
    split
    · exact .onHeap _
    · exact .fail _ (plain _ rfl)

/-- `P` has every cause that blames a number of arguments, or the numbers are the same. -/
def Fits (P : Fault.Cause → Prop) (expected found : Nat) : Prop :=
  found = expected ∨ ∀ name m n, P (.argumentCount name m n)

theorem blames_native (native : Native) (line : Nat) {arguments : List Value}
    (fits : Fits P native.arity arguments.length) : Blames P (native.call line arguments) := by
  unfold Native.call
  split
  · exact (blames_print plain _ _).bind fun _ => .pure _
  · refine (blames_print plain _ _).bind fun _ => ?_
    refine (Blames.onPlainConsole plain _ fun c => c.plain_flush).bind fun _ => ?_
    exact (Blames.onPlainConsole plain _ fun c => c.plain_readLine).bind fun _ => .pure _
  · refine (Blames.ofPlain plain _ (Value.plain_asInt _)).bind fun _ => ?_
    refine (Blames.ofPlain plain _ (Value.plain_count _)).bind fun _ => ?_
    exact blames_allocate plain _ _ _
  · exact blames_copy plain _ _ _ _
  · exact (blames_display _).bind fun _ => .fail _ (plain _ rfl)
  · rename_i print scan malloc memcpy panic
    refine .fail _ (fits.elim (fun same => ?_) fun all => all _ _ _)
    -- with the right number of arguments, one of the other cases applies
    exfalso
    cases native with
    | printf => exact (List.length_eq_one_iff.1 same).elim fun v h => print v rfl h
    | scanf => exact (List.length_eq_one_iff.1 same).elim fun v h => scan v rfl h
    | malloc => exact (List.length_eq_one_iff.1 same).elim fun v h => malloc v rfl h
    | memcpy =>
      match arguments, same with
      | [dest, src, size], _ => exact memcpy dest src size rfl rfl
    | panic => exact (List.length_eq_one_iff.1 same).elim fun v h => panic v rfl h

theorem blames_callNative {f : Function} {arguments : List Value} (line : Nat)
    (missing : ∀ name, P (.missingNative name))
    (fits : ∀ native, Native.named? f.name = some native → Fits P native.arity arguments.length) :
    Blames P (callNative f arguments line) := by
  unfold callNative
  split
  · rename_i native found
    exact blames_native plain native line (fits native found)
  · exact .fail _ (missing _)

theorem blames_readField (base : Value) (name : String) (line : Nat) :
    Blames P (readField base name line) := by
  refine (Blames.ofPlain plain _ base.plain_asObject).bind fun ref => (Blames.read _).bind fun found => ?_
  cases found with
  | some value => exact .pure value
  | none => exact .fail _ (plain _ rfl)

theorem blames_readSlot (ref : ArrayRef) (index : Value) (line : Nat) :
    Blames P (readSlot ref index line) := by
  refine (Blames.ofPlain plain _ index.plain_asInt).bind fun _ => (Blames.read _).bind fun _ => ?_
  exact (Blames.ofPlain plain _ (Value.plain_place _ _)).bind fun _ => .pure _

theorem blames_writeSlot (ref : ArrayRef) (index value : Value) (line : Nat) :
    Blames P (writeSlot ref index value line) := by
  refine (Blames.ofPlain plain _ index.plain_asInt).bind fun _ => (Blames.read _).bind fun _ => ?_
  exact (Blames.ofPlain plain _ (Value.plain_place _ _)).bind fun _ => .onHeap _

end Plain

end Machine
end ObjectLang
