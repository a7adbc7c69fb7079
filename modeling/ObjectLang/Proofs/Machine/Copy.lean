import ObjectLang.Proofs.Lists.Run
set_option autoImplicit false

/-!
# Copying between arrays

A copy looks at the number of slots first, then whether both arrays have as many, and changes the
heap only after that. An array is copied to itself without a look at its length.
-/

namespace ObjectLang

namespace Heap

/-- The heap `h'` is `h` after the first `n` slots of `src` were copied over those of `dest`. -/
structure Copied (h h' : Heap) (dest src : ArrayRef) (n : Int) : Prop where
  objects : h'.objects = h.objects
  arrays : h'.arrays.size = h.arrays.size
  size : (h'.array dest).size = (h.array dest).size
  first : ∀ i : Nat, i < n → (h'.array dest)[i]? = (h.array src)[i]?
  rest : ∀ i : Nat, n ≤ i → (h'.array dest)[i]? = (h.array dest)[i]?
  others : ∀ b, b ≠ dest → h'.array b = h.array b

theorem copied_self (h : Heap) (b : ArrayRef) (n : Int) : Copied h h b b n :=
  ⟨rfl, rfl, rfl, fun _ _ => rfl, fun _ _ => rfl, fun _ _ => rfl⟩

theorem array_of_size_le (h : Heap) {b : ArrayRef} (missing : h.arrays.size ≤ b.index) :
    h.array b = #[] := by
  rw [array, Array.getElem?_eq_none missing]
  rfl

theorem copySlots_of_size_le (h : Heap) {dest : ArrayRef} (missing : h.arrays.size ≤ dest.index)
    (src : ArrayRef) (count : Nat) : h.copySlots dest src count = h := by
  have unchanged (change : Array Value → Array Value) :
      h.arrays.modify dest.index change = h.arrays := by
    rw [Array.modify, Array.modifyM, dif_neg (Nat.not_lt.2 missing)]
    rfl
  rw [copySlots, unchanged]

theorem getElem?_copySlots (h : Heap) {dest src : ArrayRef} {count : Nat}
    (hd : dest.index < h.arrays.size) (hs : count ≤ (h.array src).size) (i : Nat) :
    ((h.copySlots dest src count).array dest)[i]? =
      if i < count then (h.array src)[i]? else (h.array dest)[i]? := by
  have length : ((h.array src).toList.take count).length = count :=
    List.length_take_of_le (Array.length_toList ▸ hs)
  rw [← Array.getElem?_toList, array_copySlots h hd]
  by_cases inside : i < count
  · rw [if_pos inside, List.getElem?_append_left (by omega), List.getElem?_take_of_lt inside,
      Array.getElem?_toList]
  · have same : count + (i - count) = i := by omega
    rw [if_neg inside, List.getElem?_append_right (by omega), length, List.getElem?_drop, same,
      Array.getElem?_toList]

theorem copied_copySlots (h : Heap) {dest src : ArrayRef} {count : Nat}
    (hs : count ≤ (h.array src).size) (hd : count ≤ (h.array dest).size) :
    Copied h (h.copySlots dest src count) dest src count := by
  by_cases stored : dest.index < h.arrays.size
  · exact
      { objects := rfl
        arrays := Array.size_modify
        size := size_copySlots h stored hs hd
        first := fun i hi => (getElem?_copySlots h stored hs i).trans (if_pos (by omega))
        rest := fun i hi => (getElem?_copySlots h stored hs i).trans (if_neg (by omega))
        others := fun b ne => array_modifyArray_of_ne h ne _ }
  · -- The empty array stands for one that the heap does not have, so nothing was asked for.
    have missing : h.arrays.size ≤ dest.index := Nat.le_of_not_lt stored
    have none : count = 0 := by
      rw [array_of_size_le h missing] at hd
      exact Nat.le_zero.1 hd
    rw [copySlots_of_size_le h missing, none]
    exact ⟨rfl, rfl, rfl, fun i hi => by omega, fun _ _ => rfl, fun _ _ => rfl⟩

end Heap

namespace Machine

open Eval

theorem Outcome.not_exists_done {α : Type} (e : Fault) (s : State) :
    ¬ ∃ v t, (.fault e s : Outcome α) = .done v t := by
  rintro ⟨v, t, same⟩
  cases same

section Copy

variable {s : State} {line : Nat} {n : Word}

theorem count_of_negative (negative : n.toInt < 0) :
    Value.count n = .error (.negativeSize n.toInt) := by
  rw [Value.count, Word.count?, if_neg (by omega)]

theorem copy_negative (dest src : ArrayRef) (negative : n.toInt < 0) :
    copy line (.array dest) (.array src) (.int n) s =
      .fault (.at line (.negativeSize n.toInt)) s := by
  have array (b : ArrayRef) : (Value.array b).asArray = .ok b := rfl
  have int : (Value.int n).asInt = .ok n := rfl
  rw [copy, bind_done (ofExcept_ok (array dest)), bind_done (ofExcept_ok (array src)),
    bind_done (ofExcept_ok int), count_of_negative negative]
  rfl

end Copy

theorem call_memcpy (line : Nat) (dest src size : Value) :
    Native.memcpy.call line [dest, src, size] = copy line dest src size := by
  rw [Native.call]

/-- Copying is checked, but for the length of an array that is copied to itself: it succeeds for the
    sizes that are not negative and, of two different arrays, not beyond the length of either. Then
    the first slots are those that `src` had, and nothing else on the heap is another than before.
    Otherwise it faults, and nothing has changed. -/
theorem memcpy_bounds (s : State) (line : Nat) (dest src : ArrayRef) (n : Word) :
    let result := Native.memcpy.call line [.array dest, .array src, .int n] s
    let length := min (s.heap.array src).size (s.heap.array dest).size
    ((∃ v t, result = .done v t) ↔ 0 ≤ n.toInt ∧ (dest = src ∨ n.toInt ≤ length)) ∧
    (∀ v t, result = .done v t →
      v = .void ∧ t = { s with heap := t.heap } ∧ s.heap.Copied t.heap dest src n.toInt) ∧
    ((¬ ∃ v t, result = .done v t) →
      result = .fault (.at line (if n.toInt < 0 then .negativeSize n.toInt
        else .indexOutOfBounds length n.toInt)) s) := by
  intro result length
  have call : result = copy line (.array dest) (.array src) (.int n) s := by
    rw [← call_memcpy]
  rw [call]
  by_cases negative : n.toInt < 0
  · rw [copy_negative dest src negative, if_pos negative]
    have none := Outcome.not_exists_done (α := Value) (.at line (.negativeSize n.toInt)) s
    exact ⟨iff_of_false none fun h => Int.not_lt.2 h.1 negative, fun v t done => absurd ⟨v, t, done⟩ none,
      fun _ => rfl⟩
  rw [if_neg negative]
  obtain ⟨k, hn⟩ := Int.eq_ofNat_of_zero_le (Int.not_lt.1 negative)
  rw [copy_of_toInt dest src hn]
  by_cases same : dest = src
  · subst same
    rw [if_pos rfl]
    refine ⟨⟨fun _ => ⟨by omega, .inl rfl⟩, fun _ => ⟨_, _, rfl⟩⟩, ?_, fun h => absurd ⟨_, _, rfl⟩ h⟩
    rintro _ _ ⟨⟩
    exact ⟨rfl, rfl, Heap.copied_self _ _ _⟩
  rw [if_neg same]
  by_cases inside : k ≤ length
  · obtain ⟨hs, hd⟩ := Nat.le_min.1 inside
    rw [if_pos inside]
    refine ⟨⟨fun _ => ⟨by omega, .inr (by omega)⟩, fun _ => ⟨_, _, rfl⟩⟩, ?_,
      fun h => absurd ⟨_, _, rfl⟩ h⟩
    rintro _ _ ⟨⟩
    rw [hn]
    exact ⟨rfl, rfl, Heap.copied_copySlots _ hs hd⟩
  · rw [if_neg inside]
    have none := Outcome.not_exists_done (α := Value)
      (.at line (.indexOutOfBounds length n.toInt)) s
    have large : ¬ n.toInt ≤ length := by omega
    exact ⟨iff_of_false none fun h => h.2.elim same large, fun v t done => absurd ⟨v, t, done⟩ none,
      fun _ => rfl⟩

/-- Five slots of an array of two are copied to the array itself, without a fault. -/
theorem memcpy_self_unbounded :
    let s : State := { heap := { arrays := #[#[.int 1, .int 2]] } }
    ¬ ((∃ v t, Native.memcpy.call 2 [.array ⟨0⟩, .array ⟨0⟩, .int 5] s = .done v t) ↔
      0 ≤ (5 : Word).toInt ∧ (5 : Word).toInt ≤ (s.heap.array ⟨0⟩).size) := by
  intro s succeeds
  have five : (5 : Word).toInt = (5 : Nat) := by decide
  rw [call_memcpy, copy_of_toInt _ _ five, if_pos rfl] at succeeds
  have bounded := (succeeds.1 ⟨_, _, rfl⟩).2
  have two : (s.heap.array ⟨0⟩).size = 2 := rfl
  omega

end Machine
end ObjectLang
