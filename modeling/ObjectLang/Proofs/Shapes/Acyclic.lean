import Mathlib.Data.List.Nodup
import Mathlib.Data.List.Perm.Subperm
import Mathlib.Logic.Relation
import ObjectLang.Machine.Display
import ObjectLang.Proofs.Program.Builtin
import ObjectLang.Proofs.Shapes.Throughout
set_option autoImplicit false

/-!
# No array contains itself

In a heap where no array contains itself, every value has a text: arrays that are nested in each
other are different, so there are never more of them than the heap has. In the heap of a program
that keeps shapes, whatever array is in a slot of another has slots of a flatter shape, so that none
contains itself. Without the condition on shapes one assignment makes an array that does.
-/

namespace ObjectLang

theorem Value.eq_array_of_equals {v : Value} {ref : ArrayRef} (h : v.equals (.array ref) = true) :
    v = .array ref := by
  cases v with
  | array other => exact congrArg Value.array (eq_of_beq h)
  | _ => cases h

namespace Heap

variable {h : Heap}

/-- The second array is in a slot of the first. -/
def Nests (h : Heap) (a b : ArrayRef) : Prop := Value.array b ∈ h.array a

/-- No array is reached from itself through slots. -/
def Acyclic (h : Heap) : Prop := ∀ a, ¬Relation.TransGen h.Nests a a

def Has (h : Heap) (v : Value) : Prop := ∀ ref, v = .array ref → ref.index < h.arrays.size

theorem isSome_mapM {α β : Type} {f : α → Option β} {l : List α} (some : ∀ a ∈ l, (f a).isSome) :
    (l.mapM f).isSome := by
  induction l with
  | nil => rfl
  | cons a rest ih =>
    obtain ⟨first, others⟩ := List.forall_mem_cons.1 some
    obtain ⟨b, found⟩ := Option.isSome_iff_exists.1 first
    obtain ⟨bs, all⟩ := Option.isSome_iff_exists.1 (ih others)
    rw [List.mapM_cons, found, all]
    rfl

/-- There are no more different arrays than the heap has. -/
theorem length_le_of_nodup {path : List ArrayRef} (nodup : path.Nodup)
    (inside : ∀ a ∈ path, a.index < h.arrays.size) : path.length ≤ h.arrays.size := by
  have different : (path.map ArrayRef.index).Nodup :=
    nodup.map fun _ _ same => congrArg ArrayRef.mk same
  have sub : path.map ArrayRef.index ⊆ List.range h.arrays.size := by
    intro i numbered
    obtain ⟨a, mem, rfl⟩ := List.mem_map.1 numbered
    exact List.mem_range.2 (inside a mem)
  have le := (List.subperm_of_subset different sub).length_le
  rwa [List.length_map, List.length_range] at le

/-- A value that is reached from different arrays has a text within the depth that they leave. -/
theorem Acyclic.isSome_partsWithin (acyclic : h.Acyclic)
    (closed : ∀ a, ∀ v ∈ h.array a, h.Has v) {depth : Nat} {path : List ArrayRef} {v : Value}
    (nodup : path.Nodup) (inside : ∀ a ∈ path, a.index < h.arrays.size)
    (above : ∀ a ∈ path, ∀ ref, v = .array ref → Relation.TransGen h.Nests a ref) (has : h.Has v)
    (room : path.length + depth = h.arrays.size) : (h.partsWithin depth v).isSome := by
  induction depth generalizing path v with
  | zero =>
    cases v with
    | array ref =>
      have apart : ref ∉ path := fun mem => acyclic ref (above ref mem ref rfl)
      have le := length_le_of_nodup (List.nodup_cons.2 ⟨apart, nodup⟩)
        (List.forall_mem_cons.2 ⟨has ref rfl, inside⟩)
      rw [List.length_cons] at le
      omega
    | bool b => cases b <;> rfl
    | _ => rfl
  | succ depth ih =>
    cases v with
    | array ref =>
      have apart : ref ∉ path := fun mem => acyclic ref (above ref mem ref rfl)
      rw [partsWithin, Option.isSome_map]
      refine isSome_mapM fun w listed => ?_
      have stored : w ∈ h.array ref := Array.mem_toList_iff.1 listed
      have longer : (ref :: path).Nodup := List.nodup_cons.2 ⟨apart, nodup⟩
      refine ih longer (List.forall_mem_cons.2 ⟨has ref rfl, inside⟩)
        (List.forall_mem_cons.2 ⟨?_, ?_⟩) (closed ref w stored) (by rw [List.length_cons]; omega)
      · rintro inner rfl
        exact .single stored
      · rintro a mem inner rfl
        exact (above a mem ref rfl).tail stored
    | bool b => cases b <;> rfl
    | _ => rfl

theorem Acyclic.isSome_parts? (acyclic : h.Acyclic) (closed : ∀ a, ∀ v ∈ h.array a, h.Has v)
    {v : Value} (has : h.Has v) : (h.parts? v).isSome :=
  acyclic.isSome_partsWithin closed List.nodup_nil (fun _ mem => absurd mem List.not_mem_nil)
    (fun _ mem => absurd mem List.not_mem_nil) has (Nat.zero_add _)

/-- No array of the heap contains itself, and the values have a text. -/
def Displayable (values : List Value) (h : Heap) : Prop :=
  h.Acyclic ∧ ∀ v ∈ values, (h.parts? v).isSome

end Heap

namespace World

variable {types : Registry} {W : World} {h : Heap}

/-- How deep arrays may be nested in the slots of an array. -/
def rank (W : World) (a : ArrayRef) : Nat := (W.arrays[a.index]?.map Shape.depth).getD 0

theorem Describes.has (hW : W.Describes types h) {v : Value} (fits : v.Fits types W .any) :
    h.Has v := by
  rintro ref rfl
  obtain ⟨slots, known, -⟩ := fits
  exact hW.lt_of_array known

theorem Describes.exists_slots (hW : W.Describes types h) {a : ArrayRef} {v : Value}
    (stored : v ∈ h.array a) :
    ∃ slots, W.arrays[a.index]? = some slots ∧ v.Fits types W slots.asSlot := by
  cases known : W.arrays[a.index]? with
  | some slots => exact ⟨slots, rfl, hW.slots a slots known v stored⟩
  | none =>
    rw [List.getElem?_eq_none_iff, hW.arrays] at known
    rw [Heap.array, Array.getElem?_eq_none known] at stored
    exact absurd stored (Array.not_mem_empty v)

theorem Describes.rank_lt (hW : W.Describes types h) {a b : ArrayRef} (nests : h.Nests a b) :
    W.rank b < W.rank a := by
  obtain ⟨slots, known, inner, known', passes⟩ := hW.exists_slots nests
  rw [rank, rank, known, known', Option.map_some, Option.map_some, Option.getD_some, Option.getD_some]
  rcases Registry.passes_array passes with any | same
  · exact absurd any slots.asSlot_ne_any
  · cases slots with
    | array =>
      cases same
      exact Nat.lt_succ_self _
    | _ => cases same

theorem Describes.acyclic (hW : W.Describes types h) : h.Acyclic := by
  have lt {a b : ArrayRef} (reach : Relation.TransGen h.Nests a b) : W.rank b < W.rank a := by
    induction reach with
    | single nests => exact hW.rank_lt nests
    | tail _ nests ih => exact Nat.lt_trans (hW.rank_lt nests) ih
  exact fun a reach => Nat.lt_irrefl _ (lt reach)

end World

theorem Machine.follows_displayable (types : Registry) : Follows types Heap.Displayable := by
  intro W values h hW known
  have closed (a : ArrayRef) (v : Value) (stored : v ∈ h.array a) : h.Has v := by
    obtain ⟨slots, -, fits⟩ := hW.exists_slots stored
    exact hW.has fits.toAny
  exact ⟨hW.acyclic, fun v mem => hW.acyclic.isSome_parts? closed (hW.has (known v mem))⟩

namespace Compilation

/-- In every run of an accepted program that keeps shapes, no array ever contains itself, and all
    values at hand have a text. -/
theorem displayable_throughout {files : List SourceFile} {c : Compilation}
    (accepted : new.compile files = (.ok (), c))
    (shapes : c.program.KeepsShapes (afterReading files).entered) (bound : Nat) (console : Console) :
    c.Throughout Heap.Displayable bound console := by
  have h := compiled accepted
  exact h.throughout (h.program ▸ shapes) (Machine.follows_displayable _) bound console

/-- What is compiled of files, also if they are not accepted. -/
def compiledFrom (files : List SourceFile) : Compilation := (new.compile files).2

theorem compiledFrom_eq (files : List SourceFile) :
    compiledFrom files = (newFromLetters.compile files).2 := by rw [compiledFrom, new_eq]

theorem afterReading_eq (files : List SourceFile) :
    afterReading files =
      ((newFromLetters.addSources files).recordLexed (files.map lex)).readAll (files.map lex) := by
  rw [afterReading, new_eq]

theorem compile_compiledFrom {files : List SourceFile} (ok : (new.compile files).1 = .ok ()) :
    new.compile files = (.ok (), compiledFrom files) :=
  compile_eq_of_ok ok

/-- An array of the host is taken for one of arrays. -/
def tableFiles : List SourceFile :=
  [⟨mainPath, "let a: <<Int>> = malloc(2);\na[0] = <1, 2>;\nprintf(a as Char);\nret 1;\n"⟩]

/-- An array of anything is stored in its own slot. -/
def loopFiles : List SourceFile := [⟨mainPath, "let a = <None>;\na[0] = a;\nret a[0] == a;\n"⟩]

theorem table_and_loop :
    ((new.compile tableFiles).1 = .ok () ∧ (new.compile loopFiles).1 = .ok ()) ∧
      ((compiledFrom tableFiles).program.KeepsShapes (afterReading tableFiles).entered ∧
        ¬(compiledFrom loopFiles).program.KeepsShapes (afterReading loopFiles).entered) ∧
      ((compiledFrom tableFiles).run 10 {}).ends (fun _ s =>
        s.console.output == "<<1, 2>, None>") = true ∧
      ((compiledFrom loopFiles).run 10 {}).ends (fun _ s =>
        (s.heap.array ⟨0⟩).toList.any (·.equals (.array ⟨0⟩)) &&
          (s.heap.parts? (.array ⟨0⟩)).isNone) = true := by
  simp only [compiledFrom_eq, afterReading_eq, new_eq]
  decide +kernel

/-- A run that prints arrays in an array. -/
theorem displayable_table : (compiledFrom tableFiles).Throughout Heap.Displayable 10 {} ∧
    ∃ value s, (compiledFrom tableFiles).run 10 {} = .done value s ∧
      s.console.output = "<<1, 2>, None>" := by
  obtain ⟨⟨ok, -⟩, ⟨shapes, -⟩, ends, -⟩ := table_and_loop
  obtain ⟨value, s, done, printed⟩ := Machine.Outcome.exists_of_ends ends
  exact ⟨displayable_throughout (compile_compiledFrom ok) shapes 10 {}, value, s, done,
    eq_of_beq printed⟩

/-- An accepted program whose run ends with an array that contains itself, and has no text. -/
theorem loop_contains_itself : new.compile loopFiles = (.ok (), compiledFrom loopFiles) ∧
    ∃ value s, (compiledFrom loopFiles).run 10 {} = .done value s ∧ ¬s.heap.Acyclic ∧
      s.heap.parts? (.array ⟨0⟩) = none := by
  obtain ⟨⟨-, ok⟩, -, -, ends⟩ := table_and_loop
  obtain ⟨value, s, done, tested⟩ := Machine.Outcome.exists_of_ends ends
  obtain ⟨nested, none⟩ := Bool.and_eq_true_iff.1 tested
  obtain ⟨v, mem, same⟩ := List.any_eq_true.1 nested
  have nests : s.heap.Nests ⟨0⟩ ⟨0⟩ := by
    rw [Value.eq_array_of_equals same] at mem
    exact Array.mem_toList_iff.1 mem
  exact ⟨compile_compiledFrom ok, value, s, done, fun acyclic => acyclic ⟨0⟩ (.single nests),
    Option.isNone_iff_eq_none.1 none⟩

end Compilation
end ObjectLang
