import ObjectLang.Proofs.Machine.Evolution
import ObjectLang.Proofs.Machine.Layout
import ObjectLang.Proofs.Shapes.Acyclic
set_option autoImplicit false

/-!
# The fields of objects

An object begins with the fields that are found in its type, and none of them is ever lost. Reading
refuses a field that the object does not have, but storing adds one. So what an object has is exactly
what is found in its type where programs keep shapes, and it may have more where they do not.
-/

namespace ObjectLang

namespace Heap

variable {types : Registry} {h : Heap} {ref : ObjectRef} {name : String}

/-- Every object has the fields that are found in its type, and maybe others. -/
def Complete (types : Registry) (h : Heap) : Prop :=
  ∀ ref : ObjectRef, ref.index < h.objects.size →
    ∀ name, (types.fieldType? (h.object ref).type name).isSome → name ∈ (h.object ref).fields.names

/-- Every object has exactly the fields that are found in its type. -/
def Exact (types : Registry) (h : Heap) : Prop :=
  ∀ ref : ObjectRef, ref.index < h.objects.size →
    ∀ name, name ∈ (h.object ref).fields.names ↔ (types.fieldType? (h.object ref).type name).isSome

theorem mem_names_setField (inside : ref.index < h.objects.size) (name : String) (value : Value)
    {other : String} : other ∈ ((h.setField ref name value).object ref).fields.names ↔
      other = name ∨ other ∈ (h.object ref).fields.names := by
  rw [NameMap.mem_names, find?_setField h inside, NameMap.mem_names]
  by_cases same : other = name <;> simp [same]

/-- Nothing takes a field from an object. -/
theorem evolution_complete (types : Registry) :
    Evolution types fun h h' => h.Complete types → h'.Complete types := by
  refine .of_claim (fun _ _ complete => complete) (fun _ _ _ complete => complete)
    (fun h type complete ref inside name found => ?_)
    fun h a field value complete ref inside name found => ?_
  · rcases h.object_instantiate_cases types type inside with ⟨old, same⟩ | rfl
    · rw [same] at found ⊢
      exact complete ref old name found
    · rw [object_instantiate] at found
      exact (h.mem_names_instantiate types type name).2 found
  · rw [size_setField] at inside
    rw [type_setField] at found
    have had := complete ref inside name found
    by_cases same : ref = a
    · subst same
      exact (mem_names_setField inside field value).2 (.inr had)
    · rwa [object_setField h a field value same]

theorem complete_empty (types : Registry) : Heap.Complete types {} :=
  fun _ inside => absurd inside (Nat.not_lt_zero _)

/-- A store keeps objects exact where it is one to a field of the type, and only there. -/
theorem Exact.setField_iff (exact : h.Exact types) (inside : ref.index < h.objects.size)
    (value : Value) : (h.setField ref name value).Exact types ↔
      (types.fieldType? (h.object ref).type name).isSome := by
  constructor
  · intro after
    have stored := (mem_names_setField inside name value).2 (.inl rfl)
    have found := (after ref (Nat.lt_of_lt_of_eq inside (size_setField h ref name value).symm) name).1
      stored
    rwa [type_setField] at found
  · intro found other inside' name'
    rw [size_setField] at inside'
    rw [type_setField]
    by_cases same : other = ref
    · subst same
      rw [mem_names_setField inside, exact other inside]
      exact or_iff_right_of_imp fun here => here ▸ found
    · rw [object_setField h ref name value same]
      exact exact other inside' name'

end Heap

namespace Machine

open Eval

variable {types : Registry} {c : Context} {base : Expr} {s t : State} {ref : ObjectRef}

theorem readField_eq_elim (ref : ObjectRef) (name : String) (line : Nat) (t : State) :
    readField (.object ref) name line t = ((t.heap.object ref).fields.find? name).elim
      (.fault (.at line (.unknownField name)) t) (.done · t) := by
  unfold readField
  simp only [bind_run, Value.asObject, Eval.ofExcept, pure_apply, Eval.read]
  cases (t.heap.object ref).fields.find? name <;> rfl

/-- Reading refuses exactly the fields that are not found in the type of the object. -/
theorem eval_field_iff (object : eval c base s = .done (.object ref) t) (exact : t.heap.Exact types)
    (inside : ref.index < t.heap.objects.size) (name : String) (type : Option TypeId) (line : Nat) :
    eval c (.field base name type line) s = .fault (.at line (.unknownField name)) t ↔
      types.fieldType? (t.heap.object ref).type name = none := by
  rw [← Option.not_isSome_iff_eq_none, ← exact ref inside, NameMap.mem_names, eval, bind_run, object]
  dsimp only
  rw [readField_eq_elim]
  cases (t.heap.object ref).fields.find? name with
  | none => exact iff_of_true rfl (by simp)
  | some value => exact iff_of_false nofun (by simp)

/-- Storing refuses no field. -/
theorem store_field (object : eval c base s = .done (.object ref) t) (name : String)
    (type : Option TypeId) (place : Nat) (value : Value) (line : Nat) :
    store c (.field base name type place) value line s =
      .done () { t with heap := t.heap.setField ref name value } := by
  rw [store, bind_run, object]
  rfl

theorem follows_exact (types : Registry) : Follows types fun _ => Heap.Exact types := by
  intro W values h hW _ ref inside name
  have typed : W.objects[ref.index]? = some (h.object ref).type := by
    rw [hW.objects, List.getElem?_map, Array.getElem?_toList, Array.getElem?_eq_getElem inside,
      Heap.object, Array.getElem?_eq_getElem inside]
    rfl
  rw [NameMap.mem_names, hW.layout ref _ typed name]

end Machine

namespace Compilation

/-- In every run of an accepted program, objects have the fields that are found in their types at all
    times. They have no others if the program keeps shapes. In a heap where they have no others,
    reading refuses exactly the fields that are not found in the type of the object, whereas storing
    refuses none: a field that is not found is added, and then the object has more. -/
theorem objects_keep_fields {files : List SourceFile} {c : Compilation}
    (accepted : new.compile files = (.ok (), c)) (bound : Nat) (console : Console) :
    c.Throughout (fun _ => Heap.Complete c.program.types) bound console ∧
      (c.program.KeepsShapes (afterReading files).entered →
        c.Throughout (fun _ => Heap.Exact c.program.types) bound console) ∧
      ∀ (d : Machine.Context) base s ref t, Machine.eval d base s = .done (.object ref) t →
        t.heap.Exact c.program.types → ref.index < t.heap.objects.size → ∀ name type place,
          (Machine.eval d (.field base name type place) s =
              .fault (.at place (.unknownField name)) t ↔
            c.program.types.fieldType? (t.heap.object ref).type name = none) ∧
          ∀ value line, ∃ u, Machine.store d (.field base name type place) value line s = .done () u ∧
            (u.heap.Exact c.program.types ↔
              (c.program.types.fieldType? (t.heap.object ref).type name).isSome) := by
  have h := compiled accepted
  refine ⟨lasts (Heap.evolution_complete _) (Heap.complete_empty _) bound console, fun shapes => ?_, ?_⟩
  · exact h.program ▸ h.throughout (h.program ▸ shapes) (Machine.follows_exact _) bound console
  · intro d base s ref t object exact inside name type place
    refine ⟨Machine.eval_field_iff object exact inside name type place, fun value line => ?_⟩
    exact ⟨_, Machine.store_field object name type place value line, exact.setField_iff inside value⟩

def fieldFiles : List SourceFile :=
  [⟨mainPath, "type A { x: Int; }\nfn A.new() { }\nlet a = A.new();\na.x = 5;\nret a.x;\n"⟩]

def strayFiles : List SourceFile :=
  [⟨mainPath, "type A { x: Int; }\nfn A.new() { }\ntype B { y: Int; }\nlet a = A.new();\n" ++
    "let b = a as B;\nb.y = 5;\nret b.y;\n"⟩]

theorem field_and_stray :
    ((new.compile fieldFiles).1 = .ok () ∧ (new.compile strayFiles).1 = .ok ()) ∧
      ((compiledFrom fieldFiles).program.KeepsShapes (afterReading fieldFiles).entered ∧
        ¬(compiledFrom strayFiles).program.KeepsShapes (afterReading strayFiles).entered) ∧
      ((compiledFrom fieldFiles).run 10 {}).ends (fun v _ => v.equals (.int 5)) = true ∧
      ((compiledFrom strayFiles).run 10 {}).ends (fun v s => v.equals (.int 5) &&
        s.heap.objects.size == 1 && ((s.heap.object ⟨0⟩).fields.find? "y").isSome &&
          ((compiledFrom strayFiles).program.types.fieldType? (s.heap.object ⟨0⟩).type "y").isNone) =
        true := by
  simp only [compiledFrom_eq, afterReading_eq, new_eq]
  decide +kernel

/-- A run whose objects have the fields of their types and no others. -/
theorem objects_keep_fields_stored :
    (compiledFrom fieldFiles).Throughout
      (fun _ => Heap.Exact (compiledFrom fieldFiles).program.types) 10 {} ∧
    ∃ value s, (compiledFrom fieldFiles).run 10 {} = .done value s ∧ value.equals (.int 5) = true := by
  obtain ⟨⟨ok, -⟩, ⟨shapes, -⟩, ends, -⟩ := field_and_stray
  exact ⟨(objects_keep_fields (compile_compiledFrom ok) 10 {}).2.1 shapes,
    Machine.Outcome.exists_of_ends ends⟩

/-- An accepted program whose run stores a field that is not found in the type of the object, and
    reads it back. -/
theorem stray_field_added : new.compile strayFiles = (.ok (), compiledFrom strayFiles) ∧
    (∃ value s, (compiledFrom strayFiles).run 10 {} = .done value s ∧
      value.equals (.int 5) = true) ∧
    ¬(compiledFrom strayFiles).Throughout
      (fun _ => Heap.Exact (compiledFrom strayFiles).program.types) 10 {} := by
  obtain ⟨⟨-, ok⟩, -, -, ends⟩ := field_and_stray
  obtain ⟨value, s, done, tested⟩ := Machine.Outcome.exists_of_ends ends
  simp only [Bool.and_eq_true, beq_iff_eq] at tested
  obtain ⟨⟨⟨five, one⟩, stored⟩, none⟩ := tested
  refine ⟨compile_compiledFrom ok, ⟨value, s, done, five⟩, fun throughout => ?_⟩
  have exact := throughout.outcome
  rw [done] at exact
  have found := (exact ⟨0⟩ (one ▸ Nat.zero_lt_one) "y").1 (NameMap.mem_names.2 stored)
  rw [Option.isNone_iff_eq_none.1 none] at found
  cases found

end Compilation
end ObjectLang
