import ObjectLang.Proofs.Lists.Made
set_option autoImplicit false

/-!
# Closed drafts

A draft is closed if everything that it refers to is known, its lists are as they were made, and the
builtin types go by their names and are among those of the file. All steps of reading keep it so.
-/

namespace ObjectLang

def Registry.NamesBuiltins (r : Registry) : Prop :=
  ∀ name t, builtin? name = some t → r.name t = name

theorem Registry.mem_of_builtin? {name : String} {t : TypeId} (h : builtin? name = some t) :
    t ∈ Primitive.all.map Primitive.id ++ [.object] := by
  unfold builtin? at h
  split at h
  · cases h
    exact List.mem_append_right _ (List.mem_singleton_self _)
  · obtain ⟨p, found, rfl⟩ := Option.map_eq_some_iff.1 h
    exact List.mem_append_left _ (List.mem_map_of_mem (List.mem_of_find?_eq_some found))

theorem Registry.namesBuiltins_initial : initial.NamesBuiltins := by
  intro name t h
  unfold builtin? at h
  split at h
  · rename_i same
    cases h
    rw [same, name_unfold]
    rfl
  · obtain ⟨p, found, rfl⟩ := Option.map_eq_some_iff.1 h
    have same : p.name = name := by simpa using List.find?_some found
    rw [← same, name_unfold]
    cases p <;> rfl

theorem Program.Tables.knows_builtin {p : Program} (hp : p.Tables) {t : TypeId}
    (h : t ∈ Primitive.all.map Primitive.id ++ [.object]) : p.types.Knows t := by
  rcases List.mem_append.1 h with primitive | base
  · obtain ⟨t, -, rfl⟩ := List.mem_map.1 primitive
    exact hp.knows_primitive t
  · rw [List.mem_singleton.1 base]
    exact hp.knows_object

theorem Registry.NamesBuiltins.keepsShape {p : Program} (h : p.types.NamesBuiltins)
    (tables : p.Tables) {r : Registry} (shape : p.types.KeepsShape r) : r.NamesBuiltins := by
  intro name t builtin
  rw [shape.name_eq (tables.knows_builtin (mem_of_builtin? builtin))]
  exact h name t builtin

namespace Draft

variable {earlier : List Module} {d e : Draft}

structure Closed (earlier : List Module) (d : Draft) : Prop extends d.Grounded earlier, d.Made where
  names : d.program.types.NamesBuiltins
  builtin : Primitive.all.map Primitive.id ++ [.object] ⊆ d.module.ownTypes

theorem Step.closed (hd : d.Closed earlier) (step : Step earlier d e) : e.Closed earlier where
  toGrounded := step.grounded hd.toGrounded
  toMade := (step.goes hd.toGrounded hd.toMade).made
  names := hd.names.keepsShape hd.program.toTables step.keepsShape
  builtin := List.Subset.trans hd.builtin step.within.own

theorem Steps.closed (hd : d.Closed earlier) (steps : Steps earlier d e) :
    e.Closed earlier ∧ d.program.Extends e.program := by
  induction steps with
  | refl => exact ⟨hd, .refl _⟩
  | tail _ step ih => exact ⟨step.closed ih.1, ih.2.trans (step.extends ih.1.toGrounded)⟩

theorem Closed.plain (hd : d.Closed earlier) {name : String}
    (fresh : d.module.declaresType d.program name = false) : Registry.builtin? name = none := by
  cases found : Registry.builtin? name with
  | none => rfl
  | some t =>
    have own := hd.builtin (Registry.mem_of_builtin? found)
    have declares : d.module.declaresType d.program name = true :=
      List.any_eq_true.2 ⟨t, own, beq_iff_eq.2 (hd.names name t found)⟩
    rw [declares] at fresh
    cases fresh

end Draft
end ObjectLang
