import ObjectLang.Compilation
import ObjectLang.Proofs.Grammar.Declaration
set_option autoImplicit false

/-!
# Files build drafts

Files that are read one after the other make a library: a program and its modules. Every library is
closed: whatever it refers to is known, and its functions belong to its modules.
-/

namespace ObjectLang.Grammar

variable {earlier : List Module}

theorem builds_declarationAt {s : State} (hs : s.draft.Closed earlier) {k : Taken s}
    (hk : s.take? = some k) {x : Step Unit k.behind.size}
    (h : declarationAt? earlier k = some x) : x.Builds earlier s fun _ _ => True := by
  have hd := draft_of_take? hk
  have hk' := closed_of_take? hs hk
  unfold declarationAt? at h
  split at h
  · cases h
    exact (builds_functionDeclaration _ hk').start hd
  · cases h
    exact (builds_typeDeclaration hk').start hd
  · cases h
    exact (builds_useDeclaration hk').start hd
  · cases h
    unfold markerAt
    split
    · exact ⟨.of_draft_eq hs hd, trivial⟩
    · exact Leads.of_draft_eq hs hd
  · split at h
    · cases h
      exact ⟨.of_draft_eq hs hd, trivial⟩
    · cases h
  · cases h

/-- Reading a file only builds, and the statements outside of its functions are formed. -/
theorem leads_items (s : State) (hs : s.draft.Closed earlier) :
    Leads earlier s (items earlier s).2 ∧
      Statement.FormedAll (items earlier s).2.program (items earlier s).1 := by
  rw [items]
  split
  · exact ⟨.of_draft_eq hs rfl, trivial⟩
  · rename_i k hk
    have lt := k.lt
    split
    · exact ⟨.of_draft_eq hs rfl, trivial⟩
    · split
      · rename_i t le hat
        obtain ⟨h, -⟩ := builds_declarationAt hs hk hat
        have rest := leads_items t h.closed
        exact ⟨h.trans rest.1, rest.2⟩
      · rename_i e t le hat
        have h : Leads earlier s t := builds_declarationAt hs hk hat
        have skipped : Leads earlier s (t.record e).skipToDeclaration := h.change rfl rfl
        have size_record : (t.record e).size ≤ k.behind.size := le
        have size_skip := (t.record e).size_skipToDeclaration_le
        have rest := leads_items _ skipped.closed
        exact ⟨skipped.trans rest.1, rest.2⟩
      · have hat := builds_statementAt k hs (draft_of_take? hk)
        split
        · rename_i statement t le he
          rw [he] at hat
          have rest := leads_items t hat.1.closed
          exact ⟨hat.1.trans rest.1, statement.formed_mono rest.1.extension hat.2, rest.2⟩
        · rename_i e t le he
          rw [he] at hat
          have size_record := State.size_record_lt k e le
          have size_recover := State.size_recover_lt k e le
          have recorded : Leads earlier s (t.record e) := Leads.change hat rfl rfl
          have recovered : Leads earlier s (t.record e).recover := Leads.change hat rfl rfl
          dsimp only
          split
          · have rest := leads_items _ recorded.closed
            exact ⟨recorded.trans rest.1, rest.2⟩
          · have rest := leads_items _ recovered.closed
            exact ⟨recovered.trans rest.1, rest.2⟩
termination_by s.size

theorem leads_setBody {s : State} (hs : s.draft.Closed earlier) {statements : List Statement}
    (formed : Statement.FormedAll s.program statements) :
    Leads earlier s (s.setBody statements) := by
  unfold State.setBody
  split
  · exact .of_draft_eq hs rfl
  · rename_i id hid
    exact .of_steps hs (.single (.setBody id statements hid formed))

end Grammar

def Draft.emptyBody (index : Nat) : Function :=
  { name := Grammar.moduleBodyName, module := index, line := 1 }

/-- Where reading a file begins: with an empty body, and with the functions of the first module. -/
def Draft.start (earlier : List Module) (name file : String) (p : Program) : Draft :=
  let index := earlier.length
  let builtin := (earlier.head?.map Module.ownFunctions).getD []
  let (body, program) := p.addFunction (emptyBody index)
  let module := builtin.foldr (fun id m => m.importFunction id)
    { Module.new name index with file }
  { program, module := { module.addFunction body with body := some body } }

/-- A program and its modules, as reading files one after the other makes them. -/
inductive Written : List Module → Program → Prop
  | nil : Written [] {}
  | file (earlier : List Module) (p : Program) (name path : String) (d : Draft)
    (front : Written earlier p) (steps : Draft.Steps earlier (.start earlier name path p) d) :
    Written (earlier ++ [d.module]) d.program

/-- What a library refers to is known, its builtin types go by their names and its lists are as they
    were made, its modules are numbered in order, and its functions belong to them. -/
structure Library (ms : List Module) (p : Program) : Prop where
  program : p.Closed
  names : p.types.NamesBuiltins
  lists : p.ListsMade
  modules : ∀ m ∈ ms, m.Closed p
  index : ∀ (i : Nat) (m : Module), ms[i]? = some m → m.index = i
  read : ∀ id, p.Declares id → (p.function id).module < ms.length

namespace Library

theorem members_initial (id : TypeId) :
    ∀ m ∈ (Registry.initial.get id).members?, m = {} := by
  intro m hm
  have hnone (t : Ty) (ht : t ∈ Registry.initial.types) : ∀ m ∈ t.members?, m = {} := by
    simp only [Registry.initial, Primitive.all, List.map_cons, List.map_nil, List.cons_append,
      List.nil_append, List.mem_toArray, List.mem_cons, List.not_mem_nil, or_false] at ht
    rcases ht with rfl | rfl | rfl | rfl | rfl | rfl <;> simp [Ty.members?]
  rw [Registry.get] at hm
  cases ht : Registry.initial.types[id.index]? with
  | none =>
    rw [ht] at hm
    cases hm
  | some t =>
    rw [ht] at hm
    exact hnone t (Array.mem_of_getElem? ht) m hm

theorem closed_initial : Program.Closed {} := by
  refine .of_formed (Nat.le_refl 6) (fun t => by cases t <;> rfl) ?_ ?_
  · intro id m hm
    rw [members_initial id m hm]
    exact ⟨nofun, nofun⟩
  · intro id
    rw [Program.function_of_not_declares (Nat.not_lt_zero _)]
    exact ⟨⟨nofun, by decide⟩, trivial⟩

theorem nil : Library [] {} where
  program := closed_initial
  names := Registry.namesBuiltins_initial
  lists := listsMade_initial
  modules := nofun
  index := nofun
  read _ h := absurd h (Nat.not_lt_zero _)

end Library

theorem mem_functions_importAll {ids : List FunctionId} {m : Module} {f : FunctionId}
    (h : f ∈ (ids.foldr (fun id m => m.importFunction id) m).functions) :
    f ∈ ids ∨ f ∈ m.functions := by
  induction ids with
  | nil => exact .inr h
  | cons id rest ih =>
    rcases Draft.mem_functions_importFunction h with rfl | h
    · exact .inl List.mem_cons_self
    · exact (ih h).imp (List.mem_cons_of_mem _) (fun h => h)

theorem importAll_keeps (ids : List FunctionId) (m : Module) :
    let n := ids.foldr (fun id m => m.importFunction id) m
    n.types = m.types ∧ n.index = m.index ∧ n.ownFunctions = m.ownFunctions ∧
      n.ownTypes = m.ownTypes := by
  induction ids with
  | nil => exact ⟨rfl, rfl, rfl, rfl⟩
  | cons id rest ih =>
    obtain ⟨types, index, functions, own⟩ := ih
    rw [List.foldr_cons]
    unfold Module.importFunction
    split
    · exact ⟨types, index, functions, own⟩
    · exact ⟨types, index, functions, own⟩

theorem Draft.closed_start {earlier : List Module} {p : Program} (h : Library earlier p)
    (name path : String) : (start earlier name path p).Closed earlier := by
  have formed : (emptyBody earlier.length).Formed p :=
    ⟨⟨nofun, h.program.knows_primitive .void⟩, trivial⟩
  have hext := p.extends_addFunction (emptyBody earlier.length)
  have declared := Program.declares_new p (emptyBody earlier.length)
  have hadded := h.program.addFunction formed
  obtain ⟨htypes, hindex, -, hown⟩ := importAll_keeps ((earlier.head?.map Module.ownFunctions).getD [])
    { Module.new name earlier.length with file := path }
  have hbuiltin : ∀ f ∈ (earlier.head?.map Module.ownFunctions).getD [], p.Declares f := by
    cases hhead : earlier.head? with
    | none => exact nofun
    | some m =>
      intro f hf
      exact (h.modules m (List.mem_of_head? hhead)).functions f (List.mem_append_right _ hf)
  have made : (start earlier name path p).Made := by
    refine ⟨h.lists.of_retains (C := fun _ => False) (.addFunction p (emptyBody earlier.length))
      (fun _ _ members hq => ⟨members, hq⟩) fun _ _ _ => not_false, ?_⟩
    rintro _ ⟨⟩
    change ((p.addFunction (emptyBody earlier.length)).2.function
      (p.addFunction (emptyBody earlier.length)).1).parent = none
    rw [Program.function_addFunction, if_pos rfl]
    rfl
  have own : Primitive.all.map Primitive.id ++ [.object] ⊆
      (start earlier name path p).module.ownTypes := hown ▸ List.Subset.refl _
  refine ⟨⟨hadded, ⟨?_, ?_, ?_⟩, hindex, fun m hm => (h.modules m hm).mono hext, ?_⟩, made, h.names,
    own⟩
  · intro t ht
    have ht' : t ∈ (Module.new name earlier.length).types := by
      rw [← show _ = (Module.new name earlier.length).types from htypes]
      exact ht
    rw [Module.types_new] at ht'
    simp only [Primitive.all, List.map_cons, List.map_nil, List.cons_append, List.nil_append,
      List.mem_cons, List.not_mem_nil, or_false] at ht'
    rcases ht' with rfl | rfl | rfl | rfl | rfl | rfl
    · exact hadded.knows_primitive .int
    · exact hadded.knows_primitive .float
    · exact hadded.knows_primitive .bool
    · exact hadded.knows_primitive .char
    · exact hadded.knows_primitive .void
    · exact hadded.knows_object
  · intro f hf
    have hf' : f ∈ (Module.addFunction (((earlier.head?.map Module.ownFunctions).getD []).foldr
        (fun id m => m.importFunction id) { Module.new name earlier.length with file := path })
        (p.addFunction (emptyBody earlier.length)).1).functions := hf
    rw [Module.functions_addFunction] at hf'
    rcases List.mem_append.1 hf' with hf | hf
    · rcases mem_functions_importAll hf with hf | hf
      · exact hext.declares (hbuiltin f hf)
      · cases hf
    · rw [List.mem_singleton.1 hf]
      exact declared
  · rintro _ ⟨⟩
    exact declared
  · intro id
    change ((p.addFunction _).2.function id).module ≤ Module.index _
    refine Nat.le_trans ?_ (Nat.le_of_eq hindex.symm)
    rw [Program.function_addFunction]
    split
    · exact Nat.le_refl _
    · by_cases hid : p.Declares id
      · exact Nat.le_of_lt (h.read id hid)
      · rw [Program.function_of_not_declares hid]
        exact Nat.zero_le _

theorem Library.file {earlier : List Module} {p : Program} (h : Library earlier p)
    {name path : String} {d : Draft} (steps : Draft.Steps earlier (.start earlier name path p) d) :
    Library (earlier ++ [d.module]) d.program := by
  obtain ⟨closed, -⟩ := steps.closed (Draft.closed_start h name path)
  refine ⟨closed.program, closed.names, closed.lists, ?_, ?_, ?_⟩
  · intro m hm
    rcases List.mem_append.1 hm with hm | hm
    · exact closed.earlier m hm
    · rw [List.mem_singleton.1 hm]
      exact closed.module
  · intro i m hi
    rw [List.getElem?_append] at hi
    split at hi
    · exact h.index i m hi
    · rename_i hlt
      obtain ⟨hzero, hm⟩ := List.getElem?_eq_some_iff.1 hi
      rw [List.length_singleton] at hzero
      rw [← hm, List.getElem_singleton, closed.index]
      omega
  · intro id _
    have hread := closed.read id
    rw [closed.index] at hread
    rw [List.length_append, List.length_singleton]
    omega

theorem Written.library {modules : List Module} {p : Program} (h : Written modules p) :
    Library modules p := by
  induction h with
  | nil => exact .nil
  | file earlier p name path d front steps ih => exact ih.file steps

/-- Reading a file builds on a draft with an empty body. -/
theorem Grammar.steps_readFile {earlier : List Module} {p : Program} (h : Library earlier p) (name : String)
    (cursor : Cursor) (diagnostics : Diagnostics) :
    Draft.Steps earlier (.start earlier name cursor.file p)
      (readFile earlier name cursor p diagnostics).draft := by
  have closed : (State.start earlier name cursor p diagnostics).draft.Closed earlier :=
    Draft.closed_start h name cursor.file
  obtain ⟨leads, formed⟩ := leads_items _ closed
  exact leads.steps.trans (leads_setBody leads.closed formed).steps

namespace Compilation

theorem steps_read {c : Compilation} (h : Library c.modules c.program) (name : String)
    (tokens : Lexed) : ∃ d, Draft.Steps c.modules (.start c.modules name tokens.file c.program) d ∧
      (c.read name tokens).modules = c.modules ++ [d.module] ∧
      (c.read name tokens).program = d.program := by
  exact ⟨_, Grammar.steps_readFile h name (.ofTokens tokens.file tokens.tokens) c.diagnostics,
    rfl, rfl⟩

theorem written_read {c : Compilation} (h : Written c.modules c.program) (name : String)
    (tokens : Lexed) : Written (c.read name tokens).modules (c.read name tokens).program := by
  obtain ⟨d, steps, modules, program⟩ := steps_read h.library name tokens
  rw [modules, program]
  exact .file c.modules c.program name tokens.file d h steps

theorem written_readAll {c : Compilation} (h : Written c.modules c.program)
    (files : List (String × Lexed)) :
    Written (c.readAll files).modules (c.readAll files).program := by
  induction files generalizing c with
  | nil => exact h
  | cons file rest ih => exact ih (written_read h file.1 file.2)

/-- What every further file keeps, any number of files keep. -/
theorem readAll_induct {I : List Module → Program → Prop}
    (file : ∀ {earlier : List Module} {p : Program} {name path : String} {d : Draft},
      Library earlier p → earlier ≠ [] → I earlier p →
        Draft.Steps earlier (.start earlier name path p) d → I (earlier ++ [d.module]) d.program)
    {c : Compilation} (written : Written c.modules c.program) (behind : c.modules ≠ [])
    (start : I c.modules c.program) (files : List (String × Lexed)) :
    I (c.readAll files).modules (c.readAll files).program := by
  induction files generalizing c with
  | nil => exact start
  | cons next rest ih =>
    obtain ⟨d, steps, modules, program⟩ := steps_read written.library next.1 next.2
    refine ih (written_read written next.1 next.2) ?_ ?_
    · rw [modules]
      exact List.append_ne_nil_of_right_ne_nil _ (List.cons_ne_nil _ _)
    · rw [modules, program]
      exact file written.library behind start steps

/-- All that is read at the beginning of a compilation is a library. -/
theorem written_new : Written new.modules new.program :=
  written_read .nil _ _

end Compilation
end ObjectLang
