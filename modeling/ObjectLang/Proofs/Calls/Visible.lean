import ObjectLang.Proofs.Calls.Method
set_option autoImplicit false

/-!
# Functions that a file sees

A file lists every function that it sees once. Its own functions have its number, and no two of them
that are free have the same signature. What it imports is public, unless it comes from the first
module, and a free function that is imported is one that a module before has declared. Two methods of
one type have the same name only if one of them overrides.
-/

namespace ObjectLang

theorem Function.isOverride_asMethod (f : Function) (owner : TypeId) :
    (f.asMethod owner).traits.isOverride = f.traits.isOverride := by
  unfold Function.asMethod Function.asConstructor Function.withReceiver
  dsimp only
  split <;> split <;> rfl

namespace Registry

variable {r r' : Registry} {t : TypeId} {name : String}

theorem knows_of_ownMethod? (h : ((r.get t).ownMethod? name).isSome = true) : r.Knows t := by
  refine knows_of_get_ne_void fun void => ?_
  rw [void] at h
  cases h

theorem ownMethod?_addField (r : Registry) (owner : TypeId) (field : String) (type : TypeId)
    (t : TypeId) (name : String) :
    ((r.addField owner field type).get t).ownMethod? name = (r.get t).ownMethod? name := by
  rw [addField, get_modifyMembers]
  split
  · unfold Ty.ownMethod?
    rw [members?_mapMembers]
    cases (r.get t).members? <;> rfl
  · rfl

end Registry

namespace Program

variable {p q : Program}

/-- A method has a place in the table of its owner, which it may have lost to one that overrides. -/
structure Methods (p : Program) : Prop where
  held : ∀ f owner, (p.function f).parent = some owner →
    ((p.types.get owner).ownMethod? (p.function f).name).isSome = true
  apart : ∀ f g owner, (p.function f).parent = some owner → (p.function g).parent = some owner →
    (p.function f).name = (p.function g).name →
      f = g ∨ (p.function f).traits.isOverride = true ∨ (p.function g).traits.isOverride = true

namespace Methods

/-- Methods stay as they were declared, and tables lose no name. -/
theorem transport (h : p.Methods)
    (functions : ∀ f, (q.function f).parent ≠ none →
      (q.function f).declared = (p.function f).declared)
    (tables : ∀ t name, ((p.types.get t).ownMethod? name).isSome = true →
      ((q.types.get t).ownMethod? name).isSome = true) : q.Methods := by
  have same {f : FunctionId} {owner : TypeId} (parent : (q.function f).parent = some owner) :
      (q.function f).name = (p.function f).name ∧ (p.function f).parent = some owner ∧
        (q.function f).traits = (p.function f).traits := by
    have declared := functions f (by rw [parent]; nofun)
    refine ⟨?_, ?_, ?_⟩
    · exact (congrArg Function.name declared :)
    · rw [← parent]
      exact (congrArg Function.parent declared :).symm
    · exact (congrArg Function.traits declared :)
  constructor
  · intro f owner parent
    obtain ⟨name, before, -⟩ := same parent
    exact tables owner _ (name ▸ h.held f owner before)
  · intro f g owner hf hg names
    obtain ⟨name, before, traits⟩ := same hf
    obtain ⟨name', before', traits'⟩ := same hg
    rw [name, name'] at names
    rw [traits, traits']
    exact h.apart f g owner before before' names

theorem of_grows (h : p.Methods) {types : Registry} (grows : p.types.Grows types) :
    ({ p with types } : Program).Methods := by
  refine h.transport (fun _ _ => rfl) fun t name some => ?_
  rw [grows.get_eq (Registry.knows_of_ownMethod? some)]
  exact some

theorem addFunction (h : p.Methods) {f : Function} (free : f.parent = none) :
    (p.addFunction f).2.Methods := by
  refine h.transport (fun g method => ?_) fun _ _ some => some
  rw [function_addFunction] at method ⊢
  split
  · rename_i new
    rw [if_pos new] at method
    exact absurd free method
  · rfl

theorem adopt (h : p.Methods) {owner : TypeId} {id : FunctionId} (declares : p.Declares id)
    (object : p.types.isObject owner = true)
    (joins : p.methodFault? owner (p.function id) = none) : (p.adopt owner id).Methods := by
  have admitted : (p.function id).traits.isOverride = true ∨
      (p.types.get owner).ownMethod? (p.function id).name = none := by
    rw [methodFault?] at joins
    split at joins
    · exact .inl ‹_›
    · split at joins
      · cases joins
      · rename_i free
        exact .inr (Option.not_isSome_iff_eq_none.1 free)
  have tables (t : TypeId) (name : String)
      (some : ((p.types.get t).ownMethod? name).isSome = true) :
      (((p.adopt owner id).types.get t).ownMethod? name).isSome = true := by
    by_cases same : t = owner
    · rw [same, ownMethod?_adopt object]
      split
      · rfl
      · exact same ▸ some
    · have get : (p.adopt owner id).types.get t = p.types.get t :=
        (Registry.get_modifyMembers _ _ _ t).trans (if_neg same)
      rw [get]
      exact some
  have joined : (p.adopt owner id).function id = (p.function id).asMethod owner :=
    (function_adopt owner declares id).trans (if_pos rfl)
  have kept {f : FunctionId} (other : f ≠ id) : (p.adopt owner id).function f = p.function f :=
    (function_adopt owner declares f).trans (if_neg other)
  -- A method that was there holds the name, so the new one overrides.
  have overrides {f : FunctionId} (parent : (p.function f).parent = some owner)
      (name : (p.function f).name = (p.function id).name) :
      ((p.adopt owner id).function id).traits.isOverride = true := by
    rw [joined, Function.isOverride_asMethod]
    refine admitted.resolve_right fun none => ?_
    have held := h.held f owner parent
    rw [name, none] at held
    cases held
  constructor
  · intro f type parent
    by_cases new : f = id
    · subst new
      rw [joined, Function.parent_asMethod] at parent
      cases parent
      rw [joined, Function.name_asMethod, ownMethod?_adopt object, if_pos rfl]
      rfl
    · rw [kept new] at parent ⊢
      exact tables type _ (h.held f type parent)
  · intro f g type hf hg names
    by_cases f_new : f = id <;> by_cases g_new : g = id
    · exact .inl (f_new.trans g_new.symm)
    · subst f_new
      rw [joined, Function.parent_asMethod] at hf
      cases hf
      rw [joined, Function.name_asMethod, kept g_new] at names
      exact .inr (.inl (overrides (kept g_new ▸ hg) names.symm))
    · subst g_new
      rw [joined, Function.parent_asMethod] at hg
      cases hg
      rw [joined, Function.name_asMethod, kept f_new] at names
      exact .inr (.inr (overrides (kept f_new ▸ hf) names))
    · rw [kept f_new] at hf names ⊢
      rw [kept g_new] at hg names ⊢
      exact h.apart f g type hf hg names

theorem listOf (h : p.Methods) {element : TypeId} (known : p.types.Knows element) :
    (p.listOf element).2.Methods := by
  cases found : p.types.findList? element with
  | some list =>
    rw [listOf_eq_known found]
    exact h
  | none =>
    obtain ⟨new, ids, adopted, kept⟩ := adopted_listOf known found
    have spares := Spares.listOf known
    generalize (p.listOf element).1 = list at *
    generalize (p.listOf element).2 = q at *
    have made {f : FunctionId} (hf : f ∈ ids) : (q.function f).parent = some list ∧
        (q.types.get list).ownMethod? (q.function f).name = some f := by
      obtain ⟨i, hi, rfl⟩ := List.getElem_of_mem hf
      obtain ⟨own, -, same⟩ := (List.forall₂_iff_get.1 adopted).2 i hi (adopted.length_eq ▸ hi)
      simp only [List.get_eq_getElem] at own same
      rw [same, Function.parent_asMethod, Function.name_asMethod]
      exact ⟨rfl, own⟩
    have old {f : FunctionId} {owner : TypeId} (hf : f ∉ ids)
        (parent : (q.function f).parent = some owner) :
        (p.function f).parent = some owner ∧ p.types.Knows owner := by
      rw [kept f hf] at parent
      exact ⟨parent, Registry.knows_of_ownMethod? (h.held f owner parent)⟩
    constructor
    · intro f owner parent
      by_cases hf : f ∈ ids
      · obtain ⟨list', own⟩ := made hf
        cases parent.symm.trans list'
        rw [own]
        rfl
      · obtain ⟨before, known⟩ := old hf parent
        rw [spares.types.get_eq known, kept f hf]
        exact h.held f owner before
    · intro f g owner parent parent' names
      by_cases hf : f ∈ ids <;> by_cases hg : g ∈ ids
      · obtain ⟨-, own⟩ := made hf
        obtain ⟨-, own'⟩ := made hg
        rw [names] at own
        exact .inl (Option.some.inj (own.symm.trans own'))
      · cases parent.symm.trans (made hf).1
        exact absurd (old hg parent').2 new
      · cases parent'.symm.trans (made hg).1
        exact absurd (old hf parent).2 new
      · rw [kept f hf, kept g hg] at names ⊢
        exact h.apart f g owner (old hf parent).1 (old hg parent').1 names

end Methods
end Program

/-- The functions that a module sees behind the modules `sources`. -/
structure Module.ListsFunctions (m : Module) (p : Program) (sources : List Module) : Prop where
  once : m.functions.Nodup
  own : ∀ f ∈ m.ownFunctions, (p.function f).module = m.index
  distinct : ∀ f ∈ m.ownFunctions, ∀ g ∈ m.ownFunctions, (p.function f).parent = none →
    (p.function f).signature = (p.function g).signature → f = g
  imported : ∀ f ∈ m.importedFunctions, (p.function f).parent = none →
    ∃ source ∈ sources, f ∈ source.ownFunctions
  offered : ∀ f ∈ m.importedFunctions, (p.function f).traits.isPublic = true ∨
    ∃ first ∈ sources.head?, f ∈ first.ownFunctions

namespace Module.ListsFunctions

variable {m : Module} {p q : Program} {sources : List Module} {id : FunctionId}

theorem transport (h : m.ListsFunctions p sources)
    (same : ∀ f ∈ m.functions, (q.function f).declared = (p.function f).declared) :
    m.ListsFunctions q sources := by
  have parent {f : FunctionId} (hf : f ∈ m.functions) :
      (q.function f).parent = (p.function f).parent :=
    (congrArg Function.parent (same f hf) :)
  have signature {f : FunctionId} (hf : f ∈ m.functions) :
      (q.function f).signature = (p.function f).signature :=
    (congrArg Function.signature (same f hf) :)
  have own {f : FunctionId} (hf : f ∈ m.ownFunctions) : f ∈ m.functions :=
    List.mem_append_right _ hf
  have imported {f : FunctionId} (hf : f ∈ m.importedFunctions) : f ∈ m.functions :=
    List.mem_append_left _ hf
  refine ⟨h.once, fun f hf => ?_, fun f hf g hg free equal => ?_, fun f hf free => ?_,
    fun f hf => ?_⟩
  · exact ((congrArg Function.module (same f (own hf)) :)).trans (h.own f hf)
  · rw [signature (own hf), signature (own hg)] at equal
    exact h.distinct f hf g hg (parent (own hf) ▸ free) equal
  · exact h.imported f hf (parent (imported hf) ▸ free)
  · have traits : (q.function f).traits = (p.function f).traits :=
      (congrArg Function.traits (same f (imported hf)) :)
    rw [traits]
    exact h.offered f hf

theorem behind (h : m.ListsFunctions p sources) (more : List Module) :
    m.ListsFunctions p (sources ++ more) where
  once := h.once
  own := h.own
  distinct := h.distinct
  imported f hf free := by
    obtain ⟨source, mem, own⟩ := h.imported f hf free
    exact ⟨source, List.mem_append_left _ mem, own⟩
  offered f hf := by
    refine (h.offered f hf).imp_right ?_
    rintro ⟨first, mem, own⟩
    obtain ⟨rest, rfl⟩ : ∃ rest, sources = first :: rest := List.head?_eq_some_iff.1 mem
    exact ⟨first, rfl, own⟩

theorem of_functions (h : m.ListsFunctions p sources) {n : Module} (index : n.index = m.index)
    (own : n.ownFunctions = m.ownFunctions)
    (imported : n.importedFunctions = m.importedFunctions) : n.ListsFunctions p sources := by
  have functions : n.functions = m.functions := by rw [functions, functions, own, imported]
  refine ⟨functions ▸ h.once, ?_, ?_, ?_, ?_⟩
  · rw [own, index]
    exact h.own
  · rw [own]
    exact h.distinct
  · rw [imported]
    exact h.imported
  · rw [imported]
    exact h.offered

theorem addType (h : m.ListsFunctions p sources) (type : TypeId) :
    (m.addType type).ListsFunctions p sources := by
  unfold Module.addType
  split
  · exact h
  · exact h.of_functions rfl rfl rfl

theorem importType (h : m.ListsFunctions p sources) (type : TypeId) :
    (m.importType type).ListsFunctions p sources := by
  unfold Module.importType
  split
  · exact h
  · exact h.of_functions rfl rfl rfl

theorem addFunction (h : m.ListsFunctions p sources) (new : id ∉ m.functions)
    (own : (p.function id).module = m.index)
    (fresh : (p.function id).parent = none →
      ∀ g ∈ m.ownFunctions, (p.function g).signature ≠ (p.function id).signature) :
    (m.addFunction id).ListsFunctions p sources := by
  refine ⟨?_, fun f hf => ?_, fun f hf g hg free equal => ?_, h.imported, h.offered⟩
  · rw [functions_addFunction]
    refine List.nodup_append.2 ⟨h.once, List.pairwise_singleton _ id, ?_⟩
    rintro f hf _ last rfl
    exact new (List.mem_singleton.1 last ▸ hf)
  · rcases List.mem_append.1 hf with hf | last
    · exact h.own f hf
    · rw [List.mem_singleton.1 last]
      exact own
  · rcases List.mem_append.1 hf with hf | f_last <;> rcases List.mem_append.1 hg with hg | g_last
    · exact h.distinct f hf g hg free equal
    · rw [List.mem_singleton.1 g_last] at equal
      have orphan : (p.function id).parent = none :=
        ((congrArg Signature.owner equal :).symm).trans free
      exact absurd equal (fresh orphan f hf)
    · rw [List.mem_singleton.1 f_last] at equal free
      exact absurd equal.symm (fresh free g hg)
    · exact (List.mem_singleton.1 f_last).trans (List.mem_singleton.1 g_last).symm

theorem importFunction (h : m.ListsFunctions p sources)
    (imported : (p.function id).parent = none → ∃ source ∈ sources, id ∈ source.ownFunctions)
    (offered : (p.function id).traits.isPublic = true ∨
      ∃ first ∈ sources.head?, id ∈ first.ownFunctions) :
    (m.importFunction id).ListsFunctions p sources := by
  unfold Module.importFunction
  split
  · exact h
  · rename_i unseen
    have new : id ∉ m.functions := fun seen => unseen (List.contains_iff_mem.2 seen)
    exact ⟨List.nodup_cons.2 ⟨new, h.once⟩, h.own, h.distinct,
      List.forall_mem_cons.2 ⟨imported, h.imported⟩, List.forall_mem_cons.2 ⟨offered, h.offered⟩⟩

theorem new (name path : String) (index : Nat) (p : Program) (sources : List Module) :
    ({ Module.new name index with file := path } : Module).ListsFunctions p sources :=
  ⟨.nil, nofun, nofun, nofun, nofun⟩

end Module.ListsFunctions

namespace Draft

variable {earlier : List Module} {d e : Draft}

structure Listed (earlier : List Module) (d : Draft) : Prop where
  owned : d.program.Owned fun _ => True
  methods : d.program.Methods
  module : d.module.ListsFunctions d.program earlier
  earlier : ∀ m ∈ earlier, m.ListsFunctions d.program earlier

theorem Step.declared_eq (step : Step earlier d e) {f : FunctionId}
    (declares : d.program.Declares f) :
    (e.program.function f).declared = (d.program.function f).declared := by
  rcases step.function_eq declares with same | ⟨-, statements, same⟩ <;> rw [same]
  rfl

theorem Step.methods (h : d.program.Methods) (step : Step earlier d e) : e.program.Methods := by
  cases step with
  | arrayOf element known => exact h.of_grows (Registry.grows_arrayOf _ _)
  | referenceTo referent known => exact h.of_grows (Registry.grows_referenceTo _ _)
  | listOf element known filled => exact h.listOf known
  | declare name parent objects plain => exact h.of_grows (grows_declare _ _ _)
  | addField owner name type declared fresh known filled =>
    refine h.transport (fun _ _ => rfl) fun t method some => ?_
    rw [Registry.ownMethod?_addField]
    exact some
  | addFunction f formed own free fresh => exact h.addFunction free
  | addMethod owner f formed own free object constructors admitted joins =>
    have new := (Program.function_addFunction d.program f (d.program.addFunction f).1).trans (if_pos rfl)
    exact (h.addFunction free).adopt (Program.declares_new d.program f) object (new.symm ▸ joins)
  | refuse f formed own free => exact h.addFunction free
  | importFunction source id read shown offered => exact h
  | importType source id read shown => exact h
  | setBody id statements body formed =>
    refine h.transport (fun f _ => ?_) fun _ _ some => some
    by_cases declares : d.program.Declares id
    · rw [Program.function_modifyFunction _ _ declares]
      split
      · rename_i same
        rw [same]
        rfl
      · rfl
    · rw [Program.modifyFunction_of_not_declares declares]

theorem Closed.not_mem_functions (hd : d.Closed earlier) (f : Function) :
    (d.program.addFunction f).1 ∉ d.module.functions :=
  fun mem => Nat.lt_irrefl _ (hd.module.functions _ mem)

theorem Step.listsFunctions (hd : d.Closed earlier) (h : d.Listed earlier)
    (step : Step earlier d e) : e.module.ListsFunctions e.program earlier := by
  have kept := h.module.transport fun f hf => step.declared_eq (hd.module.functions f hf)
  cases step with
  | listOf element known filled => exact kept.addType _
  | declare name parent objects plain => exact kept.addType _
  | addFunction f formed own free fresh =>
    have new := (Program.function_addFunction d.program f (d.program.addFunction f).1).trans (if_pos rfl)
    refine kept.addFunction (hd.not_mem_functions f) (new.symm ▸ own) fun _ g hg same => ?_
    have old : (d.program.addFunction f).2.function g = d.program.function g :=
      (Program.Spares.addFunction d.program f).functions g
        (hd.module.functions g (List.mem_append_right _ hg))
    rw [old, new] at same
    have declares : d.module.declaresFunction d.program f.signature = true :=
      List.any_eq_true.2 ⟨g, hg, beq_iff_eq.2 same⟩
    rw [fresh] at declares
    cases declares
  | addMethod owner f formed own free object constructors admitted joins =>
    have new := (Program.function_addFunction d.program f (d.program.addFunction f).1).trans (if_pos rfl)
    have joined := (Program.function_adopt owner (Program.declares_new d.program f)
      (d.program.addFunction f).1).trans (if_pos rfl)
    rw [new] at joined
    refine kept.addFunction (hd.not_mem_functions f) ?_ fun orphan => ?_
    · rw [joined]
      exact (congrArg Prod.fst (f.kind_asMethod owner)).trans own
    · rw [joined, Function.parent_asMethod] at orphan
      cases orphan
  | importFunction source id read shown offered =>
    refine kept.importFunction (fun orphan => ?_) (.inl offered)
    refine ⟨source, read, shown.resolve_right ?_⟩
    rintro ⟨object, -, mem⟩
    obtain ⟨name, entry⟩ := Program.hasEntry_of_mem_ownMethods mem
    have parent := (h.owned object name id entry).parent
    rw [orphan] at parent
    cases parent
  | importType source id read shown => exact kept.importType id
  | _ => exact kept

theorem Step.listed (hd : d.Closed earlier) (h : d.Listed earlier) (step : Step earlier d e) :
    e.Listed earlier where
  owned := step.owned hd h.owned (fun _ _ => trivial) fun _ _ => trivial
  methods := step.methods h.methods
  module := step.listsFunctions hd h
  earlier m hm := (h.earlier m hm).transport fun f hf =>
    step.declared_eq ((hd.earlier m hm).functions f hf)

theorem Steps.listed (hd : d.Closed earlier) (h : d.Listed earlier) (steps : Steps earlier d e) :
    e.Listed earlier := by
  induction steps with
  | refl => exact h
  | tail front step ih => exact step.listed (Steps.closed hd front).1 ih

end Draft

/-- Method tables and the lists of all modules are in order. -/
structure Library.Listed (modules : List Module) (p : Program) : Prop where
  owned : p.Owned fun _ => True
  methods : p.Methods
  modules : ∀ m ∈ modules, m.ListsFunctions p modules

theorem Module.ListsFunctions.importAll {m : Module} {p : Program} {sources : List Module}
    (h : m.ListsFunctions p sources) {ids : List FunctionId}
    (shown : ∀ id ∈ ids, ∃ first ∈ sources.head?, id ∈ first.ownFunctions) :
    (ids.foldr (fun id m => m.importFunction id) m).ListsFunctions p sources := by
  induction ids with
  | nil => exact h
  | cons id rest ih =>
    obtain ⟨here, others⟩ := List.forall_mem_cons.1 shown
    obtain ⟨first, head, own⟩ := here
    exact (ih others).importFunction (fun _ => ⟨first, List.mem_of_head? head, own⟩)
      (.inr ⟨first, head, own⟩)

theorem Draft.listed_start {earlier : List Module} {p : Program} (library : Library earlier p)
    (h : Library.Listed earlier p) (name path : String) :
    (start earlier name path p).Listed earlier := by
  have same {f : FunctionId} (declares : p.Declares f) :
      (p.addFunction (emptyBody earlier.length)).2.function f = p.function f :=
    (Program.Spares.addFunction p _).functions f declares
  have new := (Program.function_addFunction p (emptyBody earlier.length)
    (p.addFunction (emptyBody earlier.length)).1).trans (if_pos rfl)
  have builtin : ∀ id ∈ (earlier.head?.map Module.ownFunctions).getD [],
      ∃ first ∈ earlier.head?, id ∈ first.ownFunctions := by
    intro id hid
    cases head : earlier.head? with
    | none =>
      rw [head] at hid
      cases hid
    | some first =>
      rw [head] at hid
      exact ⟨first, rfl, hid⟩
  have lists := (Module.ListsFunctions.new name path earlier.length
    (p.addFunction (emptyBody earlier.length)).2 earlier).importAll builtin
  obtain ⟨-, index, own, -⟩ := importAll_keeps ((earlier.head?.map Module.ownFunctions).getD [])
    { Module.new name earlier.length with file := path }
  refine ⟨fun type n f entry => ?_, h.methods.addFunction rfl, ?_, fun m hm => ?_⟩
  · have old : p.HasEntry type n f := entry
    have still := same (old.isMethod.declares library.program.toTables)
    exact (h.owned type n f old).transport old.knows (.refl _) (congrArg Function.name still)
      (congrArg Function.parent still)
  · have unseen : (p.addFunction (emptyBody earlier.length)).1 ∉ _ → _ := lists.addFunction
    refine (unseen ?_ ?_ ?_).of_functions rfl rfl rfl
    · intro seen
      rcases mem_functions_importAll seen with mem | mem
      · obtain ⟨first, head, own⟩ := builtin _ mem
        exact Nat.lt_irrefl _ ((library.modules first (List.mem_of_head? head)).functions _
          (List.mem_append_right _ own))
      · cases mem
    · rw [new, index]
      rfl
    · intro _ g hg
      rw [own] at hg
      cases hg
  · exact (h.modules m hm).transport fun f hf =>
      congrArg Function.declared (same ((library.modules m hm).functions f hf))

theorem Written.listed {modules : List Module} {p : Program} (h : Written modules p) :
    Library.Listed modules p := by
  induction h with
  | nil =>
    refine ⟨fun type name f entry => ?_, ⟨fun f owner parent => ?_, fun f g owner parent => ?_⟩, nofun⟩
    · obtain ⟨m, hm, mem⟩ := entry
      rw [Library.members_initial type m hm] at mem
      cases mem
    · cases parent
    · cases parent
  | file earlier p name path d front steps ih =>
    have read := Draft.Steps.listed (Draft.closed_start front.library name path)
      (Draft.listed_start front.library ih name path) steps
    refine ⟨read.owned, read.methods, fun m hm => ?_⟩
    rcases List.mem_append.1 hm with old | new
    · exact (read.earlier m old).behind _
    · exact List.mem_singleton.1 new ▸ read.module.behind _

end ObjectLang
