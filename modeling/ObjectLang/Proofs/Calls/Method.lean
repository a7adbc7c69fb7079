import ObjectLang.Proofs.Program.Spared
import ObjectLang.Proofs.Scoping.Library
import ObjectLang.Proofs.Typing.Compiled
set_option autoImplicit false

/-!
# Method tables

Every type holds its methods under their own names, and a method knows the type that holds it. Only
types of lists hold methods that no module has declared.
-/

namespace ObjectLang

def Ty.isList : Ty → Bool
  | .list .. => true
  | _ => false

theorem Ty.isList_mapMembers (change : Members → Members) (t : Ty) :
    (t.mapMembers change).isList = t.isList := by
  cases t <;> rfl

namespace Program

variable {p q : Program} {type : TypeId} {name : String} {f : FunctionId}
  {P : FunctionId → Prop}

/-- The entry is the one that a method itself asks for, in the table of its own type, and `P` has
    the method unless that is the type of a list. -/
structure Proper (P : FunctionId → Prop) (p : Program) (type : TypeId) (name : String)
    (f : FunctionId) : Prop where
  name : (p.function f).name = name
  parent : (p.function f).parent = some type
  shown : P f ∨ (p.types.get type).isList = true

def Owned (P : FunctionId → Prop) (p : Program) : Prop :=
  ∀ type name f, p.HasEntry type name f → p.Proper P type name f

theorem Proper.mono {Q : FunctionId → Prop} (h : p.Proper P type name f)
    (more : ∀ f, P f → Q f) : p.Proper Q type name f :=
  ⟨h.name, h.parent, h.shown.imp_left (more f)⟩

/-- Entries stay proper as long as names, owners and the shape of types stay the same. -/
theorem Proper.transport (h : p.Proper P type name f) (known : p.types.Knows type)
    (shape : p.types.KeepsShape q.types) (name_eq : (q.function f).name = (p.function f).name)
    (parent_eq : (q.function f).parent = (p.function f).parent) : q.Proper P type name f where
  name := name_eq.trans h.name
  parent := parent_eq.trans h.parent
  shown := h.shown.imp_right fun list => by
    obtain ⟨change, same⟩ := shape.get type known
    rw [same, Ty.isList_mapMembers, list]

theorem HasEntry.knows (h : p.HasEntry type name f) : p.types.Knows type := by
  obtain ⟨m, hm, -⟩ := h
  refine knows_of_isObject ?_
  rw [Registry.isObject, Ty.isObject, Option.mem_def.1 hm]
  rfl

theorem hasEntry_of_mem_ownMethods (h : f ∈ p.types.ownMethods type) :
    ∃ name, p.HasEntry type name f := by
  rw [Registry.ownMethods] at h
  cases members : (p.types.get type).members? with
  | none =>
    rw [members] at h
    cases h
  | some m =>
    rw [members] at h
    obtain ⟨⟨name, _⟩, mem, rfl⟩ := List.mem_map.1 h
    exact ⟨name, m, members, mem⟩

theorem hasEntry_addMethods {owner : TypeId} {methods : List Function}
    (h : (p.addMethods owner methods).HasEntry type name f) :
    p.HasEntry type name f ∨ type = owner ∧
      ((p.addMethods owner methods).function f).name = name ∧
      ((p.addMethods owner methods).function f).parent = some owner := by
  let I (q : Program) : Prop := ∀ type name f, q.HasEntry type name f →
    p.HasEntry type name f ∨
      type = owner ∧ (q.function f).name = name ∧ (q.function f).parent = some owner
  have added : (p.addFunctions methods).2.types = p.types ∧
      ∀ id ∈ (p.addFunctions methods).1, (p.addFunctions methods).2.Declares id := by
    refine addFunctions_induct p methods
      (I := fun ids q => q.types = p.types ∧ ∀ id ∈ ids, q.Declares id) ⟨rfl, nofun⟩ ?_
    rintro ids q g - ⟨types, declared⟩
    refine ⟨types, fun id hid => ?_⟩
    rcases List.mem_append.1 hid with old | new
    · exact (extends_addFunction q g).declares (declared id old)
    · exact List.mem_singleton.1 new ▸ declares_new q g
  have adopted := adoptAll_induct (p.addFunctions methods).2 owner (p.addFunctions methods).1
    (I := fun q => I q ∧ ∀ id ∈ (p.addFunctions methods).1, q.Declares id) ⟨?_, added.2⟩ ?_
  · exact adopted.1 type name f h
  · rintro type name f ⟨m, hm, hx⟩
    exact .inl ⟨m, added.1 ▸ hm, hx⟩
  · rintro q id hid ⟨entries, declared⟩
    refine ⟨fun type name f entry => ?_,
      fun other hother => (extends_adopt q owner id).declares (declared other hother)⟩
    rw [function_adopt owner (declared id hid)]
    rcases hasEntry_adopt entry with ⟨rfl, new⟩ | old
    · cases new
      rw [if_pos rfl]
      exact .inr ⟨rfl, Function.name_asMethod _ _, Function.parent_asMethod _ _⟩
    · refine (entries type name f old).imp_right fun ⟨same, named, parent⟩ => ⟨same, ?_⟩
      split
      · rename_i again
        subst again
        exact ⟨(Function.name_asMethod _ _).trans named, Function.parent_asMethod _ _⟩
      · exact ⟨named, parent⟩

theorem hasEntry_listOf {element : TypeId} (known : p.types.Knows element)
    (h : (p.listOf element).2.HasEntry type name f) :
    p.HasEntry type name f ∨ (p.listOf element).2.Proper P type name f := by
  obtain ⟨members, list⟩ := get_listOf known
  cases found : p.types.findList? element with
  | some list =>
    rw [listOf_eq_known found] at h
    exact .inl h
  | none =>
    rw [listOf_eq_new found] at h list ⊢
    dsimp only at h list ⊢
    rcases hasEntry_addMethods h with old | ⟨rfl, named, parent⟩
    · exact .inl (hasEntry_withList known old)
    · exact .inr ⟨named, parent, .inr (by rw [list]; rfl)⟩

end Program

namespace Draft

variable {earlier : List Module} {d e : Draft}

/-- Known as a function of a module that is checked: of the file, or of one before. -/
def Shows (earlier : List Module) (d : Draft) (f : FunctionId) : Prop :=
  f ∈ d.module.ownFunctions ∨ Shown earlier f

theorem Step.signature (step : Step earlier d e) {f : FunctionId}
    (declares : d.program.Declares f) :
    (e.program.function f).name = (d.program.function f).name ∧
      (e.program.function f).parent = (d.program.function f).parent ∧
      (e.program.function f).parameters = (d.program.function f).parameters := by
  rcases step.function_eq declares with same | ⟨-, statements, same⟩ <;> rw [same] <;>
    exact ⟨rfl, rfl, rfl⟩

theorem Step.hasEntry (step : Step earlier d e) {type : TypeId} {name : String} {f : FunctionId}
    (h : e.program.HasEntry type name f) :
    d.program.HasEntry type name f ∨ e.program.Proper (e.Shows earlier) type name f := by
  cases step with
  | arrayOf element known =>
    exact .inl (Program.hasEntry_of_members (Registry.Widens.arrayOf _ element).members h)
  | referenceTo referent known =>
    exact .inl (Program.hasEntry_of_members (Registry.Widens.referenceTo _ referent).members h)
  | listOf element known filled => exact Program.hasEntry_listOf known h
  | declare n parent objects plain =>
    refine .inl (Program.hasEntry_addType _ (fun m hm => ?_) h)
    simp only [Ty.members?, Option.mem_def, Option.some.injEq] at hm
    subst hm
    rfl
  | addField owner field fieldType declared fresh known filled =>
    refine .inl ((Program.hasEntry_modifyMembers (P := fun _ => False) (fun m x hx => ?_) h).resolve_left
      fun lost => lost.2)
    exact .inr hx
  | addFunction g formed own free fresh => exact .inl h
  | addMethod owner g formed own free object constructors admitted joins =>
    rcases Program.hasEntry_adopt h with ⟨rfl, new⟩ | old
    · cases new
      have joined := (Program.function_adopt type (Program.declares_new d.program g)
        (d.program.addFunction g).1).trans (if_pos rfl)
      refine .inr ⟨?_, ?_, .inl (.inl (List.mem_append_right _ (List.mem_singleton_self _)))⟩
      · exact (congrArg Function.name joined).trans (Function.name_asMethod _ _)
      · exact (congrArg Function.parent joined).trans (Function.parent_asMethod _ _)
    · exact .inl old
  | refuse g formed own free => exact .inl h
  | importFunction source id read shown offered => exact .inl h
  | importType source id read shown => exact .inl h
  | setBody id statements body formed => exact .inl h

structure Tabled (earlier : List Module) (d : Draft) : Prop where
  methods : d.program.Owned (d.Shows earlier)
  body : ∀ f ∈ d.module.body, (d.program.function f).parameters = []

/-- Entries stay proper, and those that a step makes are. -/
theorem Step.owned {P Q : FunctionId → Prop} (hd : d.Closed earlier) (h : d.program.Owned P)
    (step : Step earlier d e) (kept : ∀ f, P f → Q f) (shown : ∀ f, e.Shows earlier f → Q f) :
    e.program.Owned Q := by
  intro type name f entry
  rcases step.hasEntry entry with old | proper
  · obtain ⟨named, parent, -⟩ := step.signature (old.isMethod.declares hd.program.toTables)
    exact ((h type name f old).transport old.knows step.keepsShape named parent).mono kept
  · exact proper.mono shown

theorem Step.tabled (hd : d.Closed earlier) (h : d.Tabled earlier) (step : Step earlier d e) :
    e.Tabled earlier := by
  refine ⟨step.owned hd h.methods (fun f => Or.imp_left (step.within.functions ·)) fun _ hf => hf,
    fun f hf => ?_⟩
  have body : f ∈ d.module.body := step.within.body ▸ hf
  rw [(step.signature (hd.module.body f body)).2.2]
  exact h.body f body

theorem Steps.tabled (hd : d.Closed earlier) (h : d.Tabled earlier) (steps : Steps earlier d e) :
    e.Tabled earlier := by
  induction steps with
  | refl => exact h
  | tail front step ih => exact step.tabled (Steps.closed hd front).1 ih

theorem Steps.parameters_eq (hd : d.Closed earlier) (steps : Steps earlier d e) {f : FunctionId}
    (declares : d.program.Declares f) :
    (e.program.function f).parameters = (d.program.function f).parameters := by
  induction steps with
  | refl => rfl
  | tail front step ih =>
    exact (step.signature ((Steps.closed hd front).2.declares declares)).2.2.trans ih

end Draft

/-- Method tables are in order, and no body of a module takes arguments. -/
structure Library.Tabled (modules : List Module) (p : Program) : Prop where
  methods : p.Owned (Shown modules)
  bodies : ∀ m ∈ modules, ∀ f ∈ m.body, (p.function f).parameters = []

theorem Draft.tabled_start {earlier : List Module} {p : Program} (library : Library earlier p)
    (h : Library.Tabled earlier p) (name path : String) :
    (start earlier name path p).Tabled earlier := by
  refine ⟨fun type n f entry => ?_, ?_⟩
  · have old : p.HasEntry type n f := entry
    have same := Program.function_of_declares_addFunction (emptyBody earlier.length)
      (old.isMethod.declares library.program.toTables)
    have kept := (h.methods type n f old).transport (q := (start earlier name path p).program)
      old.knows (.refl _) (congrArg Function.name same) (congrArg Function.parent same)
    exact kept.mono fun f => .inr
  · rintro _ ⟨⟩
    exact congrArg Function.parameters (Arena.get_add_self p.functions (emptyBody earlier.length))

theorem Library.Tabled.file {earlier : List Module} {p : Program} (h : Library.Tabled earlier p)
    (library : Library earlier p) (behind : earlier ≠ []) {name path : String} {d : Draft}
    (steps : Draft.Steps earlier (.start earlier name path p) d) :
    Library.Tabled (earlier ++ [d.module]) d.program := by
  have closed := Draft.closed_start library name path
  have tabled := Draft.Steps.tabled closed (Draft.tabled_start library h name path) steps
  refine ⟨fun type n f entry => (tabled.methods type n f entry).mono fun f hf => ?_,
    fun m hm f hf => ?_⟩
  · exact hf.elim (Shown.last behind) Shown.append
  · rcases List.mem_append.1 hm with old | new
    · have declares := (library.modules m old).body f hf
      have started := (Program.extends_addFunction p (Draft.emptyBody earlier.length)).declares declares
      rw [Draft.Steps.parameters_eq closed steps started]
      have same := Program.function_of_declares_addFunction (Draft.emptyBody earlier.length) declares
      exact (congrArg Function.parameters same).trans (h.bodies m old f hf)
    · rw [List.mem_singleton.1 new] at hf
      exact tabled.body f hf

namespace Compilation

theorem tabled_new : Library.Tabled new.modules new.program :=
  ⟨fun _ _ _ entry => (not_isMethod_new entry.isMethod).elim, fun m hm f hf =>
    ((builtin.2.1 m hm).1 f hf).2⟩

theorem tabled_afterReading (files : List SourceFile) :
    Library.Tabled (afterReading files).modules (afterReading files).program :=
  afterReading_induct (fun library behind h => h.file library behind) tabled_new files

end Compilation
end ObjectLang
