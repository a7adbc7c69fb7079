import ObjectLang.Proofs.Scoping.Exec
import ObjectLang.Proofs.Program.Builtin
set_option autoImplicit false

/-!
# Methods of a library

A call may end in a method that no check has reached, because the type of a receiver is only known
when the program runs. Every method that is read with a module is one of its functions, and the
module is checked. The methods of lists belong to no module that is checked, but their variables are
in place as they are, and none of their calls is bound yet.
-/

namespace ObjectLang

theorem Statement.allScoped_append {callable : FunctionId → Prop} {names : List String}
    {statements behind : List Statement} (h : Statement.AllScoped callable names statements)
    (h' : ∀ more, names ⊆ more → Statement.AllScoped callable more behind) :
    Statement.AllScoped callable names (statements ++ behind) := by
  induction statements generalizing names with
  | nil => exact h' names (List.Subset.refl _)
  | cons statement rest ih =>
    refine ⟨h.1, ih h.2 fun more sub => h' more (List.Subset.trans ?_ sub)⟩
    unfold Statement.namesBehind
    split
    · exact List.subset_cons_self _ _
    · exact List.Subset.refl _

namespace Function

/-- A function that misses no variable as long as it is not checked. -/
def Harmless (f : Function) : Prop :=
  f.isNative = true ∨ Statement.AllScoped (fun _ => False) f.frameNames f.body

variable {f : Function}

theorem harmless_of_empty (h : f.body = []) : f.Harmless := by
  refine .inr ?_
  rw [h]
  trivial

theorem Harmless.withReceiver (h : f.Harmless) (owner : TypeId) :
    (f.withReceiver owner).Harmless := by
  unfold Function.withReceiver
  split
  · exact h
  · refine h.imp id fun sees => Statement.allScoped_mono (fun _ => id) ?_ f.body sees
    simp only [frameNames, List.map_cons, List.reverse_cons]
    exact List.subset_append_left _ _

theorem Harmless.asConstructor (h : f.Harmless) (owner : TypeId) :
    (f.asConstructor owner).Harmless := by
  refine h.imp id fun sees => ⟨⟨trivial, .inl ⟨rfl, _, _, _, rfl⟩⟩, ?_⟩
  refine Statement.allScoped_append ?_ fun more sub => ⟨sub List.mem_cons_self, trivial⟩
  exact Statement.allScoped_mono (fun _ => id) (List.subset_cons_self _ _) f.body sees

theorem Harmless.asMethod (h : f.Harmless) (owner : TypeId) : (f.asMethod owner).Harmless := by
  have owned : ({ f with parent := some owner } : Function).Harmless := h
  unfold Function.asMethod
  dsimp only
  split
  · exact (owned.withReceiver owner).asConstructor owner
  · exact owned.withReceiver owner

theorem harmless_listMethod {element array : TypeId} (owner : TypeId)
    (h : f ∈ ListMethod.all element array) : (f.asMethod owner).Harmless := by
  simp only [ListMethod.all, List.mem_cons, List.not_mem_nil, or_false] at h
  refine .inr ?_
  rcases h with rfl | rfl | rfl | rfl | rfl <;>
    simp [ListMethod.reSize, ListMethod.getSize, ListMethod.elementAt, ListMethod.append,
      ListMethod.constructor, ListMethod.shared, ListMethod.var, ListMethod.own, ListMethod.int,
      ListMethod.binary, ListMethod.assign, ListMethod.perform, asMethod, withReceiver,
      asConstructor, frameNames, receiverName, constructorName, Traits.union,
      Statement.AllScoped, Statement.Scoped, Statement.declare, Expr.Scoped, Expr.AllScoped,
      Statement.namesBehind, Statement.declared?]

end Function

namespace Typing

theorem covers_functionScopes (m : Module) (p : Program) (f : Function) :
    Covers (functionScopes m p f) f.frameNames := by
  intro name type bound
  simp only [functionScopes, Scopes.openSegment, Scopes.empty, Scopes.get?,
    List.append_nil] at bound
  rw [List.lookup_append] at bound
  cases own : (f.parameters.map fun x => (x.name, Meaning.value x.type)).reverse.lookup name with
  | some meaning =>
    obtain ⟨front, behind, same, -⟩ := List.lookup_eq_some_iff.1 own
    have inside : (name, meaning) ∈ f.parameters.map fun x => (x.name, Meaning.value x.type) := by
      rw [← List.mem_reverse, same]
      exact List.mem_append_right _ List.mem_cons_self
    obtain ⟨x, hx, hname⟩ := List.mem_map.1 inside
    rw [Function.frameNames, List.mem_reverse]
    exact List.mem_map.2 ⟨x, hx, (Prod.ext_iff.1 hname).1⟩
  | none =>
    rw [own, Option.none_or] at bound
    obtain ⟨front, behind, same, -⟩ := List.lookup_eq_some_iff.1 bound
    have inside : (name, Meaning.value type) ∈
        (m.visibleObjectTypes p).map fun t => (p.types.name t, Meaning.type t) := by
      rw [← List.mem_reverse, same]
      exact List.mem_append_right _ List.mem_cons_self
    obtain ⟨t, -, ht⟩ := List.mem_map.1 inside
    cases (Prod.ext_iff.1 ht).2

end Typing

namespace Program

def HasEntry (p : Program) (type : TypeId) (name : String) (f : FunctionId) : Prop :=
  ∃ m ∈ (p.types.get type).members?, (name, f) ∈ m.methods.entries

def IsMethod (p : Program) (f : FunctionId) : Prop :=
  ∃ type, ∃ m ∈ (p.types.get type).members?, ∃ x ∈ m.methods.entries, x.2 = f

variable {p q : Program} {f : FunctionId} {type : TypeId} {name : String}

theorem isMethod_iff : p.IsMethod f ↔ ∃ type name, p.HasEntry type name f := by
  constructor
  · rintro ⟨type, m, hm, x, hx, rfl⟩
    exact ⟨type, x.1, m, hm, hx⟩
  · rintro ⟨type, name, m, hm, hx⟩
    exact ⟨type, m, hm, (name, f), hx, rfl⟩

theorem HasEntry.isMethod (h : p.HasEntry type name f) : p.IsMethod f := isMethod_iff.2 ⟨_, _, h⟩

theorem IsMethod.declares (hp : p.Tables) (h : p.IsMethod f) : p.Declares f := by
  obtain ⟨type, m, hm, x, hx, rfl⟩ := h
  exact (hp.members type m hm).methods x hx

theorem hasEntry_of_ownMethod? (h : (p.types.get type).ownMethod? name = some f) :
    p.HasEntry type name f := by
  obtain ⟨m, hm, hf⟩ := Option.bind_eq_some_iff.1 h
  obtain ⟨front, behind, same, -⟩ := List.lookup_eq_some_iff.1 hf
  refine ⟨m, hm, ?_⟩
  rw [same]
  exact List.mem_append_right _ List.mem_cons_self

theorem isMethod_of_findMethod? (h : p.types.findMethod? type name = some f) : p.IsMethod f := by
  rw [Registry.findMethod?] at h
  obtain ⟨t, -, own⟩ := List.exists_of_findSome?_eq_some h
  exact (hasEntry_of_ownMethod? own).isMethod

theorem hasEntry_of_members (same : ∀ id, (q.types.get id).members? = (p.types.get id).members?)
    (h : q.HasEntry type name f) : p.HasEntry type name f := by
  obtain ⟨m, hm, hx⟩ := h
  exact ⟨m, same type ▸ hm, hx⟩

theorem isMethod_of_members (same : ∀ id, (q.types.get id).members? = (p.types.get id).members?)
    (h : q.IsMethod f) : p.IsMethod f := by
  obtain ⟨type, name, entry⟩ := isMethod_iff.1 h
  exact (hasEntry_of_members same entry).isMethod

theorem hasEntry_addType {t : Ty} (known : ∀ c ∈ t.components, c.index < p.types.size)
    (bare : ∀ m ∈ t.members?, m.methods.entries = [])
    (h : ({ p with types := (p.types.add t known).2 } : Program).HasEntry type name f) :
    p.HasEntry type name f := by
  obtain ⟨m, hm, hx⟩ := h
  rw [Registry.get_add] at hm
  split at hm
  · rw [bare m hm] at hx
    cases hx
  · exact ⟨m, hm, hx⟩

theorem isMethod_addType {t : Ty} (known : ∀ c ∈ t.components, c.index < p.types.size)
    (bare : ∀ m ∈ t.members?, m.methods.entries = [])
    (h : ({ p with types := (p.types.add t known).2 } : Program).IsMethod f) : p.IsMethod f := by
  obtain ⟨type, name, entry⟩ := isMethod_iff.1 h
  exact (hasEntry_addType known bare entry).isMethod

theorem hasEntry_modifyMembers {owner : TypeId} {change : Members → Members}
    {functions : Arena} {P : String × FunctionId → Prop}
    (made : ∀ m, ∀ x ∈ (change m).methods.entries, P x ∨ x ∈ m.methods.entries)
    (h : HasEntry ⟨p.types.modifyMembers owner change, functions⟩ type name f) :
    type = owner ∧ P (name, f) ∨ p.HasEntry type name f := by
  obtain ⟨m, hm, hx⟩ := h
  simp only [Registry.get_modifyMembers] at hm
  split at hm
  · rename_i same
    rw [Registry.members?_mapMembers] at hm
    obtain ⟨m, hm', rfl⟩ := Option.map_eq_some_iff.1 hm
    exact (made m _ hx).imp (fun new => ⟨same, new⟩) fun old => ⟨m, hm', old⟩
  · exact .inr ⟨m, hm, hx⟩

theorem hasEntry_adopt {owner : TypeId} {id : FunctionId}
    (h : (p.adopt owner id).HasEntry type name f) :
    type = owner ∧ (name, f) = ((p.function id).name, id) ∨ p.HasEntry type name f :=
  hasEntry_modifyMembers (P := (· = ((p.function id).name, id)))
    (fun _ _ hx => NameMap.mem_insert hx) h

theorem isMethod_modifyMembers {owner : TypeId} {change : Members → Members} {functions : Arena}
    (made : ∀ m, ∀ x ∈ (change m).methods.entries, x ∈ m.methods.entries)
    (h : IsMethod ⟨p.types.modifyMembers owner change, functions⟩ f) : p.IsMethod f := by
  obtain ⟨type, name, entry⟩ := isMethod_iff.1 h
  have old := hasEntry_modifyMembers (P := fun _ => False) (fun m x hx => .inr (made m x hx)) entry
  exact (old.resolve_left fun new => new.2).isMethod

theorem isMethod_adopt {owner : TypeId} {id : FunctionId} (h : (p.adopt owner id).IsMethod f) :
    f = id ∨ p.IsMethod f := by
  obtain ⟨type, name, entry⟩ := isMethod_iff.1 h
  exact (hasEntry_adopt entry).imp (fun new => congrArg Prod.snd new.2) HasEntry.isMethod

/-- The methods of a program are known from elsewhere, in the sense of `P`, or harmless. -/
def Methodical (P : FunctionId → Prop) (p : Program) : Prop :=
  ∀ f, p.IsMethod f → P f ∨ (p.function f).Harmless

variable {P : FunctionId → Prop}

theorem function_of_declares_addFunction (g : Function) (h : p.Declares f) :
    (p.addFunction g).2.function f = p.function f := by
  rw [function_addFunction, if_neg]
  rintro rfl
  exact Nat.lt_irrefl _ h

theorem Methodical.addFunction (h : Methodical P p) (tables : p.Tables) (g : Function) :
    Methodical P (p.addFunction g).2 := by
  intro f hf
  have old : p.IsMethod f := hf
  rw [function_of_declares_addFunction g (old.declares tables)]
  exact h f old

theorem Methodical.mono {Q : FunctionId → Prop} (h : Methodical P p) (more : ∀ f, P f → Q f) :
    Methodical Q p :=
  fun f hf => (h f hf).imp (more f) id

theorem Methodical.of_types (h : Methodical P p) (types : Registry)
    (old : ∀ f, ({ p with types } : Program).IsMethod f → p.IsMethod f) :
    Methodical P { p with types } :=
  fun f hf => h f (old f hf)

/-- A function that becomes a method is known from elsewhere, or harmless as a method. -/
theorem Methodical.adopt (h : Methodical P p) {owner : TypeId} {id : FunctionId}
    (declares : p.Declares id) (known : P id ∨ ((p.function id).asMethod owner).Harmless) :
    Methodical P (p.adopt owner id) := by
  intro f hf
  change P f ∨ ((p.modifyFunction id (·.asMethod owner)).function f).Harmless
  rw [function_modifyFunction p _ declares]
  by_cases same : f = id
  · rw [if_pos same, same]
    exact known
  · rw [if_neg same]
    exact h f ((isMethod_adopt hf).resolve_left same)

theorem Methodical.addMethods (h : Methodical P p) (closed : p.Closed) {owner : TypeId}
    {methods : List Function} (formed : ∀ g ∈ methods, g.Formed p)
    (harmless : ∀ g ∈ methods, (g.asMethod owner).Harmless) :
    Methodical P (p.addMethods owner methods) := by
  let I (ids : List FunctionId) (q : Program) : Prop := q.Closed ∧ p.Extends q ∧
    Methodical P q ∧ ∀ id ∈ ids, q.Declares id ∧ ((q.function id).asMethod owner).Harmless
  have added : I (p.addFunctions methods).1 (p.addFunctions methods).2 := by
    refine addFunctions_induct p methods (I := I) ⟨closed, .refl p, h, nofun⟩ ?_
    rintro ids q g hg ⟨hq, extends_, methodical, all⟩
    have next := extends_addFunction q g
    refine ⟨hq.addFunction ((formed g hg).mono extends_), extends_.trans next,
      methodical.addFunction hq.toTables g, ?_⟩
    intro id hid
    rcases List.mem_append.1 hid with old | new
    · rw [function_of_declares_addFunction g (all id old).1]
      exact ⟨next.declares (all id old).1, (all id old).2⟩
    · rw [List.mem_singleton.1 new, function_addFunction, if_pos rfl]
      exact ⟨declares_new q g, harmless g hg⟩
  obtain ⟨-, -, methodical, all⟩ := added
  rw [addMethods_eq]
  refine (adoptAll_induct _ owner _ (I := fun q => Methodical P q ∧
    ∀ id ∈ (p.addFunctions methods).1, q.Declares id ∧
      ((q.function id).asMethod owner).Harmless) ⟨methodical, all⟩ ?_).1
  rintro q id hid ⟨hq, ready⟩
  refine ⟨hq.adopt (ready id hid).1 (.inr (ready id hid).2), fun other hother => ?_⟩
  refine ⟨(extends_adopt q owner id).declares (ready other hother).1, ?_⟩
  change (((q.modifyFunction id (·.asMethod owner)).function other).asMethod owner).Harmless
  rw [function_modifyFunction q _ (ready id hid).1]
  split
  · exact (ready id hid).2.asMethod owner
  · exact (ready other hother).2

theorem hasEntry_withList {element : TypeId} (known : p.types.Knows element)
    (h : (p.withList element).2.HasEntry type name f) : p.HasEntry type name f := by
  have known' := (extends_arrayOf p element).knows known
  simp only [Program.withList, addList_eq known'] at h
  have old := hasEntry_addType (known_of_list known' _) (fun m hm => ?_) h
  · exact hasEntry_of_members (Registry.Widens.arrayOf p.types element).members old
  · simp only [Ty.members?, Option.mem_def, Option.some.injEq] at hm
    subst hm
    rfl

theorem Methodical.withList (h : Methodical P p) {element : TypeId}
    (known : p.types.Knows element) : Methodical P (p.withList element).2 := by
  intro f hf
  obtain ⟨type, name, entry⟩ := isMethod_iff.1 hf
  have old := h f (hasEntry_withList known entry).isMethod
  have known' := (extends_arrayOf p element).knows known
  simp only [Program.withList, addList_eq known'] at hf ⊢
  exact old

theorem Methodical.listOf (h : Methodical P p) (closed : p.Closed) {element : TypeId}
    (known : p.types.Knows element) (filled : element ≠ .void) :
    Methodical P (p.listOf element).2 := by
  cases found : p.types.findList? element with
  | some list =>
    rw [listOf_eq_known found]
    exact h
  | none =>
    have listed := h.withList known
    have closed' := closed.withList known
    have formed := formed_withList closed known filled
    have harmless (g : Function) (hg : g ∈ ListMethod.all element (p.arrayOf element).1) :
        (g.asMethod (p.withList element).1).Harmless := Function.harmless_listMethod _ hg
    have added := listed.addMethods closed' formed harmless
    rw [listOf_eq_new found]
    exact added

end Program

/-- The module with that number declares the function, and is not the builtin one. -/
def Shown (modules : List Module) (f : FunctionId) : Prop :=
  ∃ i m, 1 ≤ i ∧ modules[i]? = some m ∧ f ∈ m.ownFunctions

namespace Draft

variable {earlier : List Module} {d e : Draft}

structure Orderly (earlier : List Module) (d : Draft) : Prop where
  methods : d.program.Methodical fun f => f ∈ d.module.ownFunctions ∨ Shown earlier f
  body : ∀ f ∈ d.module.body, f ∈ d.module.ownFunctions

theorem Orderly.addFunction (h : d.Orderly earlier) (id : FunctionId) :
    Orderly earlier { d with module := d.module.addFunction id } := by
  have more (f : FunctionId) (hf : f ∈ d.module.ownFunctions) :
      f ∈ (d.module.addFunction id).ownFunctions := List.mem_append_left _ hf
  exact ⟨h.methods.mono fun f => Or.imp_left (more f), fun f hf => more f (h.body f hf)⟩

theorem Orderly.of_module (h : d.Orderly earlier) {m : Module}
    (own : m.ownFunctions = d.module.ownFunctions) (body : m.body = d.module.body) :
    Orderly earlier { d with module := m } := by
  refine ⟨?_, ?_⟩
  · rw [own]
    exact h.methods
  · rw [own, body]
    exact h.body

theorem Orderly.addType (h : d.Orderly earlier) (id : TypeId) :
    Orderly earlier { d with module := d.module.addType id } := by
  refine h.of_module ?_ ?_
  all_goals unfold Module.addType
  · split <;> rfl
  · split <;> rfl

theorem Step.orderly (hd : d.Closed earlier) (h : d.Orderly earlier) (step : Step earlier d e) :
    e.Orderly earlier := by
  have methods := h.methods
  have tables := hd.program.toTables
  cases step with
  | arrayOf element known =>
    exact ⟨methods.of_types _ fun f =>
      Program.isMethod_of_members (Registry.Widens.arrayOf _ element).members, h.body⟩
  | referenceTo referent known =>
    exact ⟨methods.of_types _ fun f =>
      Program.isMethod_of_members (Registry.Widens.referenceTo _ referent).members, h.body⟩
  | listOf element known filled =>
    have listed : Orderly earlier { d with program := (d.program.listOf element).2 } :=
      ⟨methods.listOf hd.program known filled, h.body⟩
    exact listed.addType _
  | declare name parent objects plain =>
    have declared : Orderly earlier
        { d with program := { d.program with types := (d.program.types.declare name parent).2 } } := by
      refine ⟨methods.of_types _ fun f => Program.isMethod_addType _ fun m hm => ?_, h.body⟩
      simp only [Ty.members?, Option.mem_def, Option.some.injEq] at hm
      subst hm
      rfl
    exact declared.addType _
  | addField owner name type declared fresh known filled =>
    refine ⟨methods.of_types _ fun f hf => ?_, h.body⟩
    have kept (m : Members) : ∀ x ∈ ({ m with fields := m.fields.insert name type } :
        Members).methods.entries, x ∈ m.methods.entries := fun x hx => hx
    exact Program.isMethod_modifyMembers kept hf
  | addFunction f formed own free fresh =>
    have added : Orderly earlier { d with program := (d.program.addFunction f).2 } :=
      ⟨methods.addFunction tables f, h.body⟩
    exact added.addFunction _
  | addMethod owner f formed own free object constructors admitted joins =>
    have added : Orderly earlier { d with program := (d.program.addFunction f).2 } :=
      ⟨methods.addFunction tables f, h.body⟩
    obtain ⟨methods', body⟩ := added.addFunction (d.program.addFunction f).1
    have known : (d.program.addFunction f).1 ∈
        (d.module.addFunction (d.program.addFunction f).1).ownFunctions :=
      List.mem_append_right _ List.mem_cons_self
    exact ⟨methods'.adopt (Program.declares_new _ f) (.inl (.inl known)), body⟩
  | refuse f formed own free => exact ⟨methods.addFunction tables f, h.body⟩
  | importFunction source id read shown offered =>
    refine h.of_module ?_ ?_
    all_goals unfold Module.importFunction
    · split <;> rfl
    · split <;> rfl
  | importType source id read shown =>
    refine h.of_module ?_ ?_
    all_goals unfold Module.importType
    · split <;> rfl
    · split <;> rfl
  | setBody id statements body formed =>
    refine ⟨fun f hf => ?_, h.body⟩
    change _ ∨ ((d.program.modifyFunction id _).function f).Harmless
    rw [Program.function_modifyFunction _ _ (hd.module.body id body)]
    by_cases same : f = id
    · exact .inl (.inl (same ▸ h.body id body))
    · rw [if_neg same]
      exact methods f hf

theorem Steps.orderly (hd : d.Closed earlier) (h : d.Orderly earlier) (steps : Steps earlier d e) :
    e.Orderly earlier := by
  induction steps with
  | refl => exact h
  | tail front step ih => exact step.orderly (Steps.closed hd front).1 ih

end Draft

structure Library.Orderly (modules : List Module) (p : Program) : Prop where
  methods : p.Methodical (Shown modules)
  bodies : ∀ m ∈ modules, ∀ f ∈ m.body, f ∈ m.ownFunctions

theorem Draft.orderly_start {earlier : List Module} {p : Program} (library : Library earlier p)
    (h : Library.Orderly earlier p) (name path : String) :
    (start earlier name path p).Orderly earlier := by
  refine ⟨?_, ?_⟩
  · exact (h.methods.addFunction library.program.toTables _).mono fun f => .inr
  · rintro _ ⟨⟩
    exact List.mem_append_right _ List.mem_cons_self

theorem Shown.append {modules more : List Module} {f : FunctionId} (h : Shown modules f) :
    Shown (modules ++ more) f := by
  obtain ⟨i, m, positive, found, own⟩ := h
  have inside := (List.getElem?_eq_some_iff.1 found).1
  exact ⟨i, m, positive, (List.getElem?_append_left inside).trans found, own⟩

theorem Shown.last {modules : List Module} {m : Module} {f : FunctionId} (behind : modules ≠ [])
    (own : f ∈ m.ownFunctions) : Shown (modules ++ [m]) f := by
  refine ⟨modules.length, m, List.length_pos_iff.2 behind, ?_, own⟩
  rw [List.getElem?_append_right (Nat.le_refl _), Nat.sub_self]
  rfl

theorem Library.Orderly.file {earlier : List Module} {p : Program}
    (h : Library.Orderly earlier p) (library : Library earlier p) (behind : earlier ≠ [])
    {name path : String} {d : Draft}
    (steps : Draft.Steps earlier (.start earlier name path p) d) :
    Library.Orderly (earlier ++ [d.module]) d.program := by
  have orderly := Draft.Steps.orderly (Draft.closed_start library name path)
    (Draft.orderly_start library h name path) steps
  refine ⟨orderly.methods.mono fun f hf => ?_, fun m hm => ?_⟩
  · exact hf.elim (Shown.last behind) Shown.append
  · rcases List.mem_append.1 hm with old | new
    · exact h.bodies m old
    · rw [List.mem_singleton.1 new]
      exact orderly.body

namespace Compilation

/-- What the builtin module brings: an empty body and functions that the host provides with as many
    parameters. There are no methods yet. -/
theorem builtin :
    (∀ t ∈ new.program.types.types, ∀ m ∈ t.members?, m.methods.entries = []) ∧
      (∀ m ∈ new.modules,
        (∀ f ∈ m.body, f ∈ m.ownFunctions ∧ (new.program.function f).parameters = []) ∧
        ∀ f ∈ m.ownFunctions, (new.program.function f).body.isEmpty = true) ∧
      ∀ f ∈ new.program.functions.functions, f.isNative = true →
        ∀ native ∈ Machine.Native.named? f.name, native.arity = f.parameters.length := by
  simp only [new_eq]
  decide +kernel

theorem not_isMethod_new {f : FunctionId} : ¬new.program.IsMethod f := by
  rintro ⟨type, m, hm, x, hx, -⟩
  rw [Registry.get] at hm
  cases found : new.program.types.types[type.index]? with
  | none =>
    rw [found] at hm
    cases hm
  | some t =>
    rw [found] at hm
    rw [builtin.1 t (Array.mem_of_getElem? found) m hm] at hx
    cases hx

theorem orderly_new : Library.Orderly new.modules new.program :=
  ⟨fun _ method => (not_isMethod_new method).elim, fun m hm f hf => ((builtin.2.1 m hm).1 f hf).1⟩

end Compilation

end ObjectLang
