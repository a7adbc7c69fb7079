import ObjectLang.Grammar.Declaration
import ObjectLang.Proofs.Lists.Made
import ObjectLang.Proofs.Program.Operation
import ObjectLang.Proofs.Scoping.Library
set_option autoImplicit false

/-!
# Attached methods

A function joins a method table when it has just been made, and it is rewritten then: it gets its owner,
its receiver, and as a constructor the allocation in front of its body and the return behind it. As
long as nothing is checked, every entry of a table is a function in that form. A method that cannot
join is refused before anything is written, so it leaves everything as it is.
-/

namespace ObjectLang

namespace Function

/-- The form of a method in the table of its owner, under a name. -/
structure Attached (f : Function) (owner : TypeId) (name : String) : Prop where
  named : f.name = name
  parent : f.parent = some owner
  receiver : f.traits.isStatic = false →
    ∃ written, f.parameters = ⟨receiverName, owner, f.line⟩ :: written
  returns : name = constructorName → f.returnType = owner ∧ f.traits.isExplicit = true
  body : name = constructorName → ∃ written,
    f.body = .declare (.var receiverName none f.line) (.new owner f.line) f.line ::
      (written ++ [.ret (.var receiverName none f.line) f.line])

theorem parameters_asMethod (f : Function) (owner : TypeId) :
    (f.asMethod owner).parameters =
      if f.traits.isStatic then f.parameters
      else ⟨receiverName, owner, f.line⟩ :: f.parameters := by
  unfold asMethod withReceiver
  dsimp only
  split <;> split <;> rfl

theorem line_asMethod (f : Function) (owner : TypeId) : (f.asMethod owner).line = f.line := by
  unfold asMethod withReceiver
  dsimp only
  split <;> split <;> rfl

theorem isStatic_asMethod (f : Function) (owner : TypeId) :
    (f.asMethod owner).traits.isStatic = f.traits.isStatic :=
  congrArg Prod.snd (f.kind_asMethod owner)

theorem asMethod_of_constructor {f : Function} (new : f.name = constructorName)
    (owner : TypeId) :
    f.asMethod owner = ({ f with parent := some owner }.withReceiver owner).asConstructor owner := by
  have same : ({ f with parent := some owner }.withReceiver owner).name = f.name := by
    unfold withReceiver
    split <;> rfl
  exact if_pos (same.trans new)

theorem attached_asMethod (f : Function) (owner : TypeId) :
    (f.asMethod owner).Attached owner f.name := by
  refine ⟨f.name_asMethod owner, f.parent_asMethod owner, fun instance_ => ?_, fun new => ?_,
    fun new => ⟨f.body, ?_⟩⟩
  · refine ⟨f.parameters, ?_⟩
    rw [isStatic_asMethod] at instance_
    rw [parameters_asMethod, line_asMethod, instance_]
    rfl
  · rw [asMethod_of_constructor new]
    exact ⟨rfl, rfl⟩
  · rw [line_asMethod, asMethod_of_constructor new]
    unfold withReceiver
    split <;> rfl

end Function

namespace Program

variable {p q : Program}

/-- Every entry of a method table is a function in the form of a method there. -/
def Attaches (p : Program) : Prop :=
  ∀ type name id, p.HasEntry type name id → p.Declares id ∧ (p.function id).Attached type name

theorem Attaches.of_entries (h : p.Attaches)
    (old : ∀ {type name id}, q.HasEntry type name id → p.HasEntry type name id)
    (kept : ∀ id, p.Declares id → q.Declares id ∧ q.function id = p.function id) : q.Attaches := by
  intro type name id entry
  obtain ⟨declared, attached⟩ := h type name id (old entry)
  obtain ⟨declared', same⟩ := kept id declared
  exact ⟨declared', same ▸ attached⟩

theorem Attaches.addFunction (h : p.Attaches) (f : Function) : (p.addFunction f).2.Attaches :=
  h.of_entries (fun entry => entry) fun _ declared =>
    ⟨(extends_addFunction p f).declares declared, function_of_declares_addFunction f declared⟩

theorem Attaches.adopt (h : p.Attaches) (owner : TypeId) {id : FunctionId}
    (declared : p.Declares id) (free : ¬p.IsMethod id) : (p.adopt owner id).Attaches := by
  intro type name f entry
  rw [function_adopt owner declared]
  rcases hasEntry_adopt entry with ⟨rfl, new⟩ | old
  · cases new
    rw [if_pos rfl]
    exact ⟨(extends_adopt p type _).declares declared, Function.attached_asMethod _ type⟩
  · obtain ⟨declared', attached⟩ := h type name f old
    have ne : f ≠ id := fun same => free (same ▸ old.isMethod)
    rw [if_neg ne]
    exact ⟨(extends_adopt p owner id).declares declared', attached⟩

theorem Attaches.declares_of_isMethod (h : p.Attaches) {id : FunctionId} (method : p.IsMethod id) :
    p.Declares id := by
  obtain ⟨type, name, entry⟩ := isMethod_iff.1 method
  exact (h type name id entry).1

/-- Functions that were just added are in no table. -/
theorem Attaches.addFunctions (h : p.Attaches) (fs : List Function) :
    (p.addFunctions fs).2.Attaches ∧
      ∀ id ∈ (p.addFunctions fs).1,
        (p.addFunctions fs).2.Declares id ∧ ¬(p.addFunctions fs).2.IsMethod id := by
  have added := added_addFunctions p fs
  refine ⟨addFunctions_induct p fs (I := fun _ q => q.Attaches) h fun _ _ f _ hq =>
    hq.addFunction f, fun id hid => ⟨?_, fun method => ?_⟩⟩
  · obtain ⟨i, hi, rfl⟩ := List.getElem_of_mem hid
    exact ((List.forall₂_iff_get.1 added.functions).2 i hi (added.functions.length_eq ▸ hi)).1
  · have old : p.IsMethod id := by
      unfold IsMethod at method ⊢
      rwa [added.types] at method
    exact added.fresh id hid (h.declares_of_isMethod old)

theorem Attaches.adoptAll (h : p.Attaches) (owner : TypeId) {ids : List FunctionId}
    (distinct : ids.Nodup) (ready : ∀ id ∈ ids, p.Declares id ∧ ¬p.IsMethod id) :
    (ids.foldl (fun p id => p.adopt owner id) p).Attaches := by
  induction ids generalizing p with
  | nil => exact h
  | cons id ids ih =>
    obtain ⟨notHead, distinct⟩ := List.nodup_cons.1 distinct
    obtain ⟨declared, free⟩ := ready id List.mem_cons_self
    refine ih (h.adopt owner declared free) distinct fun other hother => ?_
    obtain ⟨declared', free'⟩ := ready other (List.mem_cons_of_mem _ hother)
    refine ⟨(extends_adopt p owner id).declares declared', fun method => ?_⟩
    rcases isMethod_adopt method with rfl | old
    · exact notHead hother
    · exact free' old

theorem Attaches.listOf (h : p.Attaches) {element : TypeId} (known : p.types.Knows element) :
    (p.listOf element).2.Attaches := by
  cases found : p.types.findList? element with
  | some list =>
    rw [listOf_eq_known found]
    exact h
  | none =>
    have bare : (p.withList element).2.Attaches := by
      obtain ⟨-, functions, -⟩ := withList_new known
      refine h.of_entries (hasEntry_withList known) fun id declared => ?_
      rw [Declares, function, functions]
      exact ⟨declared, rfl⟩
    rw [listOf_eq_new found, addMethods_eq]
    obtain ⟨attaches, ready⟩ := bare.addFunctions (ListMethod.all element (p.arrayOf element).1)
    exact attaches.adoptAll _ (added_addFunctions _ _).distinct ready

theorem attaches_empty : Program.Attaches {} := by
  rintro type name id ⟨m, hm, hx⟩
  change m ∈ (Registry.initial.get type).members? at hm
  rcases Registry.get_initial type with ⟨t, stored⟩ | stored <;> rw [stored] at hm <;> cases hm
  cases hx

end Program

namespace Shared

/-- Makes functions methods of `owner`, one after the other. One that is refused is reported. -/
def attachAll (owner : TypeId) (ids : List FunctionId) (s : Shared) : Shared :=
  ids.foldl
    (fun s id =>
      match (addMethod owner id).run s with
      | .ok _ s => s
      | .error e s => { s with diagnostics := s.diagnostics.errorAt e.line e.message }) s

/-- The list type of an element type, whose methods join it as any methods join their type. -/
def listOf (s : Shared) (element : TypeId) : TypeId × Shared :=
  match s.program.types.findList? element with
  | some list => (list, s)
  | none =>
    let (list, p) := s.program.withList element
    let (ids, p) := p.addFunctions (ListMethod.all element (s.program.arrayOf element).1)
    (list, attachAll list ids { s with program := p })

/-- Functions of different names that do not override become methods of a type that has no methods
    of these names: none of them is refused. -/
theorem attachAll_eq {owner : TypeId} {ids : List FunctionId} {p : Program} (d : Diagnostics)
    (fs : List Function) (object : p.types.isObject owner = true)
    (functions : List.Forall₂ (fun id f => p.Declares id ∧ p.function id = f) ids fs)
    (distinct : ids.Nodup) (names : (fs.map Function.name).Nodup)
    (plain : ∀ f ∈ fs, f.traits.isOverride = false)
    (unused : ∀ f ∈ fs, (p.types.get owner).ownMethod? f.name = none) :
    attachAll owner ids ⟨p, d⟩ = ⟨ids.foldl (fun p id => p.adopt owner id) p, d⟩ := by
  induction ids generalizing p fs with
  | nil => rfl
  | cons id ids ih =>
    obtain _ | ⟨head, tail⟩ := functions
    rename_i f fs
    obtain ⟨notHead, distinct⟩ := List.nodup_cons.1 distinct
    rw [List.map_cons, List.nodup_cons] at names
    have joins : p.methodFault? owner (p.function id) = none := by
      rw [Program.methodFault?, head.2, plain f List.mem_cons_self, unused f List.mem_cons_self]
      rfl
    have first : (addMethod owner id).run ⟨p, d⟩ = .ok () ⟨p.adopt owner id, d⟩ := by
      rw [run_addMethod, joins]
    rw [attachAll, List.foldl_cons, List.foldl_cons, first]
    refine ih fs ((Registry.isObject_modifyMembers _ _ _ _).trans object)
      (Program.others_adopt owner head.1 notHead tail) distinct names.2
      (fun g hg => plain g (List.mem_cons_of_mem _ hg)) fun g hg => ?_
    have ne : g.name ≠ (p.function id).name := by
      rw [head.2]
      exact fun same => names.1 (same ▸ List.mem_map_of_mem hg)
    rw [Program.ownMethod?_adopt object, if_neg ne]
    exact unused g (List.mem_cons_of_mem _ hg)

theorem listOf_eq (s : Shared) {element : TypeId} (known : s.program.types.Knows element) :
    s.listOf element =
      ((s.program.listOf element).1, { s with program := (s.program.listOf element).2 }) := by
  obtain ⟨p, d⟩ := s
  cases found : p.types.findList? element with
  | some list =>
    rw [Program.listOf_eq_known found, listOf, found]
  | none =>
    obtain ⟨-, -, -, list, -, -⟩ := Program.withList_new known
    have plain (f : Function) (hf : f ∈ ListMethod.all element (p.arrayOf element).1) :
        f.traits.isOverride = false := by
      simp only [ListMethod.all, List.mem_cons, List.not_mem_nil, or_false] at hf
      rcases hf with rfl | rfl | rfl | rfl | rfl <;> rfl
    have added := Program.added_addFunctions (p.withList element).2
      (ListMethod.all element (p.arrayOf element).1)
    rw [← added.types] at list
    have attached := attachAll_eq d _ (Program.isObject_of_get_list list) added.functions
      added.distinct (Program.names_listMethods element (p.arrayOf element).1) plain fun f _ => by
        rw [list]
        rfl
    rw [Program.listOf_eq_new found, Program.addMethods_eq, listOf, found]
    exact congrArg (Prod.mk _) attached

/-- One operation that declares something, on types that the program knows. A function becomes a
    method only if it is none yet; it may be refused. -/
inductive Assembly (s : Shared) : Shared → Prop
  | declare (name : String) (parent : Option TypeId)
    (known : ∀ t ∈ parent, s.program.types.Knows t) :
    Assembly s
      { s with program := { s.program with types := (s.program.types.declare name parent).2 } }
  | addField (owner : TypeId) (name : String) (type : TypeId) :
    Assembly s
      { s with program := { s.program with types := s.program.types.addField owner name type } }
  | arrayOf (element : TypeId) (known : s.program.types.Knows element) :
    Assembly s { s with program := (s.program.arrayOf element).2 }
  | referenceTo (referent : TypeId) (known : s.program.types.Knows referent) :
    Assembly s { s with program := (s.program.referenceTo referent).2 }
  | listOf (element : TypeId) (known : s.program.types.Knows element) :
    Assembly s (s.listOf element).2
  | addFunction (f : Function) : Assembly s { s with program := (s.program.addFunction f).2 }
  | addMethod (owner : TypeId) (id : FunctionId) (declared : s.program.Declares id)
    (free : ¬s.program.IsMethod id) : Assembly s (left ((addMethod owner id).run s))

def Assemblies : Shared → Shared → Prop := Relation.ReflTransGen Assembly

variable {s t : Shared} {d : Diagnostics}

theorem eq_of_error {owner : TypeId} {id : FunctionId} {e : SyntaxError}
    (refused : (addMethod owner id).run s = .error e t) : t = s := by
  rw [run_addMethod] at refused
  split at refused <;> cases refused
  rfl

theorem left_addMethod (owner : TypeId) (id : FunctionId) (s : Shared) :
    left ((addMethod owner id).run s) = s ∨
      left ((addMethod owner id).run s) = { s with program := s.program.adopt owner id } := by
  rw [run_addMethod]
  cases s.program.methodFault? owner (s.program.function id) with
  | some e => exact .inl rfl
  | none => exact .inr rfl

theorem Assembly.attaches (step : Assembly s t) (h : s.program.Attaches) : t.program.Attaches := by
  cases step with
  | declare name parent known =>
    refine h.of_entries (fun entry => ?_) fun _ declared => ⟨declared, rfl⟩
    refine Program.hasEntry_addType _ (fun m hm => ?_) entry
    simp only [Ty.members?, Option.mem_def, Option.some.injEq] at hm
    subst hm
    rfl
  | addField owner name type =>
    refine h.of_entries (fun entry => ?_) fun _ declared => ⟨declared, rfl⟩
    refine (Program.hasEntry_modifyMembers (P := fun _ => False) (fun m x hx => ?_) entry).resolve_left
      fun lost => lost.2
    exact .inr hx
  | arrayOf element known =>
    exact h.of_entries (Program.hasEntry_of_members (Registry.Widens.arrayOf _ element).members)
      fun _ declared => ⟨declared, rfl⟩
  | referenceTo referent known =>
    exact h.of_entries (Program.hasEntry_of_members (Registry.Widens.referenceTo _ referent).members)
      fun _ declared => ⟨declared, rfl⟩
  | listOf element known =>
    rw [s.listOf_eq known]
    exact h.listOf known
  | addFunction f => exact h.addFunction f
  | addMethod owner id declared free =>
    rcases left_addMethod owner id s with same | same <;> rw [same]
    · exact h
    · exact h.adopt owner declared free

theorem Assembly.diagnostics_eq (step : Assembly s t) : t.diagnostics = s.diagnostics := by
  cases step with
  | listOf element known => rw [s.listOf_eq known]
  | addMethod owner id declared free =>
    rcases left_addMethod owner id s with same | same <;> rw [same]
  | _ => rfl

theorem Assemblies.attaches (made : Assemblies ⟨{}, d⟩ s) : s.program.Attaches := by
  induction made with
  | refl => exact Program.attaches_empty
  | tail _ step ih => exact step.attaches ih

theorem Assemblies.diagnostics_eq (made : Assemblies ⟨{}, d⟩ s) : s.diagnostics = d := by
  induction made with
  | refl => rfl
  | tail _ step ih => exact step.diagnostics_eq.trans ih

/-- A function that is made to be a method is in no table yet. -/
theorem Assemblies.addMethod (made : Assemblies ⟨{}, d⟩ s) (owner : TypeId) (f : Function) :
    Assemblies ⟨{}, d⟩ (left ((Shared.addMethod owner (s.program.addFunction f).1).run
      { s with program := (s.program.addFunction f).2 })) := by
  have added : Assemblies ⟨{}, d⟩ { s with program := (s.program.addFunction f).2 } :=
    made.tail (.addFunction f)
  refine added.tail (.addMethod owner _ (Program.declares_new s.program f) fun method => ?_)
  have old : s.program.IsMethod (s.program.addFunction f).1 := method
  exact Nat.lt_irrefl _ (made.attaches.declares_of_isMethod old)

end Shared

theorem Grammar.state_of_register_error {s : Grammar.State} {owner : TypeId} {f : Function}
    {e : SyntaxError} {t : Grammar.State} {le : t.size ≤ s.size}
    (refused : Grammar.register (some owner) f s = .error e t le) :
    t = { s with program := (s.program.addFunction f).2 } := by
  rw [Grammar.register_owner] at refused
  dsimp only at refused
  split at refused <;> cases refused
  rfl

namespace Shared

/-- However types and functions are put together, every entry of a method table is a function of the
    program in the form of a method there, and nothing is reported. A function that cannot become a method
    leaves all that is shared as it was. Where a file declares it, only that function has been
    added, and to no table. -/
theorem Assemblies.consistent {d : Diagnostics} {s : Shared} (made : Assemblies ⟨{}, d⟩ s) :
    (∀ type name id, s.program.HasEntry type name id →
      s.program.Declares id ∧ (s.program.function id).Attached type name) ∧
    s.diagnostics = d ∧
    (∀ owner id e t, (Shared.addMethod owner id).run s = .error e t → t = s) ∧
    ∀ (file : Grammar.State) owner f e t le, Grammar.register (some owner) f file = .error e t le →
      t = { file with program := (file.program.addFunction f).2 } :=
  ⟨made.attaches, made.diagnostics_eq, fun _ _ _ _ refused => eq_of_error refused,
    fun _ _ _ _ _ _ refused => Grammar.state_of_register_error refused⟩

/-- A type `A` with the constructor `new`, and the constructor that is refused behind it. -/
theorem consistent_constructor :
    let constructor : Function :=
      { name := constructorName, traits := { isStatic := true }, module := 1, line := 2 }
    let declared : Shared := ⟨{ types := (Registry.initial.declare "A" none).2 }, {}⟩
    let s := left ((addMethod ⟨6⟩ ⟨0⟩).run
      { declared with program := (declared.program.addFunction constructor).2 })
    let again : Shared := { s with program := (s.program.addFunction constructor).2 }
    Assemblies ⟨{}, {}⟩ s ∧ s.program.HasEntry ⟨6⟩ "new" ⟨0⟩ ∧
      (s.program.function ⟨0⟩).Attached ⟨6⟩ "new" ∧
      (addMethod ⟨6⟩ ⟨1⟩).run again = .error ⟨.duplicateMethod "A" "new", 2⟩ again := by
  intro constructor declared s again
  have named : Assemblies ⟨{}, {}⟩ declared := .single (.declare "A" none nofun)
  have made : Assemblies ⟨{}, {}⟩ s := named.addMethod ⟨6⟩ constructor
  have entry : s.program.HasEntry ⟨6⟩ "new" ⟨0⟩ := Program.hasEntry_of_ownMethod? (by decide +kernel)
  have more : Assemblies ⟨{}, {}⟩ again := made.tail (.addFunction constructor)
  have fault : again.program.methodFault? ⟨6⟩ (again.program.function ⟨1⟩) =
      some ⟨.duplicateMethod "A" "new", 2⟩ := by
    decide +kernel
  have refused : (addMethod ⟨6⟩ ⟨1⟩).run again =
      .error ⟨.duplicateMethod "A" "new", 2⟩ again := by
    rw [run_addMethod, fault]
  exact ⟨made, entry, (made.consistent.1 _ _ _ entry).2, refused⟩

end Shared
end ObjectLang
