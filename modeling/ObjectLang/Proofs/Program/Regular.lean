import ObjectLang.Proofs.Grammar.File
set_option autoImplicit false

/-!
# Types by their names

While files are read, types are made in a few ways only. So every array and every reference type is
there once, and no type with members has the name of a builtin one. A file lists the types that it
sees once each. It sees the builtin types and, apart from them, types with members.
-/

namespace ObjectLang

namespace Registry

variable {r r' : Registry} {t : TypeId}

/-- One type is made, unless it was there, or the members of one change. -/
inductive Change (r : Registry) : Registry → Prop
  | array (element : TypeId) : Change r (r.arrayOf element).2
  | reference (referent : TypeId) : Change r (r.referenceTo referent).2
  | list (element : TypeId) (members : Members) : Change r (r.addList element members).2
  | object (name : String) (parent : Option TypeId) (plain : builtin? name = none) :
    Change r (r.declare name parent).2
  | members (owner : TypeId) (change : Members → Members) :
    Change r (r.modifyMembers owner change)

def Changes : Registry → Registry → Prop := Relation.ReflTransGen Change

theorem changes_addMethods (p : Program) (owner : TypeId) (methods : List Function) :
    Changes p.types (p.addMethods owner methods).types := by
  have added := Program.addFunctions_induct p methods (I := fun _ q => q.types = p.types) rfl
    fun _ _ _ _ same => same
  rw [Program.addMethods_eq]
  exact Program.adoptAll_induct _ owner _ (I := fun q => Changes p.types q.types) (added ▸ .refl)
    fun q id _ changes => changes.tail (.members owner _)

theorem changes_listOf (p : Program) (element : TypeId) :
    Changes p.types (p.listOf element).2.types := by
  cases found : p.types.findList? element with
  | some list =>
    rw [Program.listOf_eq_known found]
    exact .refl
  | none =>
    have array : Changes p.types (p.arrayOf element).2.types := .single (.array element)
    have made : Changes p.types (p.withList element).2.types := by
      unfold Program.withList
      exact array.tail (.list element _)
    rw [Program.listOf_eq_new found]
    exact made.trans (changes_addMethods (p.withList element).2 (p.withList element).1
      (ListMethod.all element (p.arrayOf element).1))

theorem changes_of_step {earlier : List Module} {d e : Draft} (step : Draft.Step earlier d e) :
    Changes d.program.types e.program.types := by
  cases step with
  | arrayOf element known => exact .single (.array element)
  | referenceTo referent known => exact .single (.reference referent)
  | listOf element known filled => exact changes_listOf _ element
  | declare name parent objects plain => exact .single (.object name parent plain)
  | addField owner name type declared fresh known filled => exact .single (.members owner _)
  | addMethod owner f formed own free object constructors admitted joins =>
    exact .single (.members owner _)
  | _ => exact .refl

/-- Arrays and references are there once, and the names of builtin types are not given again. -/
structure Regular (r : Registry) : Prop where
  array : ∀ s t element, r.get s = .array element → r.get t = .array element → s = t
  reference : ∀ s t referent,
    r.get s = .reference referent → r.get t = .reference referent → s = t
  plain : ∀ t, r.isObject t = true → t ≠ .object → builtin? (r.name t) = none

theorem knows_of_isObject (h : r.isObject t = true) : r.Knows t :=
  Program.knows_of_isObject (p := { types := r }) h

theorem not_of_find?_eq_none {p : Ty → Bool} (h : r.find? p = none) (known : r.Knows t) :
    p (r.get t) = false := by
  rw [find?, Option.map_eq_none_iff, Array.findIdx?_eq_none_iff] at h
  exact h _ (Array.mem_of_getElem? (get_eq_of_knows known))

theorem get_ne_array {element : TypeId} (h : r.findArray? element = none) (t : TypeId) :
    r.get t ≠ .array element := by
  intro same
  have known : r.Knows t := knows_of_get_ne_void (by rw [same]; nofun)
  have apart := not_of_find?_eq_none h known
  simp [same, isArrayOf] at apart

theorem get_ne_reference {referent : TypeId} (h : r.findReference? referent = none)
    (t : TypeId) : r.get t ≠ .reference referent := by
  intro same
  have known : r.Knows t := knows_of_get_ne_void (by rw [same]; nofun)
  have apart := not_of_find?_eq_none h known
  simp [same, isReferenceTo] at apart

/-- The spelling of a list is in brackets. -/
theorem builtin?_brackets (name : String) : builtin? ("[" ++ name ++ "]") = none := by
  have differs (other : String) (h : other.toList.head? ≠ some '[') :
      other ≠ "[" ++ name ++ "]" := by
    rintro rfl
    exact h (by simp)
  unfold builtin?
  rw [if_neg (differs "Object" (by decide)).symm, Primitive.named?, Option.map_eq_none_iff,
    List.find?_eq_none]
  intro p _
  rw [beq_iff_eq]
  exact differs p.name (by cases p <;> decide)

theorem get_add_self (u : Ty) (known : ∀ c ∈ u.components, c.index < r.size) :
    (r.add u known).2.get (r.add u known).1 = u := by
  rw [get_add]
  exact if_pos rfl

/-- A type that is added is not there yet if it is an array or a reference, and it does not take the
    name of a builtin type. -/
theorem Regular.add (h : r.Regular) {u : Ty} (known : ∀ c ∈ u.components, c.index < r.size)
    (array : ∀ element, u = .array element → r.findArray? element = none)
    (reference : ∀ referent, u = .reference referent → r.findReference? referent = none)
    (plain : u.isObject = true → builtin? ((r.add u known).2.name (r.add u known).1) = none) :
    (r.add u known).2.Regular := by
  have same (t : TypeId) (ht : t.index = r.size) : t = (r.add u known).1 := by
    cases t
    exact congrArg TypeId.mk ht
  refine ⟨fun s t element hs ht => ?_, fun s t referent hs ht => ?_, fun t object base => ?_⟩
  · rw [get_add] at hs ht
    split at hs <;> split at ht
    · rename_i s_new t_new
      exact (same s s_new).trans (same t t_new).symm
    · exact absurd ht (get_ne_array (array element hs) t)
    · exact absurd hs (get_ne_array (array element ht) s)
    · exact h.array s t element hs ht
  · rw [get_add] at hs ht
    split at hs <;> split at ht
    · rename_i s_new t_new
      exact (same s s_new).trans (same t t_new).symm
    · exact absurd ht (get_ne_reference (reference referent hs) t)
    · exact absurd hs (get_ne_reference (reference referent ht) s)
    · exact h.reference s t referent hs ht
  · rw [isObject, get_add] at object
    split at object
    · rename_i t_new
      exact same t t_new ▸ plain object
    · have old : r.Knows t := knows_of_isObject object
      rw [(grows_add r u known).name_eq old]
      exact h.plain t object base

theorem Regular.modifyMembers (h : r.Regular) (owner : TypeId) (change : Members → Members) :
    (r.modifyMembers owner change).Regular := by
  have array (t element : TypeId) (made : (r.modifyMembers owner change).get t = .array element) :
      r.get t = .array element := by
    rw [get_modifyMembers] at made
    split at made
    · cases same : r.get t <;> rw [same] at made <;> cases made
      rfl
    · exact made
  have reference (t referent : TypeId)
      (made : (r.modifyMembers owner change).get t = .reference referent) :
      r.get t = .reference referent := by
    rw [get_modifyMembers] at made
    split at made
    · cases same : r.get t <;> rw [same] at made <;> cases made
      rfl
    · exact made
  refine ⟨fun s t e hs ht => h.array s t e (array s e hs) (array t e ht),
    fun s t e hs ht => h.reference s t e (reference s e hs) (reference t e ht), ?_⟩
  intro t object base
  rw [isObject_modifyMembers] at object
  have old : r.Knows t := knows_of_isObject object
  rw [(keepsShape_modifyMembers r owner change).name_eq old]
  exact h.plain t object base

theorem Regular.change (h : r.Regular) (change : Change r r') : r'.Regular := by
  cases change with
  | array element =>
    unfold arrayOf intern
    split
    · exact h
    · rename_i fresh
      split
      · exact h.add _ (fun e same => by cases same; exact fresh) nofun nofun
      · exact h
  | reference referent =>
    unfold referenceTo intern
    split
    · exact h
    · rename_i fresh
      split
      · exact h.add _ nofun (fun e same => by cases same; exact fresh) nofun
      · exact h
  | list element members =>
    unfold addList intern
    dsimp only
    split
    · refine h.add _ nofun nofun fun _ => ?_
      rw [name_unfold, get_add_self]
      exact builtin?_brackets _
    · exact h
  | object name parent plain =>
    refine h.add _ nofun nofun fun _ => ?_
    rw [name_unfold, get_add_self]
    exact plain
  | members owner change => exact h.modifyMembers owner change

theorem Regular.changes (h : r.Regular) (changes : Changes r r') : r'.Regular := by
  induction changes with
  | refl => exact h
  | tail _ change ih => exact ih.change change

theorem regular_initial : initial.Regular := by
  have primitive (t : TypeId) (ht : t ≠ .object) : ∃ p, initial.get t = .primitive p := by
    obtain ⟨i⟩ := t
    match i with
    | 0 => exact ⟨.int, rfl⟩
    | 1 => exact ⟨.float, rfl⟩
    | 2 => exact ⟨.bool, rfl⟩
    | 3 => exact ⟨.char, rfl⟩
    | 4 => exact ⟨.void, rfl⟩
    | 5 => exact absurd rfl ht
    | _ + 6 => exact ⟨.void, rfl⟩
  have made (t : TypeId) : (∃ p, initial.get t = .primitive p) ∨
      initial.get t = .object "Object" none {} := by
    by_cases ht : t = .object
    · exact .inr (ht ▸ rfl)
    · exact .inl (primitive t ht)
  refine ⟨fun s t element hs _ => ?_, fun s t referent hs _ => ?_, fun t object base => ?_⟩
  · rcases made s with ⟨p, same⟩ | same <;> rw [same] at hs <;> cases hs
  · rcases made s with ⟨p, same⟩ | same <;> rw [same] at hs <;> cases hs
  · obtain ⟨p, same⟩ := primitive t base
    rw [isObject, same] at object
    cases object

end Registry

structure Module.ListsTypes (m : Module) (p : Program) : Prop where
  once : m.types.Nodup
  shown : ∀ t ∈ m.types,
    t ∈ Primitive.all.map Primitive.id ++ [.object] ∨ Module.isObjectType p t = true

namespace Module.ListsTypes

variable {m : Module} {p q : Program}

theorem transport (h : m.ListsTypes p) (closed : m.Closed p)
    (shape : p.types.KeepsShape q.types) : m.ListsTypes q := by
  refine ⟨h.once, fun t ht => (h.shown t ht).imp_right fun object => ?_⟩
  obtain ⟨change, same⟩ := shape.get t (closed.types t ht)
  rw [Module.isObjectType, Registry.isObject] at object ⊢
  rw [same, Registry.isObject_mapMembers]
  exact object

theorem addType (h : m.ListsTypes p) {id : TypeId} (object : Module.isObjectType p id = true) :
    (m.addType id).ListsTypes p := by
  unfold Module.addType
  split
  · exact h
  · rename_i fresh
    have fresh : id ∉ m.types := fun seen => fresh (List.contains_iff_mem.2 seen)
    constructor
    · rw [Module.types, ← List.append_assoc]
      refine List.nodup_append.2 ⟨h.once, List.pairwise_singleton _ id, ?_⟩
      rintro t ht _ new rfl
      exact fresh (List.mem_singleton.1 new ▸ ht)
    · intro t ht
      rw [Module.types, ← List.append_assoc] at ht
      rcases List.mem_append.1 ht with old | new
      · exact h.shown t old
      · exact .inr (List.mem_singleton.1 new ▸ object)

theorem importType (h : m.ListsTypes p) {id : TypeId}
    (shown : id ∈ Primitive.all.map Primitive.id ++ [.object] ∨
      Module.isObjectType p id = true) : (m.importType id).ListsTypes p := by
  unfold Module.importType
  split
  · exact h
  · rename_i fresh
    refine ⟨List.nodup_cons.2 ⟨fun seen => fresh (List.contains_iff_mem.2 seen), h.once⟩, ?_⟩
    intro t ht
    rcases List.mem_cons.1 ht with rfl | old
    · exact shown
    · exact h.shown t old

theorem importFunction (h : m.ListsTypes p) (id : FunctionId) :
    (m.importFunction id).ListsTypes p := by
  unfold Module.importFunction
  split
  · exact h
  · exact ⟨h.once, h.shown⟩

end Module.ListsTypes

namespace Draft

variable {earlier : List Module} {d e : Draft}

structure Regular (earlier : List Module) (d : Draft) : Prop where
  types : d.program.types.Regular
  module : d.module.ListsTypes d.program
  earlier : ∀ m ∈ earlier, m.ListsTypes d.program

theorem isObjectType_of_plain {p : Program} {t : TypeId} (names : p.types.NamesBuiltins)
    (object : p.types.isObject t = true) (plain : Registry.builtin? (p.types.name t) = none) :
    Module.isObjectType p t = true := by
  rw [Module.isObjectType, object, Bool.and_true, bne_iff_ne]
  rintro rfl
  rw [names "Object" .object rfl] at plain
  cases plain

theorem isObjectType_listOf {p : Program} {element : TypeId} (known : p.types.Knows element)
    (names : (p.listOf element).2.types.NamesBuiltins) :
    Module.isObjectType (p.listOf element).2 (p.listOf element).1 = true := by
  obtain ⟨members, made⟩ := Program.get_listOf known
  refine isObjectType_of_plain names (Program.isObject_of_get_list made) ?_
  rw [Registry.name_unfold, made]
  exact Registry.builtin?_brackets _

theorem isObjectType_declare {p : Program} {name : String} (parent : Option TypeId)
    (plain : Registry.builtin? name = none)
    (names : (p.types.declare name parent).2.NamesBuiltins) :
    Module.isObjectType { p with types := (p.types.declare name parent).2 }
      (p.types.declare name parent).1 = true := by
  have made : (p.types.declare name parent).2.get (p.types.declare name parent).1 =
      .object name (parent.filter fun t => t.index < p.types.size) {} :=
    Registry.get_add_self _ _
  refine isObjectType_of_plain (p := { p with types := (p.types.declare name parent).2 }) names ?_ ?_
  · exact congrArg Ty.isObject made
  · change Registry.builtin? ((p.types.declare name parent).2.name _) = none
    rw [Registry.name_unfold, made]
    exact plain

theorem Step.regular (hd : d.Closed earlier) (h : d.Regular earlier) (step : Step earlier d e) :
    e.Regular earlier := by
  have shape := step.keepsShape
  have names := (step.closed hd).names
  have listed := h.module.transport hd.module shape
  refine ⟨h.types.changes (Registry.changes_of_step step), ?_,
    fun m hm => (h.earlier m hm).transport (hd.earlier m hm) shape⟩
  cases step with
  | listOf element known filled => exact listed.addType (isObjectType_listOf known names)
  | declare name parent objects plain =>
    exact listed.addType (isObjectType_declare parent plain names)
  | importFunction source id read shown offered => exact listed.importFunction id
  | importType source id read shown =>
    exact listed.importType ((h.earlier source read).shown id (List.mem_append_right _ shown))
  | _ => exact ⟨listed.once, listed.shown⟩

theorem Steps.regular (hd : d.Closed earlier) (h : d.Regular earlier) (steps : Steps earlier d e) :
    e.Regular earlier := by
  induction steps with
  | refl => exact h
  | tail front step ih => exact step.regular (Steps.closed hd front).1 ih

end Draft

structure Library.Regular (modules : List Module) (p : Program) : Prop where
  types : p.types.Regular
  modules : ∀ m ∈ modules, m.ListsTypes p

theorem Draft.regular_start {earlier : List Module} {p : Program} (h : Library.Regular earlier p)
    (name path : String) : (start earlier name path p).Regular earlier := by
  obtain ⟨types, -⟩ := importAll_keeps ((earlier.head?.map Module.ownFunctions).getD [])
    { Module.new name earlier.length with file := path }
  have visible : (start earlier name path p).module.types =
      Primitive.all.map Primitive.id ++ [.object] := types.trans (Module.types_new name earlier.length)
  exact ⟨h.types, ⟨visible ▸ by decide, fun t ht => .inl (visible ▸ ht)⟩,
    fun m hm => ⟨(h.modules m hm).once, (h.modules m hm).shown⟩⟩

theorem Written.regular {modules : List Module} {p : Program} (h : Written modules p) :
    Library.Regular modules p := by
  induction h with
  | nil => exact ⟨Registry.regular_initial, nofun⟩
  | file earlier p name path d front steps ih =>
    have read := Draft.Steps.regular (Draft.closed_start front.library name path)
      (Draft.regular_start ih name path) steps
    refine ⟨read.types, fun m hm => ?_⟩
    rcases List.mem_append.1 hm with old | new
    · exact read.earlier m old
    · exact List.mem_singleton.1 new ▸ read.module

end ObjectLang
