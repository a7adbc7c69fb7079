import Mathlib.Data.List.Forall2
import Mathlib.Data.List.Induction
import ObjectLang.Proofs.Program.Spared
set_option autoImplicit false

/-!
# List types as they are made

A list type gets its fields and methods when it is made. Whatever is read later, they stay: a list has
no parent, so nothing overrides its methods, and it has a method of each of these names already. Of
the functions that there are, reading a file changes only the body of that file.
-/

namespace ObjectLang

namespace Program

/-- The list type of an element type, over an array type, with all that it was made with. -/
structure ListType (p : Program) (element list array : TypeId) : Prop where
  type : ∃ members, p.types.get list = .list element members ∧ members.fields.names.Nodup
  storage : p.types.get array = .array element
  fields : ∀ x ∈ [("_arr", array), ("size", TypeId.int), ("max_size", TypeId.int)],
    (p.types.get list).ownField? x.1 = some x.2
  methods : ∀ f ∈ ListMethod.all element array, ∃ id,
    (p.types.get list).ownMethod? f.name = some id ∧ p.Declares id ∧ p.function id = f.asMethod list

/-- All list types of a program have what they were made with. -/
def ListsMade (p : Program) : Prop :=
  ∀ list element members, p.types.get list = .list element members →
    ∃ array, p.ListType element list array

/-- Arrays and lists of `p` are those of `q` as well, with all that lists have in `p`, and of the
    functions of `p` only those in `C` may have changed. -/
structure Retains (C : FunctionId → Prop) (p q : Program) : Prop where
  arrays : ∀ id element, p.types.get id = .array element → q.types.get id = .array element
  lists : ∀ id element members, p.types.get id = .list element members →
    ∃ members', q.types.get id = .list element members' ∧
      (members.fields.names.Nodup → members'.fields.names.Nodup)
  fields : ∀ id element members name type, p.types.get id = .list element members →
    (p.types.get id).ownField? name = some type → (q.types.get id).ownField? name = some type
  methods : ∀ id element members name f, p.types.get id = .list element members →
    (p.types.get id).ownMethod? name = some f → (q.types.get id).ownMethod? name = some f
  functions : ∀ id, p.Declares id → ¬C id → q.function id = p.function id
  declares : p.functions.size ≤ q.functions.size

variable {C : FunctionId → Prop} {p q r : Program}

namespace Retains

theorem refl (C : FunctionId → Prop) (p : Program) : Retains C p p where
  arrays _ _ h := h
  lists _ _ members h := ⟨members, h, id⟩
  fields _ _ _ _ _ _ h := h
  methods _ _ _ _ _ _ h := h
  functions _ _ _ := rfl
  declares := Nat.le_refl _

theorem trans (h : Retains C p q) (h' : Retains C q r) : Retains C p r where
  arrays id element hp := h'.arrays id element (h.arrays id element hp)
  lists id element members hp := by
    obtain ⟨members', hq, distinct⟩ := h.lists id element members hp
    obtain ⟨members'', hr, distinct'⟩ := h'.lists id element members' hq
    exact ⟨members'', hr, fun names => distinct' (distinct names)⟩
  fields id element members name type hp hf := by
    obtain ⟨members', hq, -⟩ := h.lists id element members hp
    exact h'.fields id element members' name type hq (h.fields id element members name type hp hf)
  methods id element members name f hp hf := by
    obtain ⟨members', hq, -⟩ := h.lists id element members hp
    exact h'.methods id element members' name f hq (h.methods id element members name f hp hf)
  functions id hid fixed :=
    (h'.functions id (Nat.lt_of_lt_of_le hid h.declares) fixed).trans (h.functions id hid fixed)
  declares := Nat.le_trans h.declares h'.declares

theorem mono {C' : FunctionId → Prop} (h : Retains C p q)
    (hC : ∀ id, p.Declares id → C id → C' id) : Retains C' p q :=
  { h with functions := fun id hid fixed => h.functions id hid fun hc => fixed (hC id hid hc) }

theorem trans_fresh {D : FunctionId → Prop} (h : Retains C p q) (h' : Retains D q r)
    (fresh : ∀ id, p.Declares id → ¬D id) : Retains C p r := by
  have both : Retains (fun id => C id ∨ D id) p r :=
    (h.mono fun _ _ => .inl).trans (h'.mono fun _ _ => .inr)
  exact both.mono fun id hid changing => changing.resolve_right (fresh id hid)

theorem of_get (types : ∀ id, p.types.Knows id → q.types.get id = p.types.get id)
    (functions : ∀ id, p.Declares id → q.function id = p.function id)
    (declares : p.functions.size ≤ q.functions.size) : Retains C p q := by
  have known {id : TypeId} {t : Ty} (h : p.types.get id = t) (ht : t ≠ .primitive .void) :
      q.types.get id = p.types.get id :=
    types id (Registry.knows_of_get_ne_void (h ▸ ht))
  refine ⟨fun id element h => ?_, fun id element members h => ⟨members, ?_, fun names => names⟩,
    fun id element members name type h hf => ?_, fun id element members name f h hf => ?_,
    fun id hid _ => functions id hid, declares⟩
  · rw [known h nofun, h]
  · rw [known h nofun, h]
  · rw [known h nofun, hf]
  · rw [known h nofun, hf]

theorem addFunction (p : Program) (f : Function) : Retains C p (p.addFunction f).2 := by
  refine .of_get (fun _ _ => rfl) (fun id hid => ?_) (extends_addFunction p f).functions
  rw [function_addFunction, if_neg]
  rintro rfl
  exact Nat.lt_irrefl _ hid

theorem of_grows {types : Registry} (h : p.types.Grows types) : Retains C p { p with types } :=
  .of_get (fun _ hid => h.get_eq hid) (fun _ _ => rfl) (Nat.le_refl _)

theorem listType {element list array : TypeId} (h : Retains C p q)
    (made : p.ListType element list array)
    (fixed : ∀ id, (p.function id).parent = some list → ¬C id) : q.ListType element list array := by
  obtain ⟨members, type, names⟩ := made.type
  obtain ⟨members', type', distinct⟩ := h.lists list element members type
  refine ⟨⟨members', type', distinct names⟩, h.arrays array element made.storage, ?_, ?_⟩
  · intro x hx
    exact h.fields list element members x.1 x.2 type (made.fields x hx)
  · intro f hf
    obtain ⟨id, found, declared, same⟩ := made.methods f hf
    have parent : (p.function id).parent = some list := by
      rw [same, Function.parent_asMethod]
    refine ⟨id, h.methods list element members f.name id type found,
      Nat.lt_of_lt_of_le declared h.declares, ?_⟩
    rw [h.functions id declared (fixed id parent), same]

end Retains

theorem Retains.modifyMembers {owner : TypeId} {change : Members → Members}
    (fields : ∀ m ∈ (p.types.get owner).members?, ∀ name type,
      m.fields.find? name = some type → (change m).fields.find? name = some type)
    (methods : ∀ element m, p.types.get owner = .list element m → ∀ name f,
      m.methods.find? name = some f → (change m).methods.find? name = some f)
    (distinct : ∀ m ∈ (p.types.get owner).members?,
      m.fields.names.Nodup → (change m).fields.names.Nodup) :
    Retains C p { p with types := p.types.modifyMembers owner change } := by
  refine ⟨fun id element h => ?_, fun id element members h => ?_,
    fun id element members name type h hf => ?_, fun id element members name f h hf => ?_,
    fun _ _ _ => rfl, Nat.le_refl _⟩
  all_goals simp only [Registry.get_modifyMembers]
  · split
    · rw [h]
      rfl
    · exact h
  · split
    · rename_i same
      rw [h]
      exact ⟨_, rfl, distinct members (same ▸ h ▸ rfl)⟩
    · exact ⟨members, h, fun names => names⟩
  · split
    · rename_i same
      rw [h] at hf ⊢
      exact fields members (same ▸ h ▸ rfl) name type hf
    · exact hf
  · split
    · rename_i same
      rw [h] at hf ⊢
      exact methods element members (same ▸ h) name f hf
    · exact hf

theorem list_of_modifyMembers {r : Registry} {owner list element : TypeId}
    {change : Members → Members} {members : Members}
    (h : (r.modifyMembers owner change).get list = .list element members) :
    ∃ members, r.get list = .list element members := by
  rw [Registry.get_modifyMembers] at h
  split at h
  · cases hget : r.get list with
    | list e m =>
      rw [hget] at h
      cases h
      exact ⟨m, rfl⟩
    | primitive _ | object _ _ _ | array _ | reference _ =>
      rw [hget] at h
      cases h
  · exact ⟨members, h⟩

theorem Retains.modifyFunction {id : FunctionId} {change : Function → Function}
    (changing : ∀ other, ¬C other → other ≠ id) : Retains C p (p.modifyFunction id change) := by
  refine ⟨fun _ _ h => h, fun _ _ m h => ⟨m, h, fun names => names⟩, fun _ _ _ _ _ _ h => h,
    fun _ _ _ _ _ _ h => h, fun other _ fixed => ?_, Nat.le_of_eq (size_modifyFunction _ _ _).symm⟩
  exact Arena.get_modify_of_ne _ (changing other fixed) _

/-- A function becomes a method under a name that its owner, if it is a list, does not have yet. -/
theorem Retains.adopt {owner : TypeId} {id : FunctionId}
    (fresh : ∀ element m, p.types.get owner = .list element m →
      m.methods.find? (p.function id).name = none) :
    Retains (· = id) p (p.adopt owner id) := by
  have changed : Retains (· = id) p (p.modifyFunction id (·.asMethod owner)) :=
    .modifyFunction fun _ ne => ne
  refine changed.trans (.modifyMembers (fun m _ _ _ h => h) (fun element m h name f found => ?_)
    fun m _ names => names)
  refine (NameMap.find?_insert_of_ne _ ?_ _).trans found
  rintro rfl
  rw [fresh element m h] at found
  cases found

theorem ListsMade.of_retains (h : p.ListsMade) (retains : Retains C p q)
    (old : ∀ list element members, q.types.get list = .list element members →
      ∃ members, p.types.get list = .list element members)
    (fixed : ∀ id list, (p.function id).parent = some list → ¬C id) : q.ListsMade := by
  intro list element members hq
  obtain ⟨members', hp⟩ := old list element members hq
  obtain ⟨array, made⟩ := h list element members' hp
  exact ⟨array, retains.listType made fun id => fixed id list⟩

structure Added (p : Program) (fs : List Function) (ids : List FunctionId) (q : Program) :
    Prop where
  functions : List.Forall₂ (fun id f => q.Declares id ∧ q.function id = f) ids fs
  distinct : ids.Nodup
  fresh : ∀ id ∈ ids, ¬p.Declares id
  types : q.types = p.types
  retains : Retains (fun _ => False) p q

theorem added_addFunctions (p : Program) (fs : List Function) :
    Added p fs (p.addFunctions fs).1 (p.addFunctions fs).2 := by
  induction fs using List.reverseRecOn with
  | nil => exact ⟨.nil, .nil, nofun, rfl, .refl _ p⟩
  | append_singleton fs f ih =>
    have snoc : p.addFunctions (fs ++ [f]) =
        ((p.addFunctions fs).1 ++ [((p.addFunctions fs).2.addFunction f).1],
          ((p.addFunctions fs).2.addFunction f).2) := by
      unfold addFunctions
      rw [List.foldl_append]
      rfl
    rw [snoc]
    generalize p.addFunctions fs = r at ih ⊢
    obtain ⟨ids, q⟩ := r
    obtain ⟨functions, distinct, fresh, types, retains⟩ := ih
    have next : Retains (fun _ => False) q (q.addFunction f).2 := .addFunction q f
    have new : ¬q.Declares (q.addFunction f).1 := Nat.lt_irrefl _
    have old (id : FunctionId) (hid : id ∈ ids) : q.Declares id := by
      obtain ⟨i, hi, rfl⟩ := List.getElem_of_mem hid
      exact (List.forall₂_iff_get.1 functions).2 i hi ((functions.length_eq) ▸ hi) |>.1
    refine ⟨?_, ?_, ?_, types, retains.trans next⟩
    · refine List.rel_append (functions.imp fun id g h => ?_) (.cons ?_ .nil)
      · exact ⟨Nat.lt_of_lt_of_le h.1 next.declares,
          (next.functions id h.1 not_false).trans h.2⟩
      · exact ⟨declares_new q f, by rw [function_addFunction, if_pos rfl]⟩
    · refine List.nodup_append.2 ⟨distinct, by simp, ?_⟩
      rintro id hid other hother rfl
      exact new (List.mem_singleton.1 hother ▸ old id hid)
    · intro id hid
      rcases List.mem_append.1 hid with hid | hid
      · exact fresh id hid
      · rw [List.mem_singleton.1 hid]
        exact fun declared => new (Nat.lt_of_lt_of_le declared retains.declares)

def Adopted (p : Program) (owner : TypeId) (id : FunctionId) (f : Function) : Prop :=
  (p.types.get owner).ownMethod? f.name = some id ∧ p.Declares id ∧
    p.function id = f.asMethod owner

theorem ownMethod?_adopt {owner : TypeId} (h : p.types.isObject owner = true) (id : FunctionId)
    (name : String) : ((p.adopt owner id).types.get owner).ownMethod? name =
      if name = (p.function id).name then some id else (p.types.get owner).ownMethod? name := by
  unfold adopt Registry.addMethod
  rw [Registry.get_modifyMembers, if_pos rfl]
  unfold Ty.ownMethod?
  rw [Registry.members?_mapMembers]
  unfold Registry.isObject Ty.isObject at h
  obtain ⟨m, hm⟩ := Option.isSome_iff_exists.1 h
  rw [hm]
  simp only [Option.map_some, Option.bind_some]
  split
  · rename_i same
    rw [same, NameMap.find?_insert_self]
  · rename_i ne
    exact NameMap.find?_insert_of_ne _ ne _

theorem function_adopt (owner : TypeId) {id : FunctionId} (h : p.Declares id)
    (other : FunctionId) : (p.adopt owner id).function other =
      if other = id then (p.function id).asMethod owner else p.function other :=
  function_modifyFunction p _ h other

theorem others_adopt (owner : TypeId) {id : FunctionId} {ids : List FunctionId}
    {fs : List Function} (declared : p.Declares id) (other : id ∉ ids)
    (functions : List.Forall₂ (fun id f => p.Declares id ∧ p.function id = f) ids fs) :
    List.Forall₂ (fun id' f => (p.adopt owner id).Declares id' ∧
      (p.adopt owner id).function id' = f) ids fs := by
  have inside := (List.forall₂_and_left ids fs).2 ⟨fun id' hid => hid, functions⟩
  refine inside.imp fun id' f h => ?_
  have ne : id' ≠ id := fun same => other (same ▸ h.1)
  refine ⟨Nat.lt_of_lt_of_le h.2.1 (Nat.le_of_eq (size_modifyFunction _ _ _).symm), ?_⟩
  rw [function_adopt owner declared, if_neg ne]
  exact h.2.2

theorem adopted_adoptAll {owner : TypeId} {ids : List FunctionId} (fs : List Function)
    (object : p.types.isObject owner = true)
    (functions : List.Forall₂ (fun id f => p.Declares id ∧ p.function id = f) ids fs)
    (distinct : ids.Nodup) (names : (fs.map Function.name).Nodup) :
    let q := ids.foldl (fun p id => p.adopt owner id) p
    List.Forall₂ (q.Adopted owner) ids fs ∧
      (∀ name, name ∉ fs.map Function.name →
        (q.types.get owner).ownMethod? name = (p.types.get owner).ownMethod? name) ∧
      (∀ id, id ∉ ids → q.function id = p.function id) ∧
      q.functions.size = p.functions.size := by
  induction ids generalizing p fs with
  | nil =>
    cases functions
    exact ⟨.nil, fun _ _ => rfl, fun _ _ => rfl, rfl⟩
  | cons id ids ih =>
    obtain _ | ⟨head, tail⟩ := functions
    rename_i f fs
    obtain ⟨notHead, distinct⟩ := List.nodup_cons.1 distinct
    rw [List.map_cons, List.nodup_cons] at names
    have object' : (p.adopt owner id).types.isObject owner = true :=
      (Registry.isObject_modifyMembers _ _ _ _).trans object
    have size : (p.adopt owner id).functions.size = p.functions.size := size_modifyFunction _ _ _
    have tail' := others_adopt owner head.1 notHead tail
    obtain ⟨rest, methods, others, size'⟩ := ih fs object' tail' distinct names.2
    refine ⟨.cons ⟨?_, ?_, ?_⟩ rest, ?_, ?_, size'.trans size⟩
    · rw [List.foldl_cons, methods _ names.1, ownMethod?_adopt object, head.2, if_pos rfl]
    · exact Nat.lt_of_lt_of_le head.1 (Nat.le_of_eq (size'.trans size).symm)
    · rw [List.foldl_cons, others _ notHead, function_adopt owner head.1, if_pos rfl, head.2]
    · intro name hname
      rw [List.map_cons, List.mem_cons, not_or] at hname
      rw [List.foldl_cons, methods name hname.2, ownMethod?_adopt object, head.2, if_neg hname.1]
    · intro other hother
      rw [List.mem_cons, not_or] at hother
      rw [List.foldl_cons, others other hother.2, function_adopt owner head.1, if_neg hother.1]

theorem get_adoptAll (p : Program) (owner : TypeId) (ids : List FunctionId) :
    let q := ids.foldl (fun p id => p.adopt owner id) p
    (∀ id, id ≠ owner → q.types.get id = p.types.get id) ∧
      ∀ element m, p.types.get owner = .list element m →
        ∃ m', q.types.get owner = .list element m' ∧ m'.fields = m.fields := by
  refine adoptAll_induct p owner ids (I := fun q => (∀ id, id ≠ owner → q.types.get id =
    p.types.get id) ∧ ∀ element m, p.types.get owner = .list element m →
      ∃ m', q.types.get owner = .list element m' ∧ m'.fields = m.fields)
    ⟨fun _ _ => rfl, fun element m h => ⟨m, h, rfl⟩⟩ ?_
  rintro q id - ⟨others, own⟩
  have get (other : TypeId) : (q.adopt owner id).types.get other = if other = owner then
      (q.types.get other).mapMembers fun m =>
        { m with methods := m.methods.insert (q.function id).name id }
      else q.types.get other := Registry.get_modifyMembers _ _ _ other
  refine ⟨fun other ne => ?_, fun element m h => ?_⟩
  · rw [get, if_neg ne, others other ne]
  · obtain ⟨m', hq, fields⟩ := own element m h
    rw [get, if_pos rfl, hq]
    exact ⟨_, rfl, fields⟩

theorem withList_new {element : TypeId} (h : p.types.Knows element) :
    ¬p.types.Knows (p.withList element).1 ∧
    (p.withList element).2.functions = p.functions ∧
    (p.withList element).2.types.get (p.arrayOf element).1 = .array element ∧
    (p.withList element).2.types.get (p.withList element).1 = .list element
      { fields := .ofList [("_arr", (p.arrayOf element).1), ("size", .int), ("max_size", .int)] } ∧
    (∀ id, p.types.Knows id → (p.withList element).2.types.get id = p.types.get id) ∧
    ∀ id other m, (p.withList element).2.types.get id = .list other m →
      id = (p.withList element).1 ∨ p.types.get id = .list other m := by
  have h' := (extends_arrayOf p element).knows h
  have grows := Registry.grows_arrayOf p.types element
  have stored := get_arrayOf h
  simp only [withList, addList_eq h']
  have grows' := Registry.grows_add (p.arrayOf element).2.types
    (.list element { fields := .ofList [("_arr", (p.arrayOf element).1), ("size", .int),
      ("max_size", .int)] }) (known_of_list h' _)
  refine ⟨?_, rfl, ?_, ?_, ?_, ?_⟩
  · exact Nat.not_lt.2 grows.size_le
  · exact (grows'.get_eq (knows_arrayOf h)).trans stored
  · rw [Registry.get_add]
    exact if_pos rfl
  · exact fun id hid => (grows'.get_eq (grows.knows hid)).trans (grows.get_eq hid)
  · intro id other m hid
    rw [Registry.get_add] at hid
    split at hid
    · rename_i new
      exact .inl (by cases id; exact congrArg TypeId.mk new)
    · right
      have members := (Registry.Widens.arrayOf p.types element).members id
      rcases Registry.intern_cases p.types (p.types.findArray? element) element (.array element)
        rfl with same | ⟨known, added⟩
      · exact same ▸ hid
      · have hid : (p.types.arrayOf element).2.get id = .list other m := hid
        unfold Registry.arrayOf at hid
        rw [added, Registry.get_add] at hid
        split at hid
        · cases hid
        · exact hid

theorem find?_listFields (array : TypeId) :
    ∀ x ∈ [("_arr", array), ("size", TypeId.int), ("max_size", TypeId.int)],
      (NameMap.ofList [("_arr", array), ("size", .int), ("max_size", .int)]).find? x.1 =
        some x.2 := by
  have unfolded : NameMap.ofList [("_arr", array), ("size", TypeId.int), ("max_size", .int)] =
      ((NameMap.empty.insert "_arr" array).insert "size" .int).insert "max_size" .int := rfl
  simp only [List.forall_mem_cons, unfolded]
  refine ⟨?_, ?_, ?_, nofun⟩
  · rw [NameMap.find?_insert_of_ne _ (by decide), NameMap.find?_insert_of_ne _ (by decide),
      NameMap.find?_insert_self]
  · rw [NameMap.find?_insert_of_ne _ (by decide), NameMap.find?_insert_self]
  · rw [NameMap.find?_insert_self]

theorem names_listFields (array : TypeId) :
    (NameMap.ofList [("_arr", array), ("size", TypeId.int), ("max_size", .int)]).names.Nodup := by
  have one : (NameMap.empty.insert "_arr" array).names.Nodup :=
    NameMap.nodup_names_insert (m := .empty) .nil (NameMap.find?_empty "_arr")
  have two : ((NameMap.empty.insert "_arr" array).insert "size" TypeId.int).names.Nodup :=
    NameMap.nodup_names_insert one (by
      rw [NameMap.find?_insert_of_ne _ (by decide), NameMap.find?_empty])
  exact NameMap.nodup_names_insert two (by
    rw [NameMap.find?_insert_of_ne _ (by decide), NameMap.find?_insert_of_ne _ (by decide),
      NameMap.find?_empty])

theorem names_listMethods (element array : TypeId) :
    ((ListMethod.all element array).map Function.name).Nodup := by
  change ["reSize", "getSize", "at", "append", "new"].Nodup
  decide

/-- A list that is made gets its methods, and no other function changes. -/
theorem adopted_listOf {element : TypeId} (known : p.types.Knows element)
    (fresh : p.types.findList? element = none) :
    ¬p.types.Knows (p.listOf element).1 ∧ ∃ ids,
      List.Forall₂ ((p.listOf element).2.Adopted (p.listOf element).1) ids
        (ListMethod.all element (p.arrayOf element).1) ∧
      ∀ id, id ∉ ids → (p.listOf element).2.function id = p.function id := by
  obtain ⟨new, functions, -, type, -, -⟩ := withList_new known
  rw [listOf_eq_new fresh, addMethods_eq]
  generalize (p.withList element).1 = list at *
  generalize (p.withList element).2 = q at *
  let fs := ListMethod.all element (p.arrayOf element).1
  have added := added_addFunctions q fs
  have declared := addFunctions_induct q fs
    (I := fun ids r => ∀ id, r.Declares id → q.Declares id ∨ id ∈ ids) (fun _ => .inl)
    fun ids r f _ before id declares => by
      rcases (declares_addFunction r f id).1 declares with rfl | old
      · exact .inr (List.mem_append_right _ (List.mem_singleton_self _))
      · exact (before id old).imp_right (List.mem_append_left _)
  have unchanged (id : FunctionId) (other : id ∉ (q.addFunctions fs).1) :
      (q.addFunctions fs).2.function id = p.function id := by
    have still : q.function id = p.function id := by rw [function, functions, function]
    by_cases old : q.Declares id
    · exact (added.retains.functions id old not_false).trans still
    · rw [← still, function_of_not_declares old]
      exact function_of_not_declares fun new => (declared id new).elim old other
  have object : (q.addFunctions fs).2.types.isObject list = true :=
    isObject_of_get_list (added.types.symm ▸ type)
  obtain ⟨adopted, -, kept, -⟩ := adopted_adoptAll fs object added.functions added.distinct
    (names_listMethods element (p.arrayOf element).1)
  exact ⟨new, _, adopted, fun id other => (kept id other).trans (unchanged id other)⟩

theorem ListsMade.listOf (h : p.ListsMade) {element : TypeId}
    (known : p.types.Knows element) : (p.listOf element).2.ListsMade ∧
      ∀ C, Retains C p (p.listOf element).2 := by
  cases found : p.types.findList? element with
  | some list =>
    rw [listOf_eq_known found]
    exact ⟨h, fun C => .refl C p⟩
  | none =>
    rw [listOf_eq_new found]
    obtain ⟨new, functions, storage, type, same, old⟩ := withList_new known
    generalize (p.withList element).1 = list at *
    generalize (p.withList element).2 = q at *
    generalize (p.arrayOf element).1 = array at *
    let fs := ListMethod.all element array
    have added := added_addFunctions q fs
    rw [addMethods_eq]
    generalize (q.addFunctions fs).2 = r at *
    generalize (q.addFunctions fs).1 = ids at *
    have type' : r.types.get list = .list element _ := added.types ▸ type
    have object : r.types.isObject list = true := isObject_of_get_list type'
    obtain ⟨adopted, -, kept, size⟩ := adopted_adoptAll fs object added.functions added.distinct
      (names_listMethods element array)
    obtain ⟨others, own⟩ := get_adoptAll r list ids
    generalize ids.foldl (fun p id => p.adopt list id) r = s at *
    have sizes : p.functions.size = q.functions.size := congrArg Arena.size functions.symm
    have ne (id : TypeId) (hid : p.types.Knows id) : id ≠ list := fun same => new (same ▸ hid)
    have retains (C : FunctionId → Prop) : Retains C p s := by
      refine .of_get (fun id hid => ?_) (fun id hid => ?_) ?_
      · rw [others id (ne id hid), added.types, same id hid]
      · have declared : q.Declares id := Nat.lt_of_lt_of_le hid (Nat.le_of_eq sizes)
        rw [kept id fun inside => added.fresh id inside declared,
          added.retains.functions id declared not_false, function, functions, function]
      · rw [sizes, size]
        exact added.retains.declares
    refine ⟨fun list' element' members hs => ?_, retains⟩
    by_cases isNew : list' = list
    · obtain ⟨m, type, fields⟩ := own _ _ type'
      rw [isNew, type] at hs
      obtain ⟨rfl, rfl⟩ : element = element' ∧ m = members := by cases hs; exact ⟨rfl, rfl⟩
      refine ⟨array, ⟨⟨m, isNew ▸ type, fields ▸ names_listFields array⟩, ?_, ?_, ?_⟩⟩
      · have ne : array ≠ list := by
          rintro rfl
          rw [added.types, storage] at type'
          cases type'
        rw [others array ne, added.types, storage]
      · intro x hx
        rw [isNew, type]
        simp only [Ty.ownField?, Ty.members?, Option.bind_some, fields]
        exact find?_listFields array x hx
      · intro f hf
        obtain ⟨i, hi, rfl⟩ := List.getElem_of_mem hf
        have paired := (List.forall₂_iff_get.1 adopted).2 i (adopted.length_eq ▸ hi) hi
        rw [isNew]
        exact ⟨_, paired⟩
    · have hr : q.types.get list' = .list element' members := by
        rw [← added.types, ← others list' isNew, hs]
      obtain ⟨array', made⟩ := h list' element' members ((old list' element' members hr).resolve_left isNew)
      exact ⟨array', (retains fun _ => False).listType made fun _ _ => not_false⟩

theorem findMethod?_list {list element : TypeId} {members : Members}
    (type : p.types.get list = .list element members) (name : String) :
    p.types.findMethod? list name = (p.types.get list).ownMethod? name := by
  have orphan : p.types.parent? list = none := by
    rw [Registry.parent?, type]
    rfl
  rw [Registry.findMethod?, Registry.ancestry_unfold, orphan]
  simp only [List.findSome?_cons, List.findSome?_nil]
  cases (p.types.get list).ownMethod? name <;> rfl

theorem ListsMade.constructor (h : p.ListsMade) {list element : TypeId} {members : Members}
    (type : p.types.get list = .list element members) {f : FunctionId}
    (found : p.types.findMethod? list constructorName = some f) :
    (p.function f).kind = (0, true) ∧ p.Declares f := by
  obtain ⟨array, made⟩ := h list element members type
  obtain ⟨id, own, declared, same⟩ := made.methods (ListMethod.constructor array)
    (by simp [ListMethod.all])
  rw [findMethod?_list type] at found
  obtain rfl : id = f := Option.some.inj (own.symm.trans found)
  rw [same, Function.kind_asMethod]
  exact ⟨rfl, declared⟩

/-- The constructor of a list that was just asked for. -/
theorem ListsMade.constructor_listOf {element : TypeId} (h : (p.listOf element).2.ListsMade)
    (known : p.types.Knows element) {f : FunctionId}
    (found : (p.listOf element).2.types.findMethod? (p.listOf element).1 constructorName = some f) :
    ((p.listOf element).2.function f).kind = (0, true) ∧ (p.listOf element).2.Declares f := by
  obtain ⟨members, type⟩ := get_listOf known
  exact h.constructor type found

end Program

namespace Draft

variable {earlier : List Module} {d e : Draft}

structure Made (d : Draft) : Prop where
  lists : d.program.ListsMade
  body : ∀ id ∈ d.module.body, (d.program.function id).parent = none

structure Goes (d e : Draft) : Prop where
  made : e.Made
  retains : d.program.Retains (fun id => d.module.body = some id) e.program
  body : e.module.body = d.module.body

theorem Made.fixed (h : d.Made) (id : FunctionId) (list : TypeId)
    (parent : (d.program.function id).parent = some list) : ¬d.module.body = some id := by
  intro body
  rw [h.body id body] at parent
  cases parent

theorem Made.goes_types (h : d.Made) {types : Registry}
    (retains : d.program.Retains (fun id => d.module.body = some id) { d.program with types })
    (old : ∀ list element members, types.get list = .list element members →
      ∃ members, d.program.types.get list = .list element members) {m : Module}
    (body : m.body = d.module.body) :
    Goes d { program := { d.program with types }, module := m } :=
  ⟨⟨h.lists.of_retains retains old h.fixed, fun id hid => h.body id (body ▸ hid)⟩, retains, body⟩

theorem Made.goes_module (h : d.Made) {m : Module} (body : m.body = d.module.body) :
    Goes d { d with module := m } :=
  ⟨⟨h.lists, fun id hid => h.body id (body ▸ hid)⟩, .refl _ _, body⟩

theorem list_of_added {r : Registry} {t : Ty} {known : ∀ c ∈ t.components, c.index < r.size}
    (other : ∀ element members, t ≠ .list element members) {list element : TypeId}
    {members : Members} (h : (r.add t known).2.get list = .list element members) :
    ∃ members, r.get list = .list element members := by
  rw [Registry.get_add] at h
  split at h
  · exact absurd h (other element members)
  · exact ⟨members, h⟩

theorem list_of_intern {r : Registry} {known : Option TypeId} {component : TypeId} {t : Ty}
    {ht : t.components = [component]} (other : ∀ element members, t ≠ .list element members)
    {list element : TypeId} {members : Members}
    (h : (r.intern known component t ht).2.get list = .list element members) :
    ∃ members, r.get list = .list element members := by
  rcases Registry.intern_cases r known component t ht with same | ⟨added, new⟩
  · exact ⟨members, same ▸ h⟩
  · rw [new] at h
    exact list_of_added other h

theorem Made.goes_addFunction (hd : d.Grounded earlier) (h : d.Made) (f : Function) {m : Module}
    (body : m.body = d.module.body) :
    Goes d { program := (d.program.addFunction f).2, module := m } := by
  have retains : d.program.Retains (fun id => d.module.body = some id) (d.program.addFunction f).2 :=
    .addFunction _ f
  refine ⟨⟨h.lists.of_retains retains (fun _ _ members hq => ⟨members, hq⟩) h.fixed, ?_⟩, retains,
    body⟩
  intro id hid
  have own : id ∈ d.module.body := body ▸ hid
  have same : (d.program.addFunction f).2.function id = d.program.function id := by
    rw [Program.function_addFunction, if_neg]
    rintro rfl
    exact Nat.lt_irrefl _ (hd.module.body _ own)
  exact (congrArg Function.parent same).trans (h.body id own)

theorem body_addType (m : Module) (id : TypeId) : (m.addType id).body = m.body := by
  unfold Module.addType
  split <;> rfl

theorem body_importFunction (m : Module) (id : FunctionId) :
    (m.importFunction id).body = m.body := by
  unfold Module.importFunction
  split <;> rfl

theorem body_importType (m : Module) (id : TypeId) : (m.importType id).body = m.body := by
  unfold Module.importType
  split <;> rfl

theorem fresh_of_joins {p : Program} {owner element : TypeId} {m : Members} {f : Function}
    (list : p.types.get owner = .list element m) (joins : p.methodFault? owner f = none) :
    m.methods.find? f.name = none := by
  have orphan : p.types.parent? owner = none := by
    rw [Registry.parent?, list]
    rfl
  have inherited : p.inheritedTraits? owner f.name = none := by
    unfold Program.inheritedTraits?
    rw [orphan]
    rfl
  unfold Program.methodFault? at joins
  rw [inherited] at joins
  split at joins
  · cases joins
  · split at joins
    · cases joins
    · rename_i hnone
      rw [list] at hnone
      exact Option.not_isSome_iff_eq_none.1 hnone

theorem Step.goes (hd : d.Grounded earlier) (h : d.Made) (step : Step earlier d e) : Goes d e := by
  cases step with
  | arrayOf element known =>
    refine h.goes_types (.of_grows (Registry.grows_arrayOf _ _)) (fun list e members hq => ?_) rfl
    exact list_of_intern (fun _ _ same => by cases same) hq
  | referenceTo referent known =>
    refine h.goes_types (.of_grows (Registry.grows_referenceTo _ _))
      (fun list e members hq => ?_) rfl
    exact list_of_intern (fun _ _ same => by cases same) hq
  | listOf element known filled =>
    obtain ⟨lists, retains⟩ := h.lists.listOf known
    refine ⟨⟨lists, fun id hid => ?_⟩, retains _, body_addType _ _⟩
    have own : id ∈ d.module.body := body_addType d.module _ ▸ hid
    have same := (retains fun _ => False).functions id (hd.module.body id own) not_false
    exact (congrArg Function.parent same).trans (h.body id own)
  | declare name parent objects plain =>
    refine h.goes_types (.of_grows (grows_declare _ _ _)) (fun list e members hq => ?_)
      (body_addType _ _)
    exact list_of_added (fun _ _ same => by cases same) hq
  | addField owner name type declared fresh known filled =>
    have retains : d.program.Retains (fun id => d.module.body = some id)
        { d.program with types := d.program.types.addField owner name type } := by
      have unused (m : Members) (hm : m ∈ (d.program.types.get owner).members?) :
          m.fields.find? name = none := by
        rw [← fresh, Ty.ownField?, hm, Option.bind_some]
      refine .modifyMembers (fun m hm other t found => ?_) (fun _ _ _ _ _ found => found)
        fun m hm names => NameMap.nodup_names_insert names (unused m hm)
      refine (NameMap.find?_insert_of_ne _ ?_ _).trans found
      rintro rfl
      rw [unused m hm] at found
      cases found
    exact h.goes_types retains (fun list e members hq => Program.list_of_modifyMembers hq) rfl
  | addFunction f formed own free fresh => exact h.goes_addFunction hd f rfl
  | addMethod owner f formed own free object constructors admitted joins =>
    have added := h.goes_addFunction hd f (m := d.module.addFunction (d.program.addFunction f).1) rfl
    have function : (d.program.addFunction f).2.function (d.program.addFunction f).1 = f := by
      rw [Program.function_addFunction, if_pos rfl]
    have adopts : (d.program.addFunction f).2.Retains (· = (d.program.addFunction f).1)
        ((d.program.addFunction f).2.adopt owner (d.program.addFunction f).1) := by
      refine .adopt fun element m list => ?_
      rw [function]
      exact fresh_of_joins list joins
    have new (id : FunctionId) (hid : d.program.Declares id) :
        id ≠ (d.program.addFunction f).1 := by
      rintro rfl
      exact Nat.lt_irrefl _ hid
    have retains := added.retains.trans_fresh adopts new
    refine ⟨⟨added.made.lists.of_retains adopts (fun list e members hq =>
      Program.list_of_modifyMembers hq) ?_, ?_⟩, retains, rfl⟩
    · rintro id list parent rfl
      rw [function, free] at parent
      cases parent
    · intro id hid
      have ne := new id (hd.module.body id hid)
      have same : ((d.program.addFunction f).2.adopt owner (d.program.addFunction f).1).function id =
          (d.program.addFunction f).2.function id := Arena.get_modify_of_ne _ ne _
      exact (congrArg Function.parent same).trans (added.made.body id hid)
  | refuse f formed own free => exact h.goes_addFunction hd f rfl
  | importFunction source id read shown offered => exact h.goes_module (body_importFunction _ _)
  | importType source id read shown => exact h.goes_module (body_importType _ _)
  | setBody id statements body formed =>
    have parents (other : FunctionId) : ((d.program.modifyFunction id fun f =>
        { f with body := statements }).function other).parent = (d.program.function other).parent := by
      rw [Program.function_modifyFunction _ _ (hd.module.body id body)]
      split
      · rename_i same
        rw [same]
      · rfl
    have retains : d.program.Retains (fun id => d.module.body = some id)
        (d.program.modifyFunction id fun f => { f with body := statements }) := by
      refine .modifyFunction fun other fixed => ?_
      rintro rfl
      exact fixed body
    exact ⟨⟨h.lists.of_retains retains (fun _ _ members hq => ⟨members, hq⟩) h.fixed,
      fun other hother => (parents other).trans (h.body other hother)⟩, retains, rfl⟩

theorem Goes.refl (h : d.Made) : Goes d d := ⟨h, .refl _ _, rfl⟩

theorem Steps.goes (hd : d.Grounded earlier) (h : d.Made) (steps : Steps earlier d e) : Goes d e := by
  induction steps with
  | refl => exact .refl h
  | tail front step ih =>
    have next := step.goes (Steps.grounded hd front).1 ih.made
    exact ⟨next.made, ih.retains.trans (next.retains.mono fun id _ own => ih.body ▸ own),
      next.body.trans ih.body⟩

end Draft

theorem listsMade_initial : Program.ListsMade {} := by
  intro list element members hget
  have unlisted (t : Ty) (ht : t ∈ Registry.initial.types) : t ≠ .list element members := by
    simp only [Registry.initial, Primitive.all, List.map_cons, List.map_nil, List.cons_append,
      List.nil_append, List.mem_toArray, List.mem_cons, List.not_mem_nil, or_false] at ht
    rcases ht with rfl | rfl | rfl | rfl | rfl | rfl <;>
      · intro same
        cases same
  rw [Registry.get] at hget
  cases ht : Registry.initial.types[list.index]? with
  | none =>
    rw [ht] at hget
    cases hget
  | some t =>
    rw [ht] at hget
    exact absurd hget (unlisted t (Array.mem_of_getElem? ht))

end ObjectLang
