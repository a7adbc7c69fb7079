import ObjectLang.Proofs.Program.Draft
set_option autoImplicit false

/-!
# Closed programs

Everything that the tables of a program refer to is in the tables: the types of fields and
parameters, the methods of types, and what the bodies of functions mention. Every step of reading a
file keeps a program closed.
-/

namespace ObjectLang

namespace Program

variable {p q : Program}

theorem function_addFunction (p : Program) (f : Function) (id : FunctionId) :
    (p.addFunction f).2.function id =
      if id = (p.addFunction f).1 then f else p.function id := by
  have hindex : id.index = p.functions.functions.size ↔ id = (p.addFunction f).1 := by
    cases id
    simp [addFunction, Arena.add]
  by_cases h : id = (p.addFunction f).1
  · have h' := hindex.2 h
    rw [if_pos h]
    simp only [addFunction, function, Arena.add, Arena.get, Array.getElem?_push, if_pos h',
      Option.getD_some]
  · have h' : id.index ≠ p.functions.functions.size := fun he => h (hindex.1 he)
    rw [if_neg h]
    simp only [addFunction, function, Arena.add, Arena.get, Array.getElem?_push, if_neg h']

theorem declares_addFunction (p : Program) (f : Function) (id : FunctionId) :
    (p.addFunction f).2.Declares id ↔ id = (p.addFunction f).1 ∨ p.Declares id := by
  cases id
  simp only [Declares, addFunction, Arena.add, Arena.size, Array.size_push, FunctionId.mk.injEq]
  omega

theorem declares_new (p : Program) (f : Function) :
    (p.addFunction f).2.Declares (p.addFunction f).1 :=
  (declares_addFunction p f _).2 (.inl rfl)

theorem function_modifyFunction (p : Program) {id : FunctionId} (change : Function → Function)
    (h : p.Declares id) (other : FunctionId) : (p.modifyFunction id change).function other =
      if other = id then change (p.function id) else p.function other := by
  by_cases ho : other = id
  · subst ho
    rw [if_pos rfl]
    simp only [modifyFunction, function, Arena.modify, Arena.get, Array.getElem?_modify, if_true]
    rw [Array.getElem?_eq_getElem h]
    rfl
  · rw [if_neg ho]
    exact p.functions.get_modify_of_ne ho change

theorem modifyFunction_of_not_declares {id : FunctionId} (h : ¬p.Declares id)
    (change : Function → Function) : p.modifyFunction id change = p := by
  have hsize : p.functions.functions.size ≤ id.index := Nat.le_of_not_lt h
  have hsame : p.functions.modify id change = p.functions := by
    have : p.functions.functions.modify id.index change = p.functions.functions := by
      apply Array.ext_getElem?
      intro i
      rw [Array.getElem?_modify]
      split
      · rename_i hi
        rw [← hi, Array.getElem?_eq_none hsize]
        rfl
      · rfl
    simp only [Arena.modify, this]
  rw [modifyFunction, hsame]

theorem size_modifyFunction (p : Program) (id : FunctionId) (change : Function → Function) :
    (p.modifyFunction id change).functions.size = p.functions.size :=
  p.functions.size_modify id change

theorem function_of_not_declares {id : FunctionId} (h : ¬p.Declares id) :
    p.function id = { name := "", module := 0, line := 0 } := by
  have hnone : p.functions.functions[id.index]? = none :=
    Array.getElem?_eq_none (Nat.le_of_not_lt h)
  rw [function, Arena.get, hnone]
  rfl

end Program

theorem Function.kind_asMethod (f : Function) (owner : TypeId) :
    (f.asMethod owner).kind = f.kind := by
  unfold Function.asMethod Function.withReceiver
  dsimp only
  split <;> split <;> rfl

namespace Program

theorem extends_addFunction (p : Program) (f : Function) : p.Extends (p.addFunction f).2 := by
  refine ⟨Nat.le_refl _, fun _ _ => rfl, by simp [addFunction, Arena.add, Arena.size], ?_⟩
  intro id declared
  rw [function_addFunction, if_neg]
  rintro rfl
  exact Nat.lt_irrefl _ declared

theorem extends_modifyFunction (p : Program) (id : FunctionId) {change : Function → Function}
    (kind : (change (p.function id)).kind = (p.function id).kind) :
    p.Extends (p.modifyFunction id change) := by
  refine ⟨Nat.le_refl _, fun _ _ => rfl, Nat.le_of_eq (p.size_modifyFunction id change).symm, ?_⟩
  intro other declared
  by_cases hid : p.Declares id
  · rw [function_modifyFunction p change hid]
    split
    · rename_i same
      rw [kind, same]
    · rfl
  · rw [modifyFunction_of_not_declares hid]

theorem extends_modifyMembers (p : Program) (owner : TypeId) (change : Members → Members) :
    p.Extends { p with types := p.types.modifyMembers owner change } :=
  ⟨Nat.le_of_eq (p.types.size_modifyMembers owner change).symm,
    fun id _ => p.types.isObject_modifyMembers owner change id, Nat.le_refl _, fun _ _ => rfl⟩

end Program

structure Members.Closed (p : Program) (m : Members) : Prop where
  fields : ∀ x ∈ m.fields.entries, p.types.Knows x.2
  methods : ∀ x ∈ m.methods.entries, p.Declares x.2

structure Program.Tables (p : Program) : Prop where
  builtin : 6 ≤ p.types.size
  primitives : ∀ t : Primitive, p.types.get t.id = .primitive t
  members : ∀ id, ∀ m ∈ (p.types.get id).members?, m.Closed p
  signatures : ∀ id, (p.function id).Signed p

structure Program.Closed (p : Program) : Prop extends p.Tables where
  bodies : ∀ id, Statement.FormedAll p (p.function id).body

structure Module.Closed (p : Program) (m : Module) : Prop where
  types : ∀ t ∈ m.types, p.types.Knows t
  functions : ∀ f ∈ m.functions, p.Declares f
  body : ∀ f ∈ m.body, p.Declares f

theorem NameMap.mem_insert {α : Type} {m : NameMap α} {name : String} {value : α}
    {x : String × α} (h : x ∈ (m.insert name value).entries) :
    x = (name, value) ∨ x ∈ m.entries := by
  obtain ⟨entries⟩ := m
  simp only [insert] at h ⊢
  induction entries with
  | nil => simpa [insertEntry] using h
  | cons e rest ih =>
    obtain ⟨key, old⟩ := e
    rw [insertEntry] at h
    split at h
    · rcases List.mem_cons.1 h with h | h
      · exact .inl h
      · exact .inr (List.mem_cons_of_mem _ h)
    · split at h
      · rcases List.mem_cons.1 h with h | h
        · exact .inl h
        · exact .inr h
      · rcases List.mem_cons.1 h with rfl | h
        · exact .inr List.mem_cons_self
        · exact (ih h).imp id (List.mem_cons_of_mem _)

theorem Members.Closed.mono {p q : Program} (h : p.Extends q) {m : Members} (hm : m.Closed p) :
    m.Closed q where
  fields x hx := h.knows (hm.fields x hx)
  methods x hx := h.declares (hm.methods x hx)

theorem Module.Closed.mono {p q : Program} (h : p.Extends q) {m : Module} (hm : m.Closed p) :
    m.Closed q where
  types t ht := h.knows (hm.types t ht)
  functions f hf := h.declares (hm.functions f hf)
  body f hf := h.declares (hm.body f hf)

namespace Program.Tables

variable {p : Program}

theorem knows_primitive (hp : p.Tables) (t : Primitive) : p.types.Knows t.id := by
  have hsize := hp.builtin
  cases t <;> simp only [Registry.Knows, Primitive.id, TypeId.int, TypeId.float, TypeId.bool,
    TypeId.char, TypeId.void] <;> omega

theorem knows_object (hp : p.Tables) : p.types.Knows .object := hp.builtin

theorem knows_literal (hp : p.Tables) (value : Literal) : p.types.Knows value.type := by
  cases value with
  | int => exact hp.knows_primitive .int
  | float => exact hp.knows_primitive .float
  | bool => exact hp.knows_primitive .bool
  | char => exact hp.knows_primitive .char
  | none => exact hp.knows_object

theorem knows_fieldType? (hp : p.Tables) {owner type : TypeId} {name : String}
    (h : p.types.fieldType? owner name = some type) : p.types.Knows type := by
  rw [Registry.fieldType?] at h
  obtain ⟨t, -, ht⟩ := List.exists_of_findSome?_eq_some h
  rw [Ty.ownField?, Option.bind_eq_some_iff] at ht
  obtain ⟨m, hm, hf⟩ := ht
  obtain ⟨front, behind, he, -⟩ := List.lookup_eq_some_iff.1 hf
  apply (hp.members t m hm).fields (name, type)
  rw [he]
  exact List.mem_append_right _ List.mem_cons_self

theorem declares_findMethod? (hp : p.Tables) {owner : TypeId} {name : String} {f : FunctionId}
    (h : p.types.findMethod? owner name = some f) : p.Declares f := by
  rw [Registry.findMethod?] at h
  obtain ⟨t, -, ht⟩ := List.exists_of_findSome?_eq_some h
  rw [Ty.ownMethod?, Option.bind_eq_some_iff] at ht
  obtain ⟨m, hm, hf⟩ := ht
  obtain ⟨front, behind, he, -⟩ := List.lookup_eq_some_iff.1 hf
  apply (hp.members t m hm).methods (name, f)
  rw [he]
  exact List.mem_append_right _ List.mem_cons_self

theorem ne_void_of_get (hp : p.Tables) {id : TypeId} (h : p.types.get id ≠ .primitive .void) :
    id ≠ .void := by
  rintro rfl
  exact h (hp.primitives .void)

theorem ne_void_of_isObject (hp : p.Tables) {id : TypeId} (h : p.types.isObject id = true) :
    id ≠ .void := by
  apply hp.ne_void_of_get
  intro hget
  rw [Registry.isObject, hget] at h
  exact Bool.false_ne_true h

theorem of_signatures {q : Program} (hp : p.Tables) (ht : q.types = p.types)
    (h : p.Extends q) (hs : ∀ id, (q.function id).Signed q) : q.Tables := by
  refine ⟨ht ▸ hp.builtin, ht ▸ hp.primitives, ?_, hs⟩
  intro id m hm
  rw [ht] at hm
  exact (hp.members id m hm).mono h

theorem addType (hp : p.Tables) (t : Ty) (known : ∀ c ∈ t.components, c.index < p.types.size)
    (hm : ∀ m ∈ t.members?, m.Closed p) :
    ({ p with types := (p.types.add t known).2 } : Program).Tables := by
  have h : p.Extends { p with types := (p.types.add t known).2 } :=
    .of_types (Registry.grows_add p.types t known) rfl
  refine ⟨Nat.le_trans hp.builtin h.types, ?_, ?_, fun id => (hp.signatures id).mono h⟩
  · intro u
    exact ((Registry.grows_add p.types t known).get_eq (hp.knows_primitive u)).trans
      (hp.primitives u)
  intro id m hmem
  rw [Registry.get_add] at hmem
  split at hmem
  · exact (hm m hmem).mono h
  · exact (hp.members id m hmem).mono h

theorem intern (hp : p.Tables) (known : Option TypeId) (component : TypeId) (t : Ty)
    (ht : t.components = [component]) (hm : ∀ m ∈ t.members?, m.Closed p) :
    ({ p with types := (p.types.intern known component t ht).2 } : Program).Tables := by
  rcases Registry.intern_cases p.types known component t ht with he | ⟨hc, he⟩
  · rw [he]
    exact hp
  · rw [he]
    exact hp.addType t hc hm

theorem arrayOf (hp : p.Tables) (element : TypeId) : (p.arrayOf element).2.Tables :=
  hp.intern _ element (.array element) rfl nofun

theorem referenceTo (hp : p.Tables) (referent : TypeId) : (p.referenceTo referent).2.Tables :=
  hp.intern _ referent (.reference referent) rfl nofun

end Program.Tables

namespace Program.Closed

variable {p q : Program}

theorem functions (hp : p.Closed) (id : FunctionId) : (p.function id).Formed p :=
  ⟨hp.signatures id, hp.bodies id⟩

theorem of_formed (builtin : 6 ≤ p.types.size)
    (primitives : ∀ t : Primitive, p.types.get t.id = .primitive t)
    (members : ∀ id, ∀ m ∈ (p.types.get id).members?, m.Closed p)
    (functions : ∀ id, (p.function id).Formed p) : p.Closed :=
  ⟨⟨builtin, primitives, members, fun id => (functions id).toSigned⟩, fun id => (functions id).body⟩

theorem of_functions (hp : p.Closed) (ht : q.types = p.types) (h : p.Extends q)
    (hf : ∀ id, q.function id = p.function id ∨ (q.function id).Formed q) : q.Closed := by
  have formed (id : FunctionId) : (q.function id).Formed q := by
    rcases hf id with he | he
    · rw [he]
      exact (hp.functions id).mono h
    · exact he
  exact ⟨hp.of_signatures ht h fun id => (formed id).toSigned, fun id => (formed id).body⟩

theorem of_tables (hp : p.Closed) (h : p.types.Grows q.types) (hf : q.functions = p.functions)
    (hq : q.Tables) : q.Closed := by
  have extended : p.Extends q := .of_types h hf
  refine ⟨hq, fun id => ?_⟩
  rw [function, hf]
  exact Statement.formedAll_mono extended _ (hp.bodies id)

theorem addFunction (hp : p.Closed) {f : Function} (hf : f.Formed p) :
    (p.addFunction f).2.Closed := by
  have h := extends_addFunction p f
  refine hp.of_functions rfl h fun id => ?_
  rw [function_addFunction]
  split
  · exact .inr (hf.mono h)
  · exact .inl rfl

theorem modifyFunction (hp : p.Closed) (id : FunctionId) {change : Function → Function}
    (kind : (change (p.function id)).kind = (p.function id).kind)
    (hc : (change (p.function id)).Formed p) : (p.modifyFunction id change).Closed := by
  by_cases hid : p.Declares id
  · have h := extends_modifyFunction p id kind
    refine hp.of_functions rfl h fun other => ?_
    rw [function_modifyFunction p change hid]
    split
    · exact .inr (hc.mono h)
    · exact .inl rfl
  · rw [modifyFunction_of_not_declares hid]
    exact hp

theorem addType (hp : p.Closed) (t : Ty) (known : ∀ c ∈ t.components, c.index < p.types.size)
    (hm : ∀ m ∈ t.members?, m.Closed p) :
    ({ p with types := (p.types.add t known).2 } : Program).Closed :=
  hp.of_tables (Registry.grows_add p.types t known) rfl (hp.toTables.addType t known hm)

theorem modifyMembers (hp : p.Closed) (owner : TypeId) (change : Members → Members)
    (hc : ∀ m, m.Closed p → (change m).Closed p) :
    ({ p with types := p.types.modifyMembers owner change } : Program).Closed := by
  have h := extends_modifyMembers p owner change
  refine .of_formed (Nat.le_trans hp.builtin h.types) ?_ ?_ fun id => (hp.functions id).mono h
  · intro u
    simp only [Registry.get_modifyMembers, hp.primitives u]
    split <;> rfl
  intro id m hmem
  simp only [Registry.get_modifyMembers] at hmem
  split at hmem
  · have hmembers := hp.members id
    revert hmem hmembers
    cases p.types.get id with
    | object name parent members =>
      intro hmem hmembers
      simp only [Ty.mapMembers, Ty.members?, Option.mem_def, Option.some.injEq] at hmem
      subst hmem
      exact (hc members (hmembers members rfl)).mono h
    | list element members =>
      intro hmem hmembers
      simp only [Ty.mapMembers, Ty.members?, Option.mem_def, Option.some.injEq] at hmem
      subst hmem
      exact (hc members (hmembers members rfl)).mono h
    | _ => simp [Ty.mapMembers, Ty.members?]
  · exact (hp.members id m hmem).mono h

end Program.Closed

namespace Program

variable {p q : Program}

theorem extends_adopt (p : Program) (owner : TypeId) (id : FunctionId) :
    p.Extends (p.adopt owner id) :=
  (extends_modifyFunction p id (Function.kind_asMethod _ owner)).trans
    (extends_modifyMembers _ owner _)

theorem knows_of_isObject {id : TypeId} (h : p.types.isObject id = true) : p.types.Knows id := by
  apply Nat.lt_of_not_le
  intro hle
  have hnone : p.types.types[id.index]? = none := Array.getElem?_eq_none hle
  rw [Registry.isObject, Registry.get, hnone] at h
  exact Bool.false_ne_true h

end Program

theorem Function.Formed.withReceiver {p : Program} {f : Function} (hf : f.Formed p)
    {owner : TypeId} (known : p.types.Knows owner) (filled : owner ≠ .void) :
    (f.withReceiver owner).Formed p := by
  unfold Function.withReceiver
  split
  · exact hf
  · refine ⟨⟨?_, hf.returnType⟩, hf.body⟩
    intro x hx
    rcases List.mem_cons.1 hx with rfl | hx
    · exact ⟨known, filled⟩
    · exact hf.parameters x hx

theorem Function.Formed.asConstructor {p : Program} {f : Function} (hf : f.Formed p)
    {owner : TypeId} (ho : p.types.isObject owner = true) : (f.asConstructor owner).Formed p where
  parameters := hf.parameters
  returnType := Program.knows_of_isObject ho
  body := by
    refine ⟨⟨trivial, nofun, ⟨Program.knows_of_isObject ho, ho⟩⟩, ?_⟩
    exact (Statement.formedAll_append p _ _).2 ⟨hf.body, trivial, trivial⟩

theorem Function.parent_asMethod (f : Function) (owner : TypeId) :
    (f.asMethod owner).parent = some owner := by
  unfold Function.asMethod Function.asConstructor Function.withReceiver
  dsimp only
  split <;> split <;> rfl

theorem Function.name_asMethod (f : Function) (owner : TypeId) :
    (f.asMethod owner).name = f.name := by
  unfold Function.asMethod Function.asConstructor Function.withReceiver
  dsimp only
  split <;> split <;> rfl

theorem Function.Formed.asMethod {p : Program} (hp : p.Closed) {f : Function} (hf : f.Formed p)
    {owner : TypeId} (ho : p.types.isObject owner = true) : (f.asMethod owner).Formed p := by
  have owned : ({ f with parent := some owner } : Function).Formed p :=
    ⟨⟨hf.parameters, hf.returnType⟩, hf.body⟩
  have receiver := owned.withReceiver (Program.knows_of_isObject ho) (hp.ne_void_of_isObject ho)
  unfold Function.asMethod
  dsimp only
  split
  · exact receiver.asConstructor ho
  · exact receiver

namespace Program

variable {p : Program}

theorem Closed.adopt (hp : p.Closed) {owner : TypeId} (ho : p.types.isObject owner = true)
    {id : FunctionId} (hid : p.Declares id) : (p.adopt owner id).Closed := by
  have kind := (p.function id).kind_asMethod owner
  have hm : (p.modifyFunction id (·.asMethod owner)).Closed :=
    hp.modifyFunction id kind ((hp.functions id).asMethod hp ho)
  have h : p.Extends (p.modifyFunction id (·.asMethod owner)) := p.extends_modifyFunction id kind
  refine hm.modifyMembers owner _ fun m hc => ⟨hc.fields, ?_⟩
  intro x hx
  rcases NameMap.mem_insert hx with rfl | hx
  · exact h.declares hid
  · exact hc.methods x hx

theorem Closed.arrayOf (hp : p.Closed) (element : TypeId) : (p.arrayOf element).2.Closed :=
  hp.of_tables (Registry.grows_arrayOf p.types element) rfl (hp.toTables.arrayOf element)

theorem Closed.referenceTo (hp : p.Closed) (referent : TypeId) :
    (p.referenceTo referent).2.Closed :=
  hp.of_tables (Registry.grows_referenceTo p.types referent) rfl
    (hp.toTables.referenceTo referent)

theorem extends_arrayOf (p : Program) (element : TypeId) : p.Extends (p.arrayOf element).2 :=
  .of_types (Registry.grows_arrayOf p.types element) rfl

theorem extends_referenceTo (p : Program) (referent : TypeId) :
    p.Extends (p.referenceTo referent).2 :=
  .of_types (Registry.grows_referenceTo p.types referent) rfl

theorem get_arrayOf {element : TypeId} (h : p.types.Knows element) :
    (p.arrayOf element).2.types.get (p.arrayOf element).1 = .array element :=
  Registry.get_of_findArray? (Registry.findArray?_arrayOf h)

theorem knows_arrayOf {element : TypeId} (h : p.types.Knows element) :
    (p.arrayOf element).2.types.Knows (p.arrayOf element).1 :=
  (Registry.get_of_find? (Registry.findArray?_arrayOf h)).1

theorem get_referenceTo {referent : TypeId} (h : p.types.Knows referent) :
    (p.referenceTo referent).2.types.get (p.referenceTo referent).1 = .reference referent :=
  Registry.get_of_findReference? (Registry.findReference?_referenceTo h)

theorem knows_referenceTo {referent : TypeId} (h : p.types.Knows referent) :
    (p.referenceTo referent).2.types.Knows (p.referenceTo referent).1 :=
  (Registry.get_of_find? (Registry.findReference?_referenceTo h)).1

theorem formed_listMethods (hp : p.Closed) {element array : TypeId}
    (he : p.types.Knows element) (hvoid : element ≠ .void) (ha : p.types.Knows array)
    (havoid : array ≠ .void) : ∀ f ∈ ListMethod.all element array, f.Formed p := by
  have known := hp.knows_primitive
  have hint : p.types.Knows .int ∧ TypeId.int ≠ .void := ⟨known .int, by decide⟩
  intro f hf
  simp only [ListMethod.all, List.mem_cons, List.not_mem_nil, or_false] at hf
  rcases hf with rfl | rfl | rfl | rfl | rfl
  · refine ⟨⟨fun x hx => ?_, known .void⟩, ?_⟩
    · rw [List.mem_singleton.1 hx]
      exact hint
    · simp [ListMethod.reSize, ListMethod.shared, Statement.declare, ListMethod.var,
        ListMethod.own, ListMethod.assign, ListMethod.perform, Statement.FormedAll,
        Statement.Formed, Expr.Formed, Expr.FormedAll, he]
  · refine ⟨⟨List.forall_mem_nil _, known .int⟩, ?_⟩
    simp [ListMethod.getSize, ListMethod.shared, ListMethod.own, ListMethod.var,
      Statement.FormedAll, Statement.Formed, Expr.Formed]
  · refine ⟨⟨fun x hx => ?_, he⟩, ?_⟩
    · rw [List.mem_singleton.1 hx]
      exact hint
    · simp [ListMethod.elementAt, ListMethod.shared, ListMethod.own, ListMethod.var,
        ListMethod.binary, ListMethod.int, ListMethod.perform, Statement.FormedAll,
        Statement.Formed, Expr.Formed, Expr.FormedAll]
  · refine ⟨⟨fun x hx => ?_, known .void⟩, ?_⟩
    · rw [List.mem_singleton.1 hx]
      exact ⟨he, hvoid⟩
    · simp [ListMethod.append, ListMethod.shared, ListMethod.own, ListMethod.var,
        ListMethod.binary, ListMethod.int, ListMethod.perform, ListMethod.assign,
        Statement.FormedAll, Statement.Formed, Expr.Formed, Expr.FormedAll]
  · refine ⟨⟨fun x hx => ?_, known .void⟩, ?_⟩
    · simp only [ListMethod.constructor, ListMethod.shared, List.mem_cons, List.not_mem_nil,
        or_false] at hx
      rcases hx with rfl | rfl
      · exact ⟨ha, havoid⟩
      · exact hint
    · simp [ListMethod.constructor, ListMethod.shared, ListMethod.own, ListMethod.var,
        ListMethod.int, ListMethod.perform, ListMethod.assign,
        Statement.FormedAll, Statement.Formed, Expr.Formed, Expr.FormedAll]

def addFunctions (p : Program) (fs : List Function) : List FunctionId × Program :=
  fs.foldl (fun (ids, p) f => (ids ++ [(p.addFunction f).1], (p.addFunction f).2)) ([], p)

theorem addMethods_eq (p : Program) (owner : TypeId) (methods : List Function) :
    p.addMethods owner methods =
      (p.addFunctions methods).1.foldl (fun p id => p.adopt owner id)
        (p.addFunctions methods).2 := rfl

/-- What holds at first and is kept by every added function holds of all of them. -/
theorem addFunctions_induct (p : Program) (fs : List Function)
    {I : List FunctionId → Program → Prop} (first : I [] p)
    (step : ∀ ids q, ∀ f ∈ fs, I ids q → I (ids ++ [(q.addFunction f).1]) (q.addFunction f).2) :
    I (p.addFunctions fs).1 (p.addFunctions fs).2 := by
  have go : ∀ (rest : List Function) (ids : List FunctionId) (q : Program), rest ⊆ fs →
      I ids q →
      let r := rest.foldl (fun (ids, p) f =>
        (ids ++ [(Program.addFunction p f).1], (Program.addFunction p f).2)) (ids, q)
      I r.1 r.2 := by
    intro rest
    induction rest with
    | nil => exact fun _ _ _ h => h
    | cons f rest ih =>
      intro ids q hsub h
      rw [List.cons_subset] at hsub
      exact ih _ _ hsub.2 (step ids q f hsub.1 h)
  exact go fs [] p (List.Subset.refl _) first

theorem adoptAll_induct (p : Program) (owner : TypeId) (ids : List FunctionId)
    {I : Program → Prop} (first : I p) (step : ∀ q, ∀ id ∈ ids, I q → I (q.adopt owner id)) :
    I (ids.foldl (fun p id => p.adopt owner id) p) := by
  induction ids generalizing p with
  | nil => exact first
  | cons id rest ih =>
    exact ih _ (step p id List.mem_cons_self first)
      fun q other h => step q other (List.mem_cons_of_mem _ h)

theorem Closed.addMethods (hp : p.Closed) {owner : TypeId}
    (ho : p.types.isObject owner = true) {methods : List Function}
    (hm : ∀ f ∈ methods, f.Formed p) :
    (p.addMethods owner methods).Closed ∧ p.Extends (p.addMethods owner methods) := by
  have hadded : (p.addFunctions methods).2.Closed ∧ p.Extends (p.addFunctions methods).2 ∧
      ∀ id ∈ (p.addFunctions methods).1, (p.addFunctions methods).2.Declares id := by
    refine addFunctions_induct p methods (I := fun ids q => q.Closed ∧ p.Extends q ∧
      ∀ id ∈ ids, q.Declares id) ⟨hp, .refl p, nofun⟩ ?_
    rintro ids q f hf ⟨hq, hext, hids⟩
    have hnext := extends_addFunction q f
    refine ⟨hq.addFunction ((hm f hf).mono hext), hext.trans hnext, ?_⟩
    intro id hid
    rcases List.mem_append.1 hid with hid | hid
    · exact hnext.declares (hids id hid)
    · rw [List.mem_singleton.1 hid]
      exact declares_new q f
  obtain ⟨hq, hext, hids⟩ := hadded
  rw [addMethods_eq]
  have hall := adoptAll_induct (p.addFunctions methods).2 owner (p.addFunctions methods).1
    (I := fun r => r.Closed ∧ (p.addFunctions methods).2.Extends r) ⟨hq, .refl _⟩ ?_
  · exact ⟨hall.1, hext.trans hall.2⟩
  · rintro r id hid ⟨hr, hextr⟩
    have hor : r.types.isObject owner = true := by
      rw [(hext.trans hextr).objects owner (knows_of_isObject ho)]
      exact ho
    exact ⟨hr.adopt hor (hextr.declares (hids id hid)), hextr.trans (extends_adopt r owner id)⟩

/-- The program in which a new list type has its fields and no method yet. -/
def withList (p : Program) (element : TypeId) : TypeId × Program :=
  let (array, p) := p.arrayOf element
  let fields := NameMap.ofList [("_arr", array), ("size", .int), ("max_size", .int)]
  let (list, types) := p.types.addList element { fields }
  (list, { p with types })

theorem listOf_eq_new {element : TypeId} (h : p.types.findList? element = none) :
    p.listOf element = ((p.withList element).1,
      (p.withList element).2.addMethods (p.withList element).1
        (ListMethod.all element (p.arrayOf element).1)) := by
  rw [listOf, h]
  rfl

theorem listOf_eq_known {element list : TypeId} (h : p.types.findList? element = some list) :
    p.listOf element = (list, p) := by
  rw [listOf, h]

theorem known_of_list {r : Registry} {element : TypeId} (h : r.Knows element)
    (members : Members) : ∀ c ∈ (Ty.list element members).components, c.index < r.size := by
  intro c hc
  rw [List.mem_singleton.1 hc]
  exact h

theorem addList_eq {r : Registry} {element : TypeId} (h : r.Knows element) (members : Members) :
    r.addList element members = r.add (.list element members) (known_of_list h members) := by
  simp only [Registry.addList, Registry.intern]
  exact dif_pos h

theorem Closed.withList (hp : p.Closed) {element : TypeId} (h : p.types.Knows element) :
    (p.withList element).2.Closed := by
  have ha := hp.arrayOf element
  have hknown := (extends_arrayOf p element).knows h
  simp only [Program.withList, addList_eq hknown]
  refine ha.addType _ _ ?_
  intro m hm
  simp only [Ty.members?, Option.mem_def, Option.some.injEq] at hm
  subst hm
  refine ⟨?_, List.forall_mem_nil _⟩
  intro x hx
  rcases NameMap.mem_insert hx with rfl | hx
  · exact ha.knows_primitive .int
  rcases NameMap.mem_insert hx with rfl | hx
  · exact ha.knows_primitive .int
  rcases NameMap.mem_insert hx with rfl | hx
  · exact knows_arrayOf h
  · cases hx

theorem extends_withList {element : TypeId} (h : p.types.Knows element) :
    p.Extends (p.withList element).2 := by
  have hknown := (extends_arrayOf p element).knows h
  refine (extends_arrayOf p element).trans ?_
  simp only [Program.withList, addList_eq hknown]
  exact .of_types (Registry.grows_add _ _ (known_of_list hknown _)) rfl

theorem get_withList {element : TypeId} (h : p.types.Knows element) :
    ∃ members, (p.withList element).2.types.get (p.withList element).1 =
      .list element members := by
  have hknown := (extends_arrayOf p element).knows h
  simp only [Program.withList, addList_eq hknown, Registry.get_add]
  exact ⟨_, if_pos rfl⟩

theorem get_of_findList? {r : Registry} {element list : TypeId}
    (h : r.findList? element = some list) : ∃ members, r.get list = .list element members := by
  have ht := (Registry.get_of_find? h).2
  revert ht
  cases r.get list with
  | list e members =>
    intro ht
    rw [eq_of_beq ht]
    exact ⟨members, rfl⟩
  | _ => simp [Registry.isListOf]

theorem isObject_of_get_list {r : Registry} {id element : TypeId} {members : Members}
    (h : r.get id = .list element members) : r.isObject id = true := by
  rw [Registry.isObject, h]
  rfl

theorem formed_withList (hp : p.Closed) {element : TypeId} (h : p.types.Knows element)
    (filled : element ≠ .void) :
    ∀ f ∈ ListMethod.all element (p.arrayOf element).1, f.Formed (p.withList element).2 := by
  have harray := (extends_arrayOf p element).knows h
  have hgrown : (p.arrayOf element).2.Extends (p.withList element).2 := by
    simp only [Program.withList, addList_eq harray]
    exact .of_types (Registry.grows_add _ _ (known_of_list harray _)) rfl
  intro f hf
  apply Function.Formed.mono hgrown
  refine formed_listMethods (hp.arrayOf element) harray filled (knows_arrayOf h) ?_ f hf
  refine (hp.arrayOf element).ne_void_of_get fun void => ?_
  rw [get_arrayOf h] at void
  cases void

theorem Closed.listOf (hp : p.Closed) {element : TypeId} (h : p.types.Knows element)
    (filled : element ≠ .void) :
    (p.listOf element).2.Closed ∧ p.Extends (p.listOf element).2 ∧
      (p.listOf element).2.types.isObject (p.listOf element).1 = true := by
  cases hfound : p.types.findList? element with
  | some list =>
    obtain ⟨members, hget⟩ := get_of_findList? hfound
    rw [listOf_eq_known hfound]
    exact ⟨hp, .refl p, isObject_of_get_list hget⟩
  | none =>
    obtain ⟨members, hget⟩ := get_withList h
    have hobject := isObject_of_get_list hget
    have hext := extends_withList h
    have hall := (hp.withList h).addMethods hobject (formed_withList hp h filled)
    rw [listOf_eq_new hfound]
    refine ⟨hall.1, hext.trans hall.2, ?_⟩
    rw [hall.2.objects _ (knows_of_isObject hobject)]
    exact hobject

section Functions

variable {I : Function → Prop} (hp : ∀ id, I (p.function id))
include hp

theorem forall_addFunction {f : Function} (hf : I f) (id : FunctionId) :
    I ((p.addFunction f).2.function id) := by
  rw [function_addFunction]
  split
  · exact hf
  · exact hp id

theorem forall_modifyFunction (id : FunctionId) {change : Function → Function}
    (hc : I (change (p.function id))) (other : FunctionId) :
    I ((p.modifyFunction id change).function other) := by
  by_cases hid : p.Declares id
  · rw [function_modifyFunction p change hid]
    split
    · exact hc
    · exact hp other
  · rw [modifyFunction_of_not_declares hid]
    exact hp other

theorem forall_addMethods {owner : TypeId} {methods : List Function} (hm : ∀ f ∈ methods, I f)
    (keeps : ∀ f, I f → I (f.asMethod owner)) (id : FunctionId) :
    I ((p.addMethods owner methods).function id) := by
  have hadded := addFunctions_induct p methods
    (I := fun _ q => ∀ id, I (q.function id)) hp
    fun _ q f hf hq => forall_addFunction hq (hm f hf)
  rw [addMethods_eq]
  exact adoptAll_induct _ owner _ (I := fun q => ∀ id, I (q.function id)) hadded
    (fun q other _ hq => forall_modifyFunction hq other (keeps _ (hq other))) id

theorem forall_listOf {element : TypeId}
    (hm : ∀ array, ∀ f ∈ ListMethod.all element array, I f)
    (keeps : ∀ list f, I f → I (f.asMethod list)) (id : FunctionId) :
    I ((p.listOf element).2.function id) := by
  cases hfound : p.types.findList? element with
  | some list =>
    rw [listOf_eq_known hfound]
    exact hp id
  | none =>
    rw [listOf_eq_new hfound]
    exact forall_addMethods (p := (p.withList element).2) hp (hm _) (keeps _) id

end Functions

theorem module_asMethod (f : Function) (owner : TypeId) :
    (f.asMethod owner).module = f.module := by
  unfold Function.asMethod Function.withReceiver
  dsimp only
  split <;> split <;> rfl

theorem module_listMethod {element array : TypeId} {f : Function}
    (hf : f ∈ ListMethod.all element array) : f.module = 0 := by
  simp only [ListMethod.all, List.mem_cons, List.not_mem_nil, or_false] at hf
  rcases hf with rfl | rfl | rfl | rfl | rfl <;> rfl

end Program

namespace Draft

/-- Everything that a draft refers to is known, and its functions belong to files read so far. -/
structure Grounded (earlier : List Module) (d : Draft) : Prop where
  program : d.program.Closed
  module : d.module.Closed d.program
  index : d.module.index = earlier.length
  earlier : ∀ m ∈ earlier, m.Closed d.program
  read : ∀ id, (d.program.function id).module ≤ d.module.index

theorem mem_types_addType {m : Module} {id t : TypeId} (h : t ∈ (m.addType id).types) :
    t = id ∨ t ∈ m.types := by
  unfold Module.addType at h
  split at h
  · exact .inr h
  · simp only [Module.types, List.mem_append, List.mem_singleton] at h ⊢
    rcases h with h | h | h
    · exact .inr (.inl h)
    · exact .inr (.inr h)
    · exact .inl h

theorem mem_types_importType {m : Module} {id t : TypeId} (h : t ∈ (m.importType id).types) :
    t = id ∨ t ∈ m.types := by
  unfold Module.importType at h
  split at h
  · exact .inr h
  · simp only [Module.types, List.mem_append, List.mem_cons] at h ⊢
    rwa [or_assoc] at h

theorem mem_functions_importFunction {m : Module} {id f : FunctionId}
    (h : f ∈ (m.importFunction id).functions) : f = id ∨ f ∈ m.functions := by
  unfold Module.importFunction at h
  split at h
  · exact .inr h
  · simp only [Module.functions, List.mem_append, List.mem_cons] at h ⊢
    rwa [or_assoc] at h

theorem Grounded.of_program {earlier : List Module} {d : Draft} (h : d.Grounded earlier)
    {q : Program} (hq : q.Closed) (hext : d.program.Extends q)
    (read : ∀ id, (q.function id).module ≤ d.module.index) :
    Grounded earlier { d with program := q } :=
  ⟨hq, h.module.mono hext, h.index, fun m hm => (h.earlier m hm).mono hext, read⟩

theorem Grounded.addType {earlier : List Module} {d : Draft} (h : d.Grounded earlier) {id : TypeId}
    (known : d.program.types.Knows id) :
    Grounded earlier { d with module := d.module.addType id } := by
  refine ⟨h.program, ⟨?_, ?_, ?_⟩, ?_, h.earlier, ?_⟩
  · intro t ht
    rcases mem_types_addType ht with rfl | ht
    · exact known
    · exact h.module.types t ht
  all_goals unfold Module.addType
  · split <;> exact h.module.functions
  · split <;> exact h.module.body
  · split <;> exact h.index
  · split <;> exact h.read

theorem Grounded.addFunction {earlier : List Module} {d : Draft} (h : d.Grounded earlier)
    {id : FunctionId} (known : d.program.Declares id) :
    Grounded earlier { d with module := d.module.addFunction id } := by
  refine ⟨h.program, ⟨h.module.types, ?_, h.module.body⟩, h.index, h.earlier, h.read⟩
  intro f hf
  rw [Module.functions_addFunction] at hf
  rcases List.mem_append.1 hf with hf | hf
  · exact h.module.functions f hf
  · rw [List.mem_singleton.1 hf]
    exact known

theorem grows_declare (r : Registry) (name : String) (parent : Option TypeId) :
    r.Grows (r.declare name parent).2 := by
  unfold Registry.declare
  exact Registry.grows_add r _ _

/-- Every step only adds to what is known. -/
theorem Step.extends {earlier : List Module} {d e : Draft} (hd : d.Grounded earlier)
    (h : Step earlier d e) : d.program.Extends e.program := by
  cases h with
  | arrayOf element known => exact Program.extends_arrayOf _ element
  | referenceTo referent known => exact Program.extends_referenceTo _ referent
  | listOf element known filled => exact (hd.program.listOf known filled).2.1
  | declare name parent objects plain => exact .of_types (grows_declare _ name parent) rfl
  | addField owner name type declared fresh known filled => exact Program.extends_modifyMembers _ _ _
  | addFunction f formed own free fresh => exact Program.extends_addFunction _ f
  | addMethod owner f formed own free object constructors admitted joins =>
    exact (Program.extends_addFunction _ f).trans (Program.extends_adopt _ owner _)
  | refuse f formed own free => exact Program.extends_addFunction _ f
  | importFunction source id read shown offered => exact .refl _
  | importType source id read shown => exact .refl _
  | setBody id statements body formed => exact Program.extends_modifyFunction _ id rfl

theorem knows_declare {r : Registry} (name : String) (parent : Option TypeId) :
    (r.declare name parent).2.Knows (r.declare name parent).1 := by
  simp only [Registry.declare, Registry.Knows, Registry.size_add]
  exact Nat.lt_succ_self r.size

theorem mem_methods_of_ownMethods {r : Registry} {id : TypeId} {f : FunctionId}
    (h : f ∈ r.ownMethods id) :
    ∃ m ∈ (r.get id).members?, ∃ x ∈ m.methods.entries, x.2 = f := by
  rw [Registry.ownMethods] at h
  cases hm : (r.get id).members? with
  | none => simp [hm] at h
  | some m =>
    rw [hm] at h
    obtain ⟨x, hx, hf⟩ := List.mem_map.1 h
    exact ⟨m, rfl, x, hx, hf⟩

theorem Step.grounded {earlier : List Module} {d e : Draft} (hd : d.Grounded earlier)
    (h : Step earlier d e) : e.Grounded earlier := by
  have hext := h.extends hd
  cases h with
  | arrayOf element known => exact hd.of_program (hd.program.arrayOf element) hext hd.read
  | referenceTo referent known =>
    exact hd.of_program (hd.program.referenceTo referent) hext hd.read
  | listOf element known filled =>
    obtain ⟨hq, -, hobject⟩ := hd.program.listOf known filled
    refine (hd.of_program hq hext ?_).addType (Program.knows_of_isObject hobject)
    refine Program.forall_listOf (I := fun f => f.module ≤ d.module.index) hd.read ?_ ?_
    · intro array f hf
      rw [Program.module_listMethod hf]
      exact Nat.zero_le _
    · intro list f hf
      rw [Program.module_asMethod]
      exact hf
  | declare name parent objects plain =>
    refine (hd.of_program (hd.program.addType _ _ ?_) hext hd.read).addType (knows_declare _ _)
    intro m hm
    simp only [Ty.members?, Option.mem_def, Option.some.injEq] at hm
    subst hm
    exact ⟨nofun, nofun⟩
  | addField owner name type declared fresh known filled =>
    refine hd.of_program (hd.program.modifyMembers _ _ fun m hm => ⟨?_, hm.methods⟩) hext hd.read
    intro x hx
    rcases NameMap.mem_insert hx with rfl | hx
    · exact known
    · exact hm.fields x hx
  | addFunction f formed own free fresh =>
    refine (hd.of_program (hd.program.addFunction formed) hext ?_).addFunction
      (Program.declares_new _ f)
    exact Program.forall_addFunction (I := fun f => f.module ≤ d.module.index) hd.read
      (Nat.le_of_eq own)
  | addMethod owner f formed own free object constructors admitted joins =>
    have hadded := hd.program.addFunction formed
    have hread := Program.forall_addFunction (I := fun f => f.module ≤ d.module.index) hd.read
      (Nat.le_of_eq own)
    refine (hd.of_program (hadded.adopt object (Program.declares_new _ f)) hext ?_).addFunction
      ((Program.extends_adopt _ owner _).declares (Program.declares_new _ f))
    refine Program.forall_modifyFunction (I := fun f => f.module ≤ d.module.index) hread _ ?_
    rw [Program.module_asMethod]
    exact hread _
  | refuse f formed own free =>
    exact hd.of_program (hd.program.addFunction formed) hext
      (Program.forall_addFunction (I := fun f => f.module ≤ d.module.index) hd.read
        (Nat.le_of_eq own))
  | importFunction source id read shown offered =>
    have known : d.program.Declares id := by
      rcases shown with hs | ⟨object, -, hs⟩
      · exact (hd.earlier source read).functions id (List.mem_append_right _ hs)
      · obtain ⟨m, hm, x, hx, rfl⟩ := mem_methods_of_ownMethods hs
        exact (hd.program.members object m hm).methods x hx
    refine ⟨hd.program, ⟨?_, ?_, ?_⟩, ?_, hd.earlier, ?_⟩
    rotate_left
    · intro f hf
      rcases mem_functions_importFunction hf with rfl | hf
      · exact known
      · exact hd.module.functions f hf
    all_goals unfold Module.importFunction
    · split <;> exact hd.module.body
    · split <;> exact hd.index
    · split <;> exact hd.read
    · split <;> exact hd.module.types
  | importType source id read shown =>
    refine ⟨hd.program, ⟨?_, ?_, ?_⟩, ?_, hd.earlier, ?_⟩
    · intro t ht
      rcases mem_types_importType ht with rfl | ht
      · exact (hd.earlier source read).types _ (List.mem_append_right _ shown)
      · exact hd.module.types t ht
    all_goals unfold Module.importType
    · split <;> exact hd.module.functions
    · split <;> exact hd.module.body
    · split <;> exact hd.index
    · split <;> exact hd.read
  | setBody id statements body formed =>
    have hf := hd.program.functions id
    refine hd.of_program
      (hd.program.modifyFunction id rfl ⟨⟨hf.parameters, hf.returnType⟩, formed⟩) hext ?_
    exact Program.forall_modifyFunction (I := fun f => f.module ≤ d.module.index) hd.read id
      (hd.read id)

theorem Steps.grounded {earlier : List Module} {d e : Draft} (hd : d.Grounded earlier)
    (h : Steps earlier d e) : e.Grounded earlier ∧ d.program.Extends e.program := by
  induction h with
  | refl => exact ⟨hd, .refl _⟩
  | tail _ hstep ih => exact ⟨hstep.grounded ih.1, ih.2.trans (hstep.extends ih.1)⟩

end Draft
end ObjectLang
