import ObjectLang.Proofs.Program.Interning
set_option autoImplicit false

/-!
# Tables of structural types

A program with three tables beside it, one for each way of building a type from a component. A request
looks into its table first, and whatever it registers it notes there. The tables find the same types as
a search through the registry, after any operations; so a program with tables goes the same way as one
without.
-/

namespace ObjectLang

namespace Program

variable {p q : Program}

theorem interned_adopt (h : p.types.Interned) (owner : TypeId) (id : FunctionId) :
    (p.adopt owner id).types.Interned := h.modifyMembers owner _

theorem types_addFunctions (p : Program) (methods : List Function) :
    (p.addFunctions methods).2.types = p.types :=
  addFunctions_induct p methods (I := fun _ q => q.types = p.types) rfl fun _ _ _ _ hq => hq

theorem interned_addMethods (h : p.types.Interned) (owner : TypeId) (methods : List Function) :
    (p.addMethods owner methods).types.Interned := by
  rw [addMethods_eq]
  exact adoptAll_induct _ owner _ (I := fun q => q.types.Interned)
    (p.types_addFunctions methods ▸ h) fun q id _ hq => interned_adopt hq owner id

/-- The methods of a list change nothing in what is found. -/
theorem find?_addMethods (p : Program) (owner : TypeId) (methods : List Function) (k : Former)
    (c : TypeId) : (p.addMethods owner methods).types.find? (k.builds c) =
      p.types.find? (k.builds c) := by
  rw [addMethods_eq]
  refine adoptAll_induct _ owner _
    (I := fun q => q.types.find? (k.builds c) = p.types.find? (k.builds c)) ?_ fun q id _ hq => ?_
  · rw [p.types_addFunctions methods]
  · rw [← hq]
    exact Registry.find?_modifyMembers _ owner (k.builds_mapMembers c _)

theorem interned_withList (h : p.types.Interned) {element : TypeId}
    (fresh : p.types.findList? element = none) : (p.withList element).2.types.Interned := by
  have first : (p.types.arrayOf element).2.Interned := h.arrayOf element
  have none : (p.types.arrayOf element).2.find? (Former.list.builds element) = none :=
    (p.types.findList?_arrayOf element element).trans fresh
  have second := first.intern
    (t := .list element
      { fields := .ofList [("_arr", (p.types.arrayOf element).1), ("size", .int), ("max_size", .int)] })
    rfl Former.builds_list
  rw [none] at second
  exact second

theorem Operation.interned (step : Operation p q) (h : p.types.Interned) : q.types.Interned := by
  cases step with
  | arrayOf element known => exact h.arrayOf element
  | referenceTo referent known => exact h.referenceTo referent
  | listOf element known =>
    cases found : p.types.findList? element with
    | some list =>
      rw [listOf_eq_known found]
      exact h
    | none =>
      rw [listOf_eq_new found]
      exact interned_addMethods (interned_withList h found) (p.withList element).1
        (ListMethod.all element (p.arrayOf element).1)
  | declare name parent known => exact h.declare name parent
  | addField owner name type => exact h.modifyMembers owner _
  | addFunction f => exact h
  | modifyFunction id change => exact h
  | addMethod owner id =>
    rcases p.tryMethod_cases owner id with same | same <;> rw [same]
    · exact h
    · exact interned_adopt h owner id

theorem Operations.interned (steps : Operations p q) (h : p.types.Interned) : q.types.Interned := by
  induction steps with
  | refl => exact h
  | tail _ step ih => exact step.interned ih

end Program

/-- A program, with the structural types that it has noted by their components. -/
structure Interner where
  program : Program := {}
  noted : Former → List (TypeId × TypeId) := fun _ => []

namespace Interner

def find? (m : Interner) (k : Former) (component : TypeId) : Option TypeId :=
  (m.noted k).lookup component

def register (m : Interner) (k : Former) (component : TypeId) (t : Ty)
    (built : t.components = [component]) : TypeId × Interner :=
  let (id, types) := m.program.types.intern none component t built
  (id,
    { program := { m.program with types }
      noted := fun l => if l = k then (component, id) :: m.noted l else m.noted l })

def request (m : Interner) (k : Former) (component : TypeId) (t : Ty)
    (built : t.components = [component]) : TypeId × Interner :=
  match m.find? k component with
  | some id => (id, m)
  | none => m.register k component t built

def arrayOf (m : Interner) (element : TypeId) : TypeId × Interner :=
  m.request .array element (.array element) (Ty.components_array element)

def referenceTo (m : Interner) (referent : TypeId) : TypeId × Interner :=
  m.request .reference referent (.reference referent) (Ty.components_reference referent)

def withList (m : Interner) (element : TypeId) : TypeId × Interner :=
  let (array, m) := m.arrayOf element
  let fields := NameMap.ofList [("_arr", array), ("size", .int), ("max_size", .int)]
  m.register .list element (.list element { fields }) rfl

/-- The noted list, or one that is noted with its fields and gets its methods then. -/
def listOf (m : Interner) (element : TypeId) : TypeId × Interner :=
  match m.find? .list element with
  | some list => (list, m)
  | none =>
    let (list, n) := m.withList element
    (list,
      { n with
        program := n.program.addMethods list (ListMethod.all element (m.arrayOf element).1) })

def build (m : Interner) : Former → TypeId → TypeId × Interner
  | .array => m.arrayOf
  | .reference => m.referenceTo
  | .list => m.listOf

/-- One operation, on types that are known. Only requests look at the tables. -/
inductive Step (m : Interner) : Interner → Prop
  | build (k : Former) (component : TypeId) (known : m.program.types.Knows component) :
    Step m (m.build k component).2
  | declare (name : String) (parent : Option TypeId)
      (known : ∀ t ∈ parent, m.program.types.Knows t) :
    Step m { m with
      program := { m.program with types := (m.program.types.declare name parent).2 } }
  | addField (owner : TypeId) (name : String) (type : TypeId) :
    Step m { m with
      program := { m.program with types := m.program.types.addField owner name type } }
  | addFunction (f : Function) : Step m { m with program := (m.program.addFunction f).2 }
  | addMethod (owner : TypeId) (id : FunctionId) :
    Step m { m with program := m.program.tryMethod owner id }

def Steps : Interner → Interner → Prop := Relation.ReflTransGen Step

/-- The tables find what a search finds. -/
def Agrees (m : Interner) : Prop :=
  ∀ (k : Former) (c : TypeId), m.find? k c = m.program.types.find? (k.builds c)

variable {m n : Interner}

theorem find?_register (m : Interner) (k l : Former) {component : TypeId} {t : Ty}
    (built : t.components = [component]) (c : TypeId) :
    (m.register k component t built).2.find? l c =
      if l = k ∧ component = c then some (m.register k component t built).1 else m.find? l c := by
  unfold find? register
  dsimp only
  by_cases kind : l = k
  · rw [if_pos kind]
    by_cases same : component = c
    · subst same
      rw [if_pos ⟨kind, rfl⟩]
      exact List.lookup_cons_self
    · have ne : (c == component) = false := beq_eq_false_iff_ne.2 (Ne.symm same)
      rw [if_neg fun both => same both.2, List.lookup_cons, ne]
  · rw [if_neg kind, if_neg fun both => kind both.1]

/-- What is registered is found by a search exactly where it is noted. -/
theorem Agrees.register (h : m.Agrees) {k : Former} {component : TypeId} {t : Ty}
    (built : t.components = [component]) (known : m.program.types.Knows component)
    (fresh : m.find? k component = none)
    (only : ∀ {l : Former} {c : TypeId}, l.builds c t = true ↔ l = k ∧ component = c) :
    (m.register k component t built).2.Agrees := by
  have known' : ∀ c ∈ t.components, c.index < m.program.types.size := by
    intro c hc
    rw [built] at hc
    exact List.mem_singleton.1 hc ▸ known
  have added : m.program.types.intern none component t built = m.program.types.add t known' := by
    rw [Registry.intern]
    exact dif_pos known
  intro l c
  rw [find?_register]
  change _ = (m.program.types.intern none component t built).2.find? (l.builds c)
  have id : (m.register k component t built).1 = (m.program.types.add t known').1 :=
    congrArg Prod.fst added
  rw [added, id, Registry.find?_add_eq, ← h l c]
  by_cases noted : l = k ∧ component = c
  · rw [if_pos noted, if_pos (only.2 noted)]
    obtain ⟨rfl, rfl⟩ := noted
    rw [fresh]
    rfl
  · rw [if_neg noted, if_neg fun built => noted (only.1 built), Option.or_none]

theorem Agrees.request (h : m.Agrees) {k : Former} {component : TypeId} {t : Ty}
    (built : t.components = [component]) (known : m.program.types.Knows component)
    (only : ∀ {l : Former} {c : TypeId}, l.builds c t = true ↔ l = k ∧ component = c) :
    (m.request k component t built).2.Agrees := by
  unfold Interner.request
  split
  · exact h
  · rename_i fresh
    exact h.register built known fresh only

/-- A request registers what the program without tables registers. -/
theorem Agrees.request_eq (h : m.Agrees) (k : Former) {component : TypeId} {t : Ty}
    (built : t.components = [component]) :
    ((m.request k component t built).1, (m.request k component t built).2.program) =
      ((m.program.types.intern (m.program.types.find? (k.builds component)) component t built).1,
        { m.program with types := (m.program.types.intern
          (m.program.types.find? (k.builds component)) component t built).2 }) := by
  rw [Interner.request, h k component]
  cases m.program.types.find? (k.builds component) <;> rfl

theorem Agrees.arrayOf_eq (h : m.Agrees) (element : TypeId) :
    ((m.arrayOf element).1, (m.arrayOf element).2.program) = m.program.arrayOf element :=
  h.request_eq .array rfl

theorem Agrees.referenceTo_eq (h : m.Agrees) (referent : TypeId) :
    ((m.referenceTo referent).1, (m.referenceTo referent).2.program) =
      m.program.referenceTo referent :=
  h.request_eq .reference rfl

theorem Agrees.withList_eq (h : m.Agrees) (element : TypeId) :
    ((m.withList element).1, (m.withList element).2.program) = m.program.withList element := by
  have first := h.arrayOf_eq element
  rw [Program.withList, ← first]
  rfl

theorem Agrees.listOf_eq (h : m.Agrees) (element : TypeId) :
    ((m.listOf element).1, (m.listOf element).2.program) = m.program.listOf element := by
  have noted : m.find? .list element = m.program.types.findList? element := h .list element
  rw [listOf, noted]
  cases found : m.program.types.findList? element with
  | some list =>
    rw [Program.listOf_eq_known found]
  | none =>
    rw [Program.listOf_eq_new found, ← h.withList_eq, ← h.arrayOf_eq]

theorem Agrees.arrayOf (h : m.Agrees) {element : TypeId} (known : m.program.types.Knows element) :
    (m.arrayOf element).2.Agrees := h.request rfl known Former.builds_array

theorem Agrees.referenceTo (h : m.Agrees) {referent : TypeId}
    (known : m.program.types.Knows referent) : (m.referenceTo referent).2.Agrees :=
  h.request rfl known Former.builds_reference

theorem Agrees.withList (h : m.Agrees) {element : TypeId} (known : m.program.types.Knows element)
    (fresh : m.find? .list element = none) : (m.withList element).2.Agrees := by
  have first := h.arrayOf known
  have program : (m.arrayOf element).2.program = (m.program.arrayOf element).2 :=
    congrArg Prod.snd (h.arrayOf_eq element)
  have known' : (m.arrayOf element).2.program.types.Knows element := by
    rw [program]
    exact (Program.extends_arrayOf m.program element).knows known
  have fresh' : (m.arrayOf element).2.find? .list element = none := by
    rw [first, program]
    rw [h] at fresh
    exact (m.program.types.findList?_arrayOf element element).trans fresh
  exact first.register rfl known' fresh' Former.builds_list

/-- A list is noted before its methods are made, and they leave the tables right. -/
theorem Agrees.listOf (h : m.Agrees) {element : TypeId} (known : m.program.types.Knows element) :
    (m.listOf element).2.Agrees := by
  unfold Interner.listOf
  split
  · exact h
  · rename_i fresh
    intro k c
    rw [Program.find?_addMethods, ← h.withList known fresh k c, find?, find?]

theorem Agrees.build (h : m.Agrees) (k : Former) {component : TypeId}
    (known : m.program.types.Knows component) : (m.build k component).2.Agrees := by
  cases k with
  | array => exact h.arrayOf known
  | reference => exact h.referenceTo known
  | list => exact h.listOf known

theorem Step.operation (step : Step m n) (h : m.Agrees) :
    Program.Operation m.program n.program := by
  cases step with
  | build k component known =>
    cases k with
    | array =>
      have same : (m.arrayOf component).2.program = _ := congrArg Prod.snd (h.arrayOf_eq component)
      exact same ▸ .arrayOf component known
    | reference =>
      have same : (m.referenceTo component).2.program = _ :=
        congrArg Prod.snd (h.referenceTo_eq component)
      exact same ▸ .referenceTo component known
    | list =>
      have same : (m.listOf component).2.program = _ := congrArg Prod.snd (h.listOf_eq component)
      exact same ▸ .listOf component known
  | declare name parent known => exact .declare name parent known
  | addField owner name type => exact .addField owner name type
  | addFunction f => exact .addFunction f
  | addMethod owner id => exact .addMethod owner id

theorem Step.agrees (step : Step m n) (h : m.Agrees) : n.Agrees := by
  cases step with
  | build k component known => exact h.build k known
  | declare name parent known =>
    intro k c
    refine (h k c).trans (Eq.symm ?_)
    change ((m.program.types.declare name parent).2).find? (k.builds c) = _
    unfold Registry.declare
    rw [Registry.find?_add_eq]
    cases k <;> exact Option.or_none
  | addField owner name type =>
    intro k c
    exact (h k c).trans (Registry.find?_modifyMembers _ owner (k.builds_mapMembers c _)).symm
  | addFunction f => exact h
  | addMethod owner id =>
    intro k c
    refine (h k c).trans (Eq.symm ?_)
    change (m.program.tryMethod owner id).types.find? (k.builds c) = _
    rcases m.program.tryMethod_cases owner id with same | same <;> rw [same]
    exact Registry.find?_modifyMembers _ owner (k.builds_mapMembers c _)

theorem Steps.agrees (steps : Steps m n) (h : m.Agrees) : n.Agrees := by
  induction steps with
  | refl => exact h
  | tail _ step ih => exact step.agrees ih

theorem Steps.operations (steps : Steps m n) (h : m.Agrees) :
    Program.Operations m.program n.program := by
  induction steps with
  | refl => exact .refl
  | tail front step ih => exact ih.tail (step.operation (Steps.agrees front h))

theorem agrees_empty : ({} : Interner).Agrees := by
  intro k c
  cases found : ({} : Interner).program.types.find? (k.builds c) with
  | none => rfl
  | some a =>
    have built : k.builds c (Registry.initial.get a) = true := (Registry.get_of_find? found).2
    rcases Registry.get_initial a with ⟨p, stored⟩ | stored <;> rw [stored] at built <;>
      cases k <;> cases built

theorem Agrees.builds_build (h : m.Agrees) (k : Former) {component : TypeId}
    (known : m.program.types.Knows component) :
    k.builds component ((m.build k component).2.program.types.get (m.build k component).1) = true := by
  cases k with
  | array =>
    have same := h.arrayOf_eq component
    change Former.array.builds component ((m.arrayOf component).2.program.types.get
      (m.arrayOf component).1) = true
    rw [Former.array_iff, ← Program.get_arrayOf known, ← same]
  | reference =>
    have same := h.referenceTo_eq component
    change Former.reference.builds component ((m.referenceTo component).2.program.types.get
      (m.referenceTo component).1) = true
    rw [Former.reference_iff, ← Program.get_referenceTo known, ← same]
  | list =>
    have same := h.listOf_eq component
    change Former.list.builds component ((m.listOf component).2.program.types.get
      (m.listOf component).1) = true
    rw [Former.list_iff]
    have made := Program.get_listOf known
    rw [← same] at made
    exact made

/-- What is noted is given again, and nothing happens. -/
theorem build_of_find? {k : Former} {component id : TypeId} (noted : m.find? k component = some id) :
    m.build k component = (id, m) := by
  cases k with
  | array => simp only [build, arrayOf, request, noted]
  | reference => simp only [build, referenceTo, request, noted]
  | list => simp only [build, listOf, noted]

/-- Whatever was made of nothing by operations has right tables, and no structural type twice. -/
theorem Steps.sound (made : Steps {} m) : m.Agrees ∧ m.program.types.Interned :=
  ⟨Steps.agrees made agrees_empty,
    (Steps.operations made agrees_empty).interned Registry.interned_initial⟩

theorem Steps.find?_iff (made : Steps {} m) {k : Former} {component a : TypeId} :
    m.find? k component = some a ↔ k.builds component (m.program.types.get a) = true := by
  obtain ⟨agrees, interned⟩ := Steps.sound made
  rw [agrees]
  exact interned.found_iff

/-- A type that was requested once is given by every later request. -/
theorem Steps.build_eq (made : Steps {} m) {k : Former} {component : TypeId}
    (known : m.program.types.Knows component) (later : Steps (m.build k component).2 n) :
    n.build k component = ((m.build k component).1, n) := by
  obtain ⟨agrees, -⟩ := Steps.sound made
  have here : Steps {} (m.build k component).2 := made.tail (.build k component known)
  have built := agrees.builds_build k known
  have knows := Former.knows_of_builds built
  have kept := (Steps.operations later (Steps.sound here).1).keepsShape
  obtain ⟨change, same⟩ := kept.get _ knows
  apply build_of_find?
  rw [Steps.find?_iff (here.trans later), same, Former.builds_mapMembers]
  exact built

structure Interns (m : Interner) : Prop where
  arrays : ∀ element a, m.find? .array element = some a ↔ m.program.types.get a = .array element
  references : ∀ referent a,
    m.find? .reference referent = some a ↔ m.program.types.get a = .reference referent
  lists : ∀ element a,
    m.find? .list element = some a ↔ ∃ members, m.program.types.get a = .list element members
  /-- A search through the registry finds the same types as the tables. -/
  searches : ∀ component, m.find? .array component = m.program.types.findArray? component ∧
    m.find? .reference component = m.program.types.findReference? component ∧
    m.find? .list component = m.program.types.findList? component
  /-- A program without tables makes the same types. -/
  makes : ∀ component,
    m.program.arrayOf component = ((m.arrayOf component).1, (m.arrayOf component).2.program) ∧
    m.program.referenceTo component =
      ((m.referenceTo component).1, (m.referenceTo component).2.program) ∧
    m.program.listOf component = ((m.listOf component).1, (m.listOf component).2.program)
  components : ∀ a, ∀ c ∈ (m.program.types.get a).components, c.index < a.index
  /-- Later operations change the members of a type at most, and never its name. -/
  stays : ∀ n, Steps m n → ∀ a, m.program.types.Knows a →
    (∃ change, n.program.types.get a = (m.program.types.get a).mapMembers change) ∧
      n.program.types.name a = m.program.types.name a
  /-- A request gives a type of its kind, and after any operations it gives the same one again and
      does nothing. -/
  requests : ∀ k component, m.program.types.Knows component →
    k.builds component ((m.build k component).2.program.types.get (m.build k component).1) = true ∧
      ∀ n, Steps (m.build k component).2 n →
        n.build k component = ((m.build k component).1, n)
  spelled : ∀ a, m.program.types.nameWithin (a.index + 1) a = some (m.program.types.name a)
  compared : ∀ a b,
    m.program.types.equalsWithin (a.index + 1) a b = some (m.program.types.equals a b)

/-- **Structural types are interned**, after any operations on a new program. -/
theorem interns (made : Steps {} m) : m.Interns where
  arrays _ _ := (Steps.find?_iff made).trans Former.array_iff
  references _ _ := (Steps.find?_iff made).trans Former.reference_iff
  lists _ _ := (Steps.find?_iff made).trans Former.list_iff
  searches component :=
    have agrees := (Steps.sound made).1
    ⟨agrees .array component, agrees .reference component, agrees .list component⟩
  makes component :=
    have agrees := (Steps.sound made).1
    ⟨(agrees.arrayOf_eq component).symm, (agrees.referenceTo_eq component).symm,
      (agrees.listOf_eq component).symm⟩
  components a _ hc := m.program.types.components_get_lt a hc
  stays _ later a known :=
    have kept := (Steps.operations later (Steps.sound made).1).keepsShape
    ⟨kept.get a known, kept.name_eq known⟩
  requests k _ known :=
    ⟨(Steps.sound made).1.builds_build k known, fun _ later => Steps.build_eq made known later⟩
  spelled _ := Registry.nameWithin_eq (Nat.lt_succ_self _)
  compared _ _ := Registry.equalsWithin_eq (Nat.lt_succ_self _)

/-- A list of `Int` registers the array type that it stores its elements in, and this is the one that
    is given for `Int` later on. -/
theorem interns_list : Steps {} (build {} .list .int).2 ∧ (build {} .list .int).2.Interns ∧
    (build {} .list .int).2.find? .array .int = some ⟨6⟩ :=
  have made : Steps {} (build {} .list .int).2 := .single (.build .list .int (by decide))
  ⟨made, interns made, rfl⟩

end Interner
end ObjectLang
