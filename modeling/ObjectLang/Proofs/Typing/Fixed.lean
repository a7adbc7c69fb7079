import ObjectLang.Proofs.Typing.Orderly
set_option autoImplicit false

/-!
# Types that stay

While an expression is visited, other functions are checked in between, and return types are
decided. Yet what a visit has found is fixed: whatever is checked on top of it, another visit of the
annotated expression finds the same type and changes nothing. For of the functions that were entered
before, none changes while an expression is visited, and a call enters its target before it takes a
type from it. This needs no program that is free of errors: all that is asked of trees is that they
are rooted, and trees stay so where a visit ends with an error.
-/

namespace ObjectLang.Typing

/-- Calls check their targets in states that are in order, and enter those that are not entered. -/
structure Context.Trusted (c : Context) (modules : List Module) (depth : Nat) : Prop where
  modules_eq : c.modules = modules
  keeping : c.Keeping
  skips : ∀ target s, target ∈ s.checked → c.checkTarget target s = s
  enters : ∀ target s, Orderly modules depth s → s.program.Declares target →
    Orderly modules depth (c.checkTarget target s) ∧ target ∈ (c.checkTarget target s).checked

variable {modules : List Module} {depth : Nat} {c : Context} {s t u : State}

theorem Orderly.declares_free (h : Orderly modules depth t) (hc : c.Trusted modules depth)
    {name : String} {types : List TypeId} {target : FunctionId}
    (found : freeTarget (c.module? t) t.program name types = .ok target) :
    t.program.Declares target := by
  obtain ⟨m, hm, hfound⟩ := freeTarget_eq_ok.1 found
  have visible : m ∈ modules := hc.modules_eq ▸ List.mem_of_getElem? hm
  exact (h.visible m visible).functions target (List.mem_of_find?_eq_some hfound)

structure Visited.Finds {n : Nat} (v : Visited n) (e : Expr) (s : State) (type : TypeId) :
    Prop where
  expr : v.expr = e
  state : v.state = s
  result : v.result = .ok type

structure VisitedList.Finds {n : Nat} (v : VisitedList n) (es : List Expr) (s : State)
    (types : List TypeId) : Prop where
  exprs : v.exprs = es
  state : v.state = s
  result : v.result = .ok types

/-- In all states that visits may lead to, a visit of the expression finds this type and nothing
    else. -/
structure Stable (c : Context) (t : State) (e : Expr) (type : TypeId) : Prop where
  known : t.program.types.Knows type
  again : ∀ u, Keeps t u → (visit c e u).Finds e u type

def StableAll (c : Context) (t : State) : List Expr → List TypeId → Prop :=
  List.Forall₂ (Stable c t)

theorem Stable.keeps {e : Expr} {type : TypeId} (h : Stable c s e type) (keeps : Keeps s t) :
    Stable c t e type :=
  ⟨keeps.evolves.types.knows h.known, fun u more => h.again u (keeps.trans more)⟩

theorem StableAll.keeps {es : List Expr} {types : List TypeId} (h : StableAll c s es types)
    (keeps : Keeps s t) : StableAll c t es types :=
  h.imp fun _ _ stable => stable.keeps keeps

theorem StableAll.known {es : List Expr} {types : List TypeId} (h : StableAll c t es types) :
    ∀ type ∈ types, t.program.types.Knows type := by
  induction h with
  | nil => exact nofun
  | cons first _ ih =>
    intro type mem
    rcases List.mem_cons.1 mem with rfl | mem
    · exact first.known
    · exact ih type mem

/-- A list of stable expressions is visited like each of them. -/
theorem StableAll.again (accept : Program → TypeId → Except TypeError Unit) {es : List Expr}
    {types : List TypeId} (h : StableAll c t es types) (keeps : Keeps t u)
    (accepted : ∀ type ∈ types, accept u.program type = .ok ()) :
    (visitAll c accept es u).Finds es u types := by
  induction h with
  | nil =>
    rw [visitAll]
    exact ⟨rfl, rfl, rfl⟩
  | @cons e type rest behind first _ ih =>
    have found := first.again u keeps
    have judged : accept (visit c e u).state.program type = .ok () :=
      found.state.symm ▸ accepted type List.mem_cons_self
    obtain ⟨exprs, state, result⟩ := @visitAll_cons_ok c accept e u type found.result judged rest
    have others := ih fun type mem => accepted type (List.mem_cons_of_mem _ mem)
    rw [found.state] at exprs state result
    exact ⟨by rw [exprs, found.expr, others.exprs], state.trans others.state,
      by rw [result, others.result]; rfl⟩

namespace Stable

theorem literal {value : Literal} (tables : t.program.Tables) (line : Nat) :
    Stable c t (.literal value line) value.type :=
  ⟨tables.knows_literal value, fun u _ => by rw [visit]; exact ⟨rfl, rfl, rfl⟩⟩

theorem var {name : String} {type : TypeId} (known : KnownBindings t.program t.scopes)
    (bound : t.scopes.get? name = some (.value type)) (line : Nat) :
    Stable c t (.var name (some type) line) type := by
  refine ⟨known.get? bound, fun u keeps => ?_⟩
  rw [visit, visitVar, keeps.scopes, bound]
  exact ⟨rfl, rfl, rfl⟩

theorem binary {op : BinaryOperator} {lhs rhs : Expr} {a b type : TypeId}
    (tables : t.program.Tables) (left : Stable c t lhs a) (right : Stable c t rhs b)
    (rule : binaryType t.program op a b = .ok type) (line : Nat) :
    Stable c t (.binary op lhs rhs line) type := by
  refine ⟨?_, fun u keeps => ?_⟩
  · obtain ⟨-, rfl⟩ := binaryType_eq_ok.1 rule
    split
    · exact tables.knows_primitive .bool
    · exact left.known
  · have first := left.again u keeps
    have second := right.again u keeps
    have next : (visit c lhs u).next (visit c rhs) = visit c rhs u := by
      rw [next_ok first.result, first.state]
    rw [visit]
    refine ⟨?_, ?_, ?_⟩ <;> dsimp only <;> rw [next]
    · rw [first.expr, second.expr]
    · exact second.state
    · rw [first.result, second.result, second.state]
      exact binaryType_evolves keeps.evolves left.known right.known rule

theorem field {base : Expr} {owner type : TypeId} {name : String} (tables : t.program.Tables)
    (object : Stable c t base owner) (rule : fieldType t.program owner name = .ok type)
    (line : Nat) : Stable c t (.field base name (some type) line) type := by
  refine ⟨tables.knows_fieldType? (fieldType_eq_ok.1 rule).2, fun u keeps => ?_⟩
  have found := object.again u keeps
  have judged : ((visit c base u).result.bind fun type =>
      fieldType (visit c base u).state.program type name) = .ok type := by
    rw [found.result, found.state]
    exact fieldType_evolves keeps.evolves object.known rule
  rw [visit]
  unfold fieldOf
  refine ⟨?_, found.state, judged⟩
  dsimp only
  rw [judged, found.expr]

theorem new {type : TypeId} (known : t.program.types.Knows type) (line : Nat) :
    Stable c t (.new type line) type :=
  ⟨known, fun u _ => by rw [visit]; exact ⟨rfl, rfl, rfl⟩⟩

theorem allocate {element count type : TypeId} {size : Expr} (sized : Stable c t size count)
    (rule : checkSize t.program count = .ok ())
    (found : t.program.types.findArray? element = some type) (line : Nat) :
    Stable c t (.allocate element size line) type := by
  refine ⟨(Registry.get_of_find? found).1, fun u keeps => ?_⟩
  have again := sized.again u keeps
  have judged : ((visit c size u).result.bind (checkSize (visit c size u).state.program)) =
      .ok () := by
    rw [again.result]
    exact checkSize_eq_ok.2 (checkSize_eq_ok.1 rule)
  have found' : (visit c size u).state.program.types.findArray? element = some type := by
    rw [again.state]
    exact keeps.evolves.types.findArray?_eq found
  rw [visit, judged, arrayType_found found']
  exact ⟨congrArg (Expr.allocate element · line) again.expr, again.state, rfl⟩

theorem array {element type : TypeId} {items : List Expr} {types : List TypeId}
    (typed : StableAll c t items types) (known : t.program.types.Knows element)
    (rule : ∀ type ∈ types, checkItem element t.program type = .ok ())
    (found : t.program.types.findArray? element = some type) (line : Nat) :
    Stable c t (.array element items line) type := by
  refine ⟨(Registry.get_of_find? found).1, fun u keeps => ?_⟩
  have again := typed.again (checkItem element) keeps fun type mem =>
    checkItem_evolves keeps.evolves known (typed.known type mem) (rule type mem)
  have judged : ((visitAll c (checkItem element) items u).result.map fun _ => ()) = .ok () := by
    rw [again.result]
    rfl
  have found' : (visitAll c (checkItem element) items u).state.program.types.findArray? element =
      some type := by
    rw [again.state]
    exact keeps.evolves.types.findArray?_eq found
  rw [visit, judged, arrayType_found found']
  exact ⟨congrArg (Expr.array element · line) again.exprs, again.state, rfl⟩

theorem index {base place : Expr} {owner type : TypeId} (stored : Stable c t base owner)
    (rule : elementType t.program owner = .ok type) (placed : Stable c t place .int)
    (line : Nat) : Stable c t (.index base place line) type := by
  refine ⟨knows_element (elementType_eq_ok.1 rule), fun u keeps => ?_⟩
  have first := stored.again u keeps
  have second := placed.again u keeps
  have judged : ((visit c base u).judge elementType).result = .ok type := by
    change (visit c base u).result.bind (elementType (visit c base u).state.program) = _
    rw [first.result, first.state]
    exact elementType_evolves keeps.evolves stored.known rule
  have next : ((visit c base u).judge elementType).next (visit c place) = visit c place u := by
    rw [next_ok judged]
    exact congrArg (visit c place) first.state
  rw [visit]
  refine ⟨?_, ?_, ?_⟩ <;> dsimp only <;> rw [next]
  · rw [second.expr]
    exact congrArg (Expr.index · place line) first.expr
  · exact second.state
  · rw [second.result, judged]
    rfl

theorem reference {expr : Expr} {referent type : TypeId} (named : expr.isName = true)
    (typed : Stable c t expr referent)
    (found : t.program.types.findReference? referent = some type) (line : Nat) :
    Stable c t (.reference expr line) type := by
  refine ⟨(Registry.get_of_find? found).1, fun u keeps => ?_⟩
  have again := typed.again u keeps
  have found' : (visit c expr u).state.program.types.findReference? referent = some type := by
    rw [again.state]
    exact keeps.evolves.types.findReference?_eq found
  rw [visit, if_pos named]
  refine ⟨congrArg (Expr.reference · line) again.expr, ?_, ?_⟩ <;> dsimp only <;>
    rw [referenceType_found again.result found']
  exact again.state

theorem cast {expr : Expr} {source type : TypeId} (typed : Stable c t expr source)
    (known : t.program.types.Knows type) (line : Nat) : Stable c t (.cast expr type line) type := by
  refine ⟨known, fun u keeps => ?_⟩
  have again := typed.again u keeps
  rw [visit]
  exact ⟨congrArg (Expr.cast · type line) again.expr, again.state,
    congrArg (Except.map fun _ => type) again.result⟩

theorem call (hc : c.Trusted modules depth) (tables : t.program.Tables) {es : List Expr}
    {types : List TypeId} (typed : StableAll c t es types) {target : FunctionId}
    (checked : target ∈ t.checked) {injected : Bool} {type : TypeId}
    (rule : callType t.program target injected types = .ok type) (callee : Expr) (line : Nat) :
    Stable c t (.call callee es (some target) injected line) type := by
  obtain ⟨-, -, rfl⟩ := callType_eq_ok.1 rule
  refine ⟨(tables.signatures target).returnType, fun u keeps => ?_⟩
  have skipped := hc.skips target u (keeps.toLater.mem checked)
  have again := typed.again (fun _ _ => .ok ()) keeps fun _ _ => rfl
  rw [visit]
  refine ⟨?_, ?_, ?_⟩ <;> dsimp only <;> rw [skipped]
  · rw [again.exprs]
  · exact again.state
  · rw [again.result, again.state, ← keeps.function_eq checked]
    exact callType_evolves keeps.evolves tables typed.known rule

end Stable

structure Visited.Fixed {n : Nat} (modules : List Module) (depth : Nat) (c : Context)
    (v : Visited n) : Prop where
  orderly : Orderly modules depth v.state
  rooted : v.expr.Rooted v.state.program
  stable : ∀ type, v.result = .ok type → Stable c v.state v.expr type

structure VisitedList.Fixed {n : Nat} (modules : List Module) (depth : Nat) (c : Context)
    (accept : Program → TypeId → Except TypeError Unit) (v : VisitedList n) : Prop where
  orderly : Orderly modules depth v.state
  rooted : Expr.RootedAll v.state.program v.exprs
  stable : ∀ types, v.result = .ok types → StableAll c v.state v.exprs types ∧
    ∀ type ∈ types, accept v.state.program type = .ok ()

def Resolved.Rooted {n : Nat} (modules : List Module) (depth : Nat) : Resolved n → Prop
  | .bound target callee arguments _ t _ =>
    Orderly modules depth t ∧ callee.Rooted t.program ∧ Expr.RootedAll t.program arguments ∧
      t.program.Declares target
  | .failed _ callee arguments t _ =>
    Orderly modules depth t ∧ callee.Rooted t.program ∧ Expr.RootedAll t.program arguments

/-- What is accepted of a known type stays accepted from `p` on. -/
def Lasting (accept : Program → TypeId → Except TypeError Unit) (p : Program) : Prop :=
  ∀ q r type, p.Evolves q → q.Evolves r → q.types.Knows type → accept q type = .ok () →
    accept r type = .ok ()

theorem lasting_any (p : Program) : Lasting (fun _ _ => .ok ()) p := fun _ _ _ _ _ _ _ => rfl

theorem lasting_checkItem {p : Program} {element : TypeId} (known : p.types.Knows element) :
    Lasting (checkItem element) p := fun _ _ _ first more known' rule =>
  checkItem_evolves more (first.types.knows known) known' rule

theorem Lasting.evolves {accept : Program → TypeId → Except TypeError Unit} {p q : Program}
    (h : Lasting accept p) (evolves : p.Evolves q) : Lasting accept q :=
  fun _ _ _ first => h _ _ _ (evolves.trans first)

namespace Visited.Fixed

variable {n m : Nat} {v : Visited n} {w : Visited m}

theorem leaf {e : Expr} (orderly : Orderly modules depth s) (rooted : e.Rooted s.program)
    {result : Except TypeError TypeId}
    (stable : ∀ type, result = .ok type → Stable c s e type) :
    (Visited.leaf e s result).Fixed modules depth c :=
  ⟨orderly, rooted, stable⟩

theorem failed {e : Expr} (orderly : Orderly modules depth s) (rooted : e.Rooted s.program)
    (fault : TypeError) : (Visited.leaf e s (.error fault)).Fixed modules depth c := by
  refine leaf orderly rooted fun type ok => ?_
  cases ok

theorem next (orderly : Orderly modules depth v.state) {e : Expr}
    (rooted : e.Rooted v.state.program) (h : (visit c e v.state).Fixed modules depth c) :
    (v.next (visit c e)).Fixed modules depth c := by
  unfold Visited.next
  split
  · exact h
  · exact failed orderly rooted _

theorem binary (l : v.Fixed modules depth c) (r : w.Fixed modules depth c)
    (keeps : Keeps v.state w.state) (op : BinaryOperator) (line : Nat)
    (le : (Expr.binary op v.expr w.expr line).weight ≤ n + m + 1) :
    (⟨.binary op v.expr w.expr line, le, w.state, do
      binaryType w.state.program op (← v.result) (← w.result)⟩ : Visited (n + m + 1)).Fixed
        modules depth c := by
  refine ⟨r.orderly, ⟨v.expr.rooted_mono keeps.evolves.extension l.rooted, r.rooted⟩, ?_⟩
  intro type ok
  obtain ⟨a, oka, ok⟩ := bind_eq_ok.1 ok
  obtain ⟨b, okb, rule⟩ := bind_eq_ok.1 ok
  exact .binary r.orderly.tables ((l.stable a oka).keeps keeps) (r.stable b okb) rule line

theorem var (ready : Prepared modules depth s) (name : String) (noted : Option TypeId)
    (line : Nat) : (visitVar name noted line s).Fixed modules depth c := by
  unfold visitVar
  dsimp only
  split
  · rename_i type bound
    refine ⟨ready.toOrderly, trivial, ?_⟩
    intro found same
    cases same
    exact .var ready.known bound line
  · exact failed (e := .var name noted line) ready.toOrderly trivial _
  · exact failed (e := .var name noted line) ready.toOrderly trivial _

theorem field (h : v.Fixed modules depth c) (name : String) (noted : Option TypeId)
    (line : Nat) : (fieldOf v name noted line).Fixed modules depth c := by
  unfold fieldOf
  refine ⟨h.orderly, h.rooted, fun type ok => ?_⟩
  dsimp only at ok ⊢
  rw [ok]
  obtain ⟨owner, oko, rule⟩ := bind_eq_ok.1 ok
  exact .field h.orderly.tables (h.stable owner oko) rule line

theorem allocate (h : v.Fixed modules depth c) {element : TypeId}
    (known : v.state.program.types.Knows element) (line : Nat)
    (le : (Expr.allocate element v.expr line).weight ≤ n + 1) :
    let done := arrayType element v.state (v.result.bind (checkSize v.state.program))
    (⟨.allocate element v.expr line, le, done.1, done.2⟩ : Visited (n + 1)).Fixed
      modules depth c := by
  intro done
  have keeps : Keeps v.state done.1 := keeps_arrayType element v.state _
  refine ⟨h.orderly.arrayType element _, ⟨keeps.evolves.types.knows known,
    v.expr.rooted_mono keeps.evolves.extension h.rooted⟩, fun type ok => ?_⟩
  obtain ⟨count, okc, rule⟩ := bind_eq_ok.1 (checked_of_arrayType ok)
  have sized := (h.stable count okc).keeps keeps
  have rule' : checkSize done.1.program count = .ok () := checkSize_eq_ok.2 (checkSize_eq_ok.1 rule)
  exact .allocate sized rule' (findArray?_of_arrayType known ok) line

theorem array {element : TypeId} {v : VisitedList n}
    (h : v.Fixed modules depth c (checkItem element)) (known : v.state.program.types.Knows element)
    (line : Nat) (le : (Expr.array element v.exprs line).weight ≤ n + 1) :
    let done := arrayType element v.state (v.result.map fun _ => ())
    (⟨.array element v.exprs line, le, done.1, done.2⟩ : Visited (n + 1)).Fixed
      modules depth c := by
  intro done
  have keeps : Keeps v.state done.1 := keeps_arrayType element v.state _
  refine ⟨h.orderly.arrayType element _, ⟨keeps.evolves.types.knows known,
    Expr.rootedAll_mono keeps.evolves.extension v.exprs h.rooted⟩, fun type ok => ?_⟩
  obtain ⟨types, okt, -⟩ := map_eq_ok.1 (checked_of_arrayType ok)
  obtain ⟨stable, accepted⟩ := h.stable types okt
  refine .array (stable.keeps keeps) (keeps.evolves.types.knows known) (fun type mem => ?_)
    (findArray?_of_arrayType known ok) line
  exact checkItem_evolves keeps.evolves known (stable.known type mem) (accepted type mem)

theorem judged (h : v.Fixed modules depth c) :
    Orderly modules depth (v.judge elementType).state ∧
      (v.judge elementType).expr.Rooted (v.judge elementType).state.program :=
  ⟨h.orderly, h.rooted⟩

theorem index (a : v.Fixed modules depth c) (i : w.Fixed modules depth c)
    (keeps : Keeps v.state w.state) (line : Nat)
    (le : (Expr.index v.expr w.expr line).weight ≤ n + m + 1) :
    (⟨.index v.expr w.expr line, le, w.state, do
      checkIndex w.state.program (← w.result)
      (v.judge elementType).result⟩ : Visited (n + m + 1)).Fixed modules depth c := by
  refine ⟨i.orderly, ⟨v.expr.rooted_mono keeps.evolves.extension a.rooted, i.rooted⟩, ?_⟩
  intro type ok
  obtain ⟨place, okp, ok⟩ := bind_eq_ok.1 ok
  obtain ⟨⟨⟩, int, result⟩ := bind_eq_ok.1 ok
  obtain ⟨owner, oko, rule⟩ := bind_eq_ok.1 result
  have stored := a.stable owner oko
  exact .index (stored.keeps keeps) (elementType_evolves keeps.evolves stored.known rule)
    (checkIndex_eq_ok.1 int ▸ i.stable place okp) line

theorem reference (h : v.Fixed modules depth c) (named : v.expr.isName = true) (line : Nat)
    (le : (Expr.reference v.expr line).weight ≤ n + 1) :
    (⟨.reference v.expr line, le, (referenceType v).1, (referenceType v).2⟩ :
      Visited (n + 1)).Fixed modules depth c := by
  have keeps := keeps_referenceType v
  refine ⟨h.orderly.referenceType, v.expr.rooted_mono keeps.evolves.extension h.rooted,
    fun type ok => ?_⟩
  obtain ⟨referent, result⟩ := result_of_referenceType ok
  have typed := h.stable referent result
  exact .reference named (typed.keeps keeps)
    (findReference?_of_referenceType result typed.known ok) line

theorem cast (h : v.Fixed modules depth c) {type : TypeId}
    (known : v.state.program.types.Knows type) (line : Nat)
    (le : (Expr.cast v.expr type line).weight ≤ n + 1) :
    (⟨.cast v.expr type line, le, v.state, v.result.map fun _ => type⟩ : Visited (n + 1)).Fixed
      modules depth c := by
  refine ⟨h.orderly, ⟨h.rooted, known⟩, fun found ok => ?_⟩
  obtain ⟨source, oks, rfl⟩ := map_eq_ok.1 ok
  exact .cast (h.stable source oks) known line

theorem call (hc : c.Trusted modules depth) {v : VisitedList n}
    (h : v.Fixed modules depth c fun _ _ => .ok ()) {target : FunctionId}
    (checked : target ∈ v.state.checked) {callee : Expr} (rooted : callee.Rooted v.state.program)
    (injected : Bool) (line : Nat)
    (le : (Expr.call callee v.exprs (some target) injected line).weight ≤ m) :
    (⟨.call callee v.exprs (some target) injected line, le, v.state,
      v.result.bind (callType v.state.program target injected)⟩ : Visited m).Fixed
        modules depth c := by
  refine ⟨h.orderly, ⟨rooted, h.rooted, ?_⟩, fun type ok => ?_⟩
  · rintro f ⟨⟩
    exact h.orderly.declared target checked
  · obtain ⟨types, okt, rule⟩ := bind_eq_ok.1 ok
    exact .call hc h.orderly.tables (h.stable types okt).1 checked rule callee line

end Visited.Fixed

theorem bindMethod_rooted {n m : Nat} {base : Visited n} (h : base.Fixed modules depth c)
    (name : String) (noted : Option TypeId) (line : Nat) {arguments : List Expr}
    (rooted : Expr.RootedAll base.state.program arguments) (injected : Bool)
    (le : Expr.weights arguments ≤ m) :
    (bindMethod base name noted line arguments injected le).Rooted modules depth := by
  unfold bindMethod
  dsimp only
  split
  · exact ⟨h.orderly, h.rooted, rooted⟩
  · rename_i target found
    obtain ⟨type, -, method⟩ := bind_eq_ok.1 found
    have declared := h.orderly.tables.declares_findMethod? (methodTarget_eq_ok.1 method)
    split
    · exact ⟨h.orderly, h.rooted, rooted, declared⟩
    · exact ⟨h.orderly, h.rooted, ⟨h.rooted, rooted⟩, declared⟩

mutual

theorem visit_fixed (hc : c.Trusted modules depth) (e : Expr) {s : State}
    (ready : Prepared modules depth s) (rooted : e.Rooted s.program) :
    (visit c e s).Fixed modules depth c := by
  match e with
  | .binary op lhs rhs line =>
    have l := visit_fixed hc lhs ready rooted.1
    have keeps := keeps_visit hc.keeping lhs s
    have rooted' := rhs.rooted_mono keeps.evolves.extension rooted.2
    have r := Visited.Fixed.next l.orderly rooted'
      (visit_fixed hc rhs (ready.keeps keeps l.orderly) rooted')
    rw [visit]
    exact l.binary r (keeps_of_next fun t => keeps_visit hc.keeping rhs t) op line _
  | .literal value line =>
    rw [visit]
    refine .leaf (e := .literal value line) ready.toOrderly trivial ?_
    rintro _ ⟨⟩
    exact .literal ready.tables line
  | .var name noted line =>
    rw [visit]
    exact .var ready name noted line
  | .field base name noted line =>
    rw [visit]
    exact (visit_fixed hc base ready rooted).field name noted line
  | .new type line =>
    rw [visit]
    refine .leaf (e := .new type line) ready.toOrderly rooted ?_
    rintro _ ⟨⟩
    exact .new rooted line
  | .allocate element size line =>
    have known := (keeps_visit hc.keeping size s).evolves.types.knows rooted.1
    rw [visit]
    exact (visit_fixed hc size ready rooted.2).allocate known line _
  | .array element items line =>
    have known := (keeps_visitAll hc.keeping (checkItem element) items s).evolves.types.knows
      rooted.1
    rw [visit]
    exact .array (visitAll_fixed hc items (lasting_checkItem rooted.1) ready rooted.2) known line _
  | .index array index line =>
    have a := visit_fixed hc array ready rooted.1
    have keeps := keeps_visit hc.keeping array s
    have rooted' := index.rooted_mono keeps.evolves.extension rooted.2
    have i := Visited.Fixed.next (v := (visit c array s).judge elementType) a.orderly rooted'
      (visit_fixed hc index (ready.keeps keeps a.orderly) rooted')
    rw [visit]
    exact a.index i (keeps_of_next (v := (visit c array s).judge elementType)
      fun t => keeps_visit hc.keeping index t) line _
  | .reference expr line =>
    rw [visit]
    split
    · rename_i named
      exact (visit_fixed hc expr ready rooted).reference (isName_visit named) line _
    · exact .failed (e := .reference expr line) ready.toOrderly rooted _
  | .cast expr type line =>
    have known := (keeps_visit hc.keeping expr s).evolves.types.knows rooted.2
    rw [visit]
    exact (visit_fixed hc expr ready rooted.1).cast known line _
  | .call callee arguments (some target) injected line =>
    obtain ⟨hcallee, harguments, declared⟩ := rooted
    have keeps := hc.keeping target s
    obtain ⟨orderly, checked⟩ := hc.enters target s ready.toOrderly (declared target rfl)
    have visited := visitAll_fixed hc arguments (lasting_any _) (ready.keeps keeps orderly)
      (Expr.rootedAll_mono keeps.evolves.extension arguments harguments)
    have keeps' := keeps_visitAll hc.keeping (fun _ _ => .ok ()) arguments (c.checkTarget target s)
    rw [visit]
    exact .call hc visited (keeps'.toLater.mem checked)
      (callee.rooted_mono (keeps.trans keeps').evolves.extension hcallee) injected line _
  | .call callee arguments none injected line =>
    have resolved := resolve_rooted hc callee arguments injected ready rooted.1 rooted.2.1
    have resolving := keeps_resolve hc.keeping callee arguments injected s
    rw [visit]
    split
    · rename_i fault callee' arguments' t le heq
      rw [heq] at resolved
      exact ⟨resolved.1, ⟨resolved.2.1, resolved.2.2, nofun⟩, nofun⟩
    · rename_i target callee' bound injected' t le heq
      rw [heq] at resolved resolving
      obtain ⟨orderly, hcallee, hbound, declared⟩ := resolved
      have keeps := hc.keeping target t
      obtain ⟨orderly', checked⟩ := hc.enters target t orderly declared
      have visited := visitAll_fixed hc bound (lasting_any _)
        ((ready.keeps resolving orderly).keeps keeps orderly')
        (Expr.rootedAll_mono keeps.evolves.extension bound hbound)
      have keeps' := keeps_visitAll hc.keeping (fun _ _ => .ok ()) bound (c.checkTarget target t)
      exact .call hc visited (keeps'.toLater.mem checked)
        (callee'.rooted_mono (keeps.trans keeps').evolves.extension hcallee) injected' line _
termination_by 2 * e.weight
decreasing_by all_goals simp only [Expr.weight]; omega

theorem visitAll_fixed (hc : c.Trusted modules depth)
    {accept : Program → TypeId → Except TypeError Unit} (es : List Expr) {s : State}
    (lasting : Lasting accept s.program) (ready : Prepared modules depth s)
    (rooted : Expr.RootedAll s.program es) :
    (visitAll c accept es s).Fixed modules depth c accept := by
  match es with
  | [] =>
    rw [visitAll]
    refine ⟨ready.toOrderly, trivial, ?_⟩
    rintro _ ⟨⟩
    exact ⟨.nil, nofun⟩
  | e :: rest =>
    have _ := e.weight_pos
    have first := visit_fixed hc e ready rooted.1
    have keeps := keeps_visit hc.keeping e s
    have rooted' := Expr.rootedAll_mono keeps.evolves.extension rest rooted.2
    rw [visitAll]
    dsimp only
    split
    · exact ⟨first.orderly, ⟨first.rooted, rooted'⟩, nofun⟩
    · rename_i type bound
      obtain ⟨found, result, judged⟩ := bind_eq_ok.1 bound
      obtain ⟨⟨⟩, accepted, rfl⟩ := map_eq_ok.1 judged
      have others := visitAll_fixed hc rest (lasting.evolves keeps.evolves)
        (ready.keeps keeps first.orderly) rooted'
      have keeps' := keeps_visitAll hc.keeping accept rest (visit c e s).state
      have head := first.stable found result
      refine ⟨others.orderly, ⟨(visit c e s).expr.rooted_mono keeps'.evolves.extension first.rooted,
        others.rooted⟩, fun types ok => ?_⟩
      obtain ⟨behind, okb, rfl⟩ := map_eq_ok.1 ok
      obtain ⟨stable, all⟩ := others.stable behind okb
      refine ⟨.cons (head.keeps keeps') stable, fun type mem => ?_⟩
      rcases List.mem_cons.1 mem with rfl | mem
      · exact lasting _ _ type keeps.evolves keeps'.evolves head.known accepted
      · exact all type mem
termination_by 2 * Expr.weights es + 1
decreasing_by all_goals simp only [Expr.weights]; omega

theorem resolve_rooted (hc : c.Trusted modules depth) (callee : Expr) (arguments : List Expr)
    (injected : Bool) {s : State} (ready : Prepared modules depth s)
    (rooted : callee.Rooted s.program) (rootedAll : Expr.RootedAll s.program arguments) :
    (resolve c callee arguments injected s).Rooted modules depth := by
  match callee with
  | .var name noted line =>
    have visited := visitAll_fixed hc arguments (lasting_any _) ready rootedAll
    rw [resolve]
    split
    · rename_i target found
      obtain ⟨types, -, free⟩ := bind_eq_ok.1 found
      exact ⟨visited.orderly, trivial, visited.rooted, visited.orderly.declares_free hc free⟩
    · exact ⟨visited.orderly, trivial, visited.rooted⟩
  | .field base name noted line =>
    rw [resolve]
    split
    · split
      · rename_i target found
        exact ⟨ready.toOrderly, rooted, rootedAll,
          ready.tables.declares_findMethod? (methodTarget_eq_ok.1 found)⟩
      · exact ⟨ready.toOrderly, rooted, rootedAll⟩
    · exact bindMethod_rooted (visit_fixed hc base ready rooted) name noted line
        (Expr.rootedAll_mono (keeps_visit hc.keeping base s).evolves.extension arguments rootedAll)
        injected _
  | .binary .. | .literal .. | .new .. | .allocate .. | .array .. | .index .. | .reference ..
  | .cast .. | .call .. =>
    unfold resolve
    exact ⟨ready.toOrderly, rooted, rootedAll⟩
termination_by 2 * (callee.weight + Expr.weights arguments) + 1
decreasing_by all_goals simp only [Expr.weight]; omega

end

end ObjectLang.Typing
