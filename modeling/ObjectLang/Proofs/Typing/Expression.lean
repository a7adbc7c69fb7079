import ObjectLang.Proofs.Typing.Valid
set_option autoImplicit false

/-!
# Visits find types

A visit of a formed expression that ends without an error leaves an expression of the type that it
found. Parts that are visited again while a call is bound stay as they are.
-/

namespace ObjectLang

theorem Expr.weights_tail_le (es : List Expr) : Expr.weights es.tail ≤ Expr.weights es := by
  cases es with
  | nil => exact Nat.le_refl _
  | cons e rest => exact Nat.le_add_left _ _

namespace Typing

variable {modules : List Module} {depth : Nat} {c : Context} {Γ : Scopes Meaning} {s : State}

theorem calm_eq : Calm Eq (fun _ => False) where
  refl _ := rfl
  trans _ _ _ h h' := h.trans h'
  program _ _ h := h ▸ rfl
  failed _ _ _ _ h := h

theorem Context.Sound.answers (hc : c.Sound modules depth) (s : State) :
    Answers c (Present s) Eq (fun _ => False) s := by
  rintro f type ⟨checked, -⟩ t rfl -
  exact (hc.skips f s checked).symm

theorem Types.revisit (hc : c.Sound modules depth) (tables : s.program.Tables) {e : Expr}
    {type : TypeId} (he : Types Γ s e type) (scopes : s.scopes = Γ) {found : TypeId}
    (ok : (visit c e s).result = .ok found) :
    (visit c e s).expr = e ∧ (visit c e s).state = s ∧ found = type := by
  have settled := he.present.eq_settledType tables fun _ _ h => h.2
  rcases he.present.revisit calm_eq hc.keeping tables (fun _ _ h => .inl h.2) s rfl scopes
    (hc.answers s) not_false with ⟨-, result, expr, same⟩ | ⟨-, fault, result⟩
  · rw [ok, ← settled] at result
    exact ⟨expr, same.symm, Except.ok.inj result⟩
  · rw [ok] at result
    cases result

theorem TypesAll.revisit (hc : c.Sound modules depth) (tables : s.program.Tables)
    {es : List Expr} {types : List TypeId} (hes : TypesAll Γ s es types) (scopes : s.scopes = Γ)
    {found : List TypeId} (ok : (visitAll c (fun _ _ => .ok ()) es s).result = .ok found) :
    (visitAll c (fun _ _ => .ok ()) es s).exprs = es ∧
      (visitAll c (fun _ _ => .ok ()) es s).state = s ∧ TypesAll Γ s es found := by
  have settled := hes.present.eq_settledType tables fun _ _ h => h.2
  have revisited : RevisitedAll s.program Eq es s (visitAll c (fun _ _ => .ok ()) es s) :=
    hes.present.revisit calm_eq hc.keeping tables (fun _ _ h => .inl h.2) (fun _ _ => rfl) s rfl
      scopes (hc.answers s) not_false
  rcases revisited with ⟨-, result, exprs, same⟩ | ⟨-, fault, result⟩
  · rw [ok, ← settled] at result
    exact ⟨exprs, same.symm, Except.ok.inj result ▸ hes⟩
  · rw [ok] at result
    cases result

structure Ready (modules : List Module) (depth : Nat) (s : State) : Prop where
  valid : Valid modules depth s
  known : KnownScopes s.program s.scopes

theorem Ready.stays (h : Ready modules depth s) : Advances modules depth (fun _ => False) s s :=
  .refl h.valid fun _ => False.elim

theorem Ready.later {O : FunctionId → Prop} {t : State} (h : Ready modules depth s)
    (later : Later O s t) (scopes : t.scopes = s.scopes) (valid : Valid modules depth t) :
    Ready modules depth t := by
  refine ⟨valid, ?_⟩
  rw [scopes]
  exact h.known.evolves later.evolves

theorem Ready.keeps {t : State} (h : Ready modules depth s) (keeps : Keeps s t)
    (valid : Valid modules depth t) : Ready modules depth t :=
  h.later keeps.toLater keeps.scopes valid

theorem Valid.of_types (h : Valid modules depth s) {q : Program}
    (grows : s.program.types.Grows q.types) (same : q.functions = s.program.functions)
    (tables : q.Tables) : Valid modules depth { s with program := q } := by
  have extended : s.program.Extends q := .of_types grows same
  have function_eq (id : FunctionId) : q.function id = s.program.function id := by
    rw [Program.function, same, Program.function]
  refine ⟨tables, fun m hm => (h.visible m hm).mono extended, ?_, ?_, h.distinct,
    fun id hid => extended.declares (h.declared id hid), ?_⟩
  · intro id hid
    dsimp only at hid ⊢
    rw [Program.Declares, same] at hid
    rw [function_eq]
    exact h.read id hid
  · intro id hid
    dsimp only
    rw [function_eq]
    exact Statement.formedAll_mono extended _ (h.bodies id hid)
  · dsimp only
    rw [same]
    exact h.room

theorem Advances.of_types (h : Valid modules depth s) {q : Program}
    (widens : s.program.types.Widens q.types) (same : q.functions = s.program.functions)
    (tables : q.Tables) :
    Advances modules depth (fun _ => False) s { s with program := q } :=
  ⟨.of_types widens same rfl fun clean => clean, h.of_types widens.grows same tables, nofun,
    fun _ hid hno => absurd hid hno⟩

theorem checked_of_arrayType {element type : TypeId} {checked : Except TypeError Unit}
    (ok : (arrayType element s checked).2 = .ok type) : checked = .ok () := by
  unfold arrayType at ok
  cases checked with
  | error e => cases ok
  | ok u => rfl

theorem arrayType_typed (h : Valid modules depth s) {element type : TypeId}
    {checked : Except TypeError Unit} (known : s.program.types.Knows element)
    (ok : (arrayType element s checked).2 = .ok type) :
    Advances modules depth (fun _ => False) s (arrayType element s checked).1 ∧
      (arrayType element s checked).1.program.types.findArray? element = some type := by
  obtain rfl := checked_of_arrayType ok
  have found := Registry.findArray?_arrayOf known
  cases ok
  exact ⟨.of_types h (.arrayOf _ _) rfl (h.tables.arrayOf element), found⟩

theorem result_of_referenceType {n : Nat} {v : Visited n} {type : TypeId}
    (ok : (referenceType v).2 = .ok type) : ∃ referent, v.result = .ok referent := by
  unfold referenceType at ok
  split at ok
  · rename_i referent result
    exact ⟨referent, result⟩
  · cases ok

theorem referenceType_typed {n : Nat} {v : Visited n} (h : Valid modules depth v.state)
    {referent type : TypeId} (result : v.result = .ok referent)
    (known : v.state.program.types.Knows referent) (ok : (referenceType v).2 = .ok type) :
    Advances modules depth (fun _ => False) v.state (referenceType v).1 ∧
      (referenceType v).1.program.types.findReference? referent = some type := by
  unfold referenceType at ok ⊢
  rw [result] at ok ⊢
  have found := Registry.findReference?_referenceTo known
  cases ok
  exact ⟨.of_types h (.referenceTo _ _) rfl (h.tables.referenceTo referent), found⟩

/-- Nothing is found out about literals. -/
theorem visitAll_literals {accept : Program → TypeId → Except TypeError Unit} {items : List Expr}
    (literals : ∀ e ∈ items, e.isLiteral = true) {types : List TypeId}
    (ok : (visitAll c accept items s).result = .ok types) :
    (visitAll c accept items s).exprs = items ∧ (visitAll c accept items s).state = s ∧
      (∀ t ∈ types, accept s.program t = .ok ()) ∧
        ∀ p returns Γ, HaveTypes p returns Γ items types := by
  induction items generalizing types with
  | nil =>
    rw [visitAll] at ok ⊢
    cases ok
    exact ⟨rfl, rfl, nofun, fun _ _ _ => .nil⟩
  | cons e rest ih =>
    obtain ⟨type, behind, rfl, oke, accepted, okb⟩ := visitAll_cons_inv ok
    obtain ⟨exprs, state, -⟩ := visitAll_cons_ok accept oke accepted
    have literal := literals e List.mem_cons_self
    cases e with
    | literal value line =>
      have same : (visit c (.literal value line) s).state = s := by rw [visit]; rfl
      have expr : (visit c (.literal value line) s).expr = .literal value line := by rw [visit]; rfl
      have result : value.type = type := by
        rw [visit] at oke
        exact Except.ok.inj oke
      rw [same] at exprs state accepted okb
      obtain ⟨exprs', state', accepted', typed⟩ :=
        ih (fun x hx => literals x (List.mem_cons_of_mem _ hx)) okb
      rw [exprs, state, exprs', state', expr]
      refine ⟨rfl, rfl, ?_, fun p returns Γ => ?_⟩
      · intro t ht
        rcases List.mem_cons.1 ht with rfl | ht
        · exact accepted
        · exact accepted' t ht
      · exact .cons _ _ _ _ (result ▸ .literal value line) (typed p returns Γ)
    | _ => cases literal

theorem Typed.knows {n : Nat} {v : Visited n} {type : TypeId} (h : Typed modules depth s v type)
    (ready : Ready modules depth s) : v.state.program.types.Knows type :=
  h.types.knows h.advances.valid.tables (ready.known.evolves h.advances.evolves)

theorem TypedAll.knows {n : Nat} {v : VisitedList n} {types : List TypeId}
    (h : TypedAll modules depth s v types) (ready : Ready modules depth s) :
    ∀ t ∈ types, v.state.program.types.Knows t :=
  h.types.knows h.advances.valid.tables (ready.known.evolves h.advances.evolves)

/-- What a visit finds is noted on a name, which stays one. -/
theorem isName_visit {e : Expr} (named : e.isName = true) : (visit c e s).expr.isName = true := by
  cases e with
  | var name noted line =>
    rw [visit, visitVar]
    split <;> rfl
  | field base name noted line =>
    rw [visit]
    rfl
  | _ => cases named

theorem namedType?_eq_some {e : Expr} {type : TypeId} : namedType? s e = some type ↔
    ∃ name noted line, e = .var name noted line ∧ s.scopes.get? name = some (.type type) := by
  unfold namedType?
  split
  · rename_i name noted line
    split
    · rename_i found bound
      refine ⟨?_, ?_⟩
      · rintro ⟨⟩
        exact ⟨name, noted, line, rfl, bound⟩
      · rintro ⟨_, _, _, ⟨⟩, bound'⟩
        rw [bound] at bound'
        cases bound'
        rfl
    · rename_i other
      refine ⟨nofun, ?_⟩
      rintro ⟨_, _, _, ⟨⟩, bound⟩
      exact absurd bound (other _)
  · rename_i other
    refine ⟨nofun, ?_⟩
    rintro ⟨name, noted, line, rfl, -⟩
    exact absurd rfl (other name noted line)

def FindsMethod (p : Program) (type : TypeId) (name : String) (target : FunctionId) : Prop :=
  p.types.findMethod? (p.types.dereference type) name = some target

theorem FindsMethod.evolves {p q : Program} {type : TypeId} {name : String} {target : FunctionId}
    (found : FindsMethod p type name target) (h : p.Evolves q) (known : p.types.Knows type) :
    FindsMethod q type name target := by
  rw [FindsMethod, h.types.dereference_eq known, h.types.findMethod?_eq (knows_dereference known)]
  exact found

/-- The arguments of a call whose target was found: not visited yet, visited while the target was
    looked for, or behind the receiver that was visited for it. -/
inductive Arguments (Γ : Scopes Meaning) (s : State) (target : FunctionId) :
    Expr → List Expr → Bool → Prop
  | fresh (callee : Expr) (es : List Expr) (formed : Expr.FormedAll s.program es)
    (leads : ∀ es, LeadsTo Γ s callee es target false) : Arguments Γ s target callee es false
  | visited (callee : Expr) (es : List Expr) (types : List TypeId) (typed : TypesAll Γ s es types)
    (leads : ∀ es, LeadsTo Γ s callee es target false) : Arguments Γ s target callee es false
  | received (base : Expr) (rest : List Expr) (type : TypeId) (name : String)
    (noted : Option TypeId) (line : Nat) (typed : Types Γ s base type)
    (found : FindsMethod s.program type name target)
    (dynamic : (s.program.function target).traits.isStatic = false)
    (formed : Expr.FormedAll s.program rest) :
    Arguments Γ s target (.field base name noted line) (base :: rest) true

theorem Arguments.keeps {t : State} {target : FunctionId} {callee : Expr} {es : List Expr}
    {injected : Bool} (h : Arguments Γ s target callee es injected) (tables : s.program.Tables)
    (known : KnownScopes s.program Γ) (keeps : Keeps s t) :
    Arguments Γ t target callee es injected := by
  cases h with
  | fresh _ _ formed leads =>
    exact .fresh callee es (Expr.formedAll_mono keeps.evolves.extension es formed)
      fun es => (leads es).keeps keeps
  | visited _ _ types typed leads =>
    exact .visited callee es types (typed.keeps keeps) fun es => (leads es).keeps keeps
  | received base rest type name noted line typed found dynamic formed =>
    refine .received base rest type name noted line (typed.keeps keeps)
      (found.evolves keeps.evolves (typed.knows tables known)) ?_
      (Expr.formedAll_mono keeps.evolves.extension rest formed)
    rw [keeps.evolves.traits_eq]
    exact dynamic

/-- A method is bound to the type of its receiver, which becomes an argument or is dropped. -/
theorem bindMethod_inv {n m : Nat} {base : Visited n} {name : String} {noted : Option TypeId}
    {line : Nat} {arguments : List Expr} {le : Expr.weights arguments ≤ m} {target : FunctionId}
    {callee : Expr} {bound : List Expr} {injected : Bool} {t : State}
    {le' : Expr.weights bound ≤ n + 1 + m}
    (h : bindMethod base name noted line arguments false le =
      .bound target callee bound injected t le') :
    ∃ type, base.result = .ok type ∧ FindsMethod base.state.program type name target ∧
      t = base.state ∧ callee = .field base.expr name noted line ∧
      (bound = arguments ∧ injected = false ∧
          (t.program.function target).traits.isStatic = true ∨
        bound = base.expr :: arguments ∧ injected = true ∧
          (t.program.function target).traits.isStatic = false) := by
  unfold bindMethod at h
  dsimp only at h
  split at h
  · cases h
  · rename_i found heq
    obtain ⟨type, result, method⟩ := bind_eq_ok.1 heq
    have method := methodTarget_eq_ok.1 method
    split at h
    · rename_i static
      cases h
      exact ⟨type, result, method, rfl, rfl, .inl ⟨rfl, rfl, static⟩⟩
    · rename_i dynamic
      cases h
      exact ⟨type, result, method, rfl, rfl, .inr ⟨rfl, rfl, Bool.eq_false_iff.2 dynamic⟩⟩

theorem TypesAll.call {es : List Expr} {types : List TypeId} (hes : TypesAll Γ s es types)
    (tables : s.program.Tables) (known : KnownScopes s.program Γ) {target : FunctionId}
    {injected : Bool} {type : TypeId} (checked : target ∈ s.checked)
    (rule : callType s.program target injected types = .ok type)
    (receiver : injected = true → Receives s.program target types) {callee : Expr}
    (leads : LeadsTo Γ s callee es target injected) (line : Nat) :
    Types Γ s (.call callee es (some target) injected line) type := by
  intro O u returns hu hr
  have hknown := hes.knows tables known
  obtain ⟨arity, pairs, rfl⟩ := callType_eq_ok.1 rule
  refine .call callee es target injected line types _ (leads O u returns hu hr)
    (hes O u returns hu hr) ?_ ?_ ?_ (hr target checked)
  · rw [hu.evolves.parameters_eq]
    exact arity
  · exact checkPairs_evolves hu.evolves tables hknown pairs
  · intro hinjected
    have received := receiver hinjected
    cases types with
    | nil => exact received
    | cons first rest =>
      obtain ⟨name, found⟩ := received
      exact ⟨name, FindsMethod.evolves found hu.evolves (hknown first List.mem_cons_self)⟩

variable (modules depth c) in
/-- A visit of the expression that ends without an error leaves one of the type that it found. -/
def FindsType (e : Expr) : Prop :=
  ∀ s : State, e.Formed s.program → Ready modules depth s → ∀ type,
    (visit c e s).result = .ok type → (visit c e s).state.Clean →
      Typed modules depth s (visit c e s) type

variable (modules depth c) in
def FindsTypes (es : List Expr) : Prop :=
  ∀ (accept : Program → TypeId → Except TypeError Unit) (s : State),
    Expr.FormedAll s.program es → Ready modules depth s → ∀ types,
      (visitAll c accept es s).result = .ok types → (visitAll c accept es s).state.Clean →
        TypedAll modules depth s (visitAll c accept es s) types

namespace FindsType

theorem binary (hc : c.Sound modules depth) (op : BinaryOperator) {lhs rhs : Expr} (line : Nat)
    (left : FindsType modules depth c lhs) (right : FindsType modules depth c rhs) :
    FindsType modules depth c (.binary op lhs rhs line) := by
  intro s formed ready type ok clean
  obtain ⟨hlhs, hrhs⟩ := formed
  rw [visit] at ok clean ⊢
  dsimp only at ok clean
  obtain ⟨a, oka, ok⟩ := bind_eq_ok.1 ok
  obtain ⟨b, okb, rule⟩ := bind_eq_ok.1 ok
  have next := next_ok oka (visit c rhs)
  have keeps := keeps_visit hc.keeping rhs (visit c lhs s).state
  rw [next] at okb clean rule
  have first := left s hlhs ready a oka (keeps.clean clean)
  have ready' := ready.keeps (keeps_visit hc.keeping lhs s) first.advances.valid
  have second := right _ (rhs.formed_mono first.advances.evolves.extension hrhs) ready' b okb clean
  have firsts := first.types.keeps keeps
  have seconds := second.types
  have known := keeps.evolves.types.knows (first.knows ready)
  rw [(keeps_visit hc.keeping lhs s).scopes] at seconds
  refine ⟨?_, fun O u returns hu hr => ?_⟩
  · dsimp only
    rw [next]
    exact first.advances.trans second.advances
  · dsimp only at hu hr ⊢
    rw [next] at hu hr ⊢
    exact .binary op _ _ line a b type (firsts O u returns hu hr) (seconds O u returns hu hr)
      (binaryType_evolves hu.evolves known (second.knows ready') rule)

theorem literal (value : Literal) (line : Nat) :
    FindsType modules depth c (.literal value line) := by
  intro s formed ready type ok clean
  rw [visit] at ok ⊢
  cases ok
  exact ⟨ready.stays, fun O u returns _ _ => .literal value line⟩

theorem var (name : String) (noted : Option TypeId) (line : Nat) :
    FindsType modules depth c (.var name noted line) := by
  intro s formed ready type ok clean
  rw [visit] at ok ⊢
  unfold visitVar at ok ⊢
  dsimp only at ok ⊢
  split at ok
  · rename_i found bound
    cases ok
    exact ⟨ready.stays, fun O u returns _ _ => .var name type line bound⟩
  · cases ok
  · cases ok

theorem field {base : Expr} (name : String) (noted : Option TypeId) (line : Nat)
    (object : FindsType modules depth c base) :
    FindsType modules depth c (.field base name noted line) := by
  intro s formed ready type ok clean
  rw [visit] at ok clean ⊢
  obtain ⟨owner, oko, rule⟩ := bind_eq_ok.1 ok
  have typed := object s formed ready owner oko clean
  have noted : (fieldOf (visit c base s) name noted line).expr =
      .field (visit c base s).expr name (some type) line := by
    unfold fieldOf
    dsimp only
    rw [bind_eq_ok.2 ⟨owner, oko, rule⟩]
  refine ⟨typed.advances, fun O u returns hu hr => ?_⟩
  rw [noted]
  exact .field _ name line owner type (typed.types O u returns hu hr)
    (fieldType_evolves hu.evolves (typed.knows ready) rule)

theorem new (made : TypeId) (line : Nat) : FindsType modules depth c (.new made line) := by
  intro s formed ready type ok clean
  rw [visit] at ok ⊢
  cases ok
  refine ⟨ready.stays, fun O u returns hu _ => .new _ line ?_ ?_⟩
  · exact hu.evolves.types.knows formed.1
  · exact (hu.evolves.types.isObject_eq formed.1).trans formed.2

theorem allocate (element : TypeId) {size : Expr} (line : Nat)
    (sized : FindsType modules depth c size) :
    FindsType modules depth c (.allocate element size line) := by
  intro s formed ready type ok clean
  rw [visit] at ok clean ⊢
  have keeps := keeps_arrayType element (visit c size s).state
    ((visit c size s).result.bind (checkSize (visit c size s).state.program))
  obtain ⟨count, okc, rule⟩ := bind_eq_ok.1 (checked_of_arrayType ok)
  have typed := sized s formed.2 ready count okc (keeps.clean clean)
  obtain ⟨advances, found⟩ := arrayType_typed typed.advances.valid
    (typed.advances.evolves.types.knows formed.1) ok
  refine ⟨typed.advances.trans advances, fun O u returns hu hr => ?_⟩
  exact .allocate element _ line count type (typed.types.keeps keeps O u returns hu hr)
    (checkSize_eq_ok.2 (checkSize_eq_ok.1 rule)) (hu.evolves.types.findArray?_eq found)

theorem array (element : TypeId) (items : List Expr) (line : Nat) :
    FindsType modules depth c (.array element items line) := by
  intro s formed ready type ok clean
  rw [visit] at ok clean ⊢
  obtain ⟨types, okt, -⟩ := map_eq_ok.1 (checked_of_arrayType ok)
  obtain ⟨exprs, state, accepted, typed⟩ := visitAll_literals formed.2 okt
  have start : Advances modules depth (fun _ => False) s
      (visitAll c (checkItem element) items s).state := state.symm ▸ ready.stays
  obtain ⟨advances, found⟩ := arrayType_typed start.valid
    (start.evolves.types.knows formed.1) ok
  have known := (typed s.program (fun _ _ => False) s.scopes).knows ready.valid.tables
    ready.known nofun
  refine ⟨start.trans advances, fun O u returns hu hr => ?_⟩
  change HasType u.program returns s.scopes
    (.array element (visitAll c (checkItem element) items s).exprs line) type
  rw [exprs]
  refine .array element items line types type formed.2 (typed u.program returns s.scopes) ?_
    (hu.evolves.types.findArray?_eq found)
  intro t ht
  exact checkItem_evolves ((start.trans advances).evolves.trans hu.evolves) formed.1 (known t ht)
    (accepted t ht)

theorem index (hc : c.Sound modules depth) {array index : Expr} (line : Nat)
    (stored : FindsType modules depth c array) (placed : FindsType modules depth c index) :
    FindsType modules depth c (.index array index line) := by
  intro s formed ready type ok clean
  obtain ⟨harray, hindex⟩ := formed
  rw [visit] at ok clean ⊢
  dsimp only at ok clean
  obtain ⟨place, okp, ok⟩ := bind_eq_ok.1 ok
  obtain ⟨⟨⟩, int, result⟩ := bind_eq_ok.1 ok
  obtain ⟨owner, oko, rule⟩ := bind_eq_ok.1 result
  have next := next_ok result (visit c index)
  rw [next] at okp clean int
  have keeps := keeps_visit hc.keeping index ((visit c array s).judge elementType).state
  have first := stored s harray ready owner oko (keeps.clean clean)
  have ready' := ready.keeps (keeps_visit hc.keeping array s) first.advances.valid
  have second := placed _ (index.formed_mono first.advances.evolves.extension hindex) ready' place
    okp clean
  have firsts := first.types.keeps keeps
  have seconds := second.types
  have known := first.knows ready
  rw [(keeps_visit hc.keeping array s).scopes] at seconds
  refine ⟨?_, fun O u returns hu hr => ?_⟩
  · dsimp only
    rw [next]
    exact first.advances.trans second.advances
  · dsimp only at hu hr ⊢
    rw [next] at hu hr ⊢
    exact .index _ _ line owner place type (firsts O u returns hu hr)
      (elementType_evolves (keeps.evolves.trans hu.evolves) known rule)
      (seconds O u returns hu hr) (checkIndex_eq_ok.2 (checkIndex_eq_ok.1 int))

theorem reference {expr : Expr} (line : Nat) (place : FindsType modules depth c expr) :
    FindsType modules depth c (.reference expr line) := by
  intro s formed ready type ok clean
  rw [visit] at ok clean ⊢
  split at ok
  · rename_i named
    rw [if_pos named] at clean ⊢
    obtain ⟨referent, result⟩ := result_of_referenceType ok
    have keeps := keeps_referenceType (visit c expr s)
    have typed := place s formed ready referent result (keeps.clean clean)
    obtain ⟨advances, found⟩ := referenceType_typed typed.advances.valid result
      (typed.knows ready) ok
    refine ⟨typed.advances.trans advances, fun O u returns hu hr => ?_⟩
    exact .reference _ line referent type (isName_visit named)
      (typed.types.keeps keeps O u returns hu hr) (hu.evolves.types.findReference?_eq found)
  · cases ok

theorem cast {expr : Expr} (target : TypeId) (line : Nat)
    (source : FindsType modules depth c expr) :
    FindsType modules depth c (.cast expr target line) := by
  intro s formed ready type ok clean
  rw [visit] at ok clean ⊢
  obtain ⟨found, okf, rfl⟩ := map_eq_ok.1 ok
  have typed := source s formed.1 ready found okf clean
  refine ⟨typed.advances, fun O u returns hu hr =>
    .cast _ target line found (typed.types O u returns hu hr) ?_⟩
  exact hu.evolves.types.knows (typed.advances.evolves.types.knows formed.2)

end FindsType

theorem FindsTypes.cons (hc : c.Sound modules depth) {e : Expr} {rest : List Expr}
    (head : FindsType modules depth c e) (tail : FindsTypes modules depth c rest) :
    FindsTypes modules depth c (e :: rest) := by
  intro accept s formed ready types ok clean
  obtain ⟨he, hrest⟩ := formed
  obtain ⟨type, behind, rfl, oke, accepted, okb⟩ := visitAll_cons_inv ok
  obtain ⟨exprs, state, -⟩ := visitAll_cons_ok accept oke accepted
  rw [state] at clean
  have keeps := keeps_visitAll hc.keeping accept rest (visit c e s).state
  have first := head s he ready type oke (keeps.clean clean)
  have ready' := ready.keeps (keeps_visit hc.keeping e s) first.advances.valid
  have behinds := tail accept _ (Expr.formedAll_mono first.advances.evolves.extension rest hrest)
    ready' behind okb clean
  have typed := behinds.types
  rw [(keeps_visit hc.keeping e s).scopes] at typed
  refine ⟨?_, ?_⟩
  · rw [state]
    exact first.advances.trans behinds.advances
  · rw [exprs, state]
    exact fun O u returns hu hr => .cons _ _ type behind
      (first.types.keeps keeps O u returns hu hr) (typed O u returns hu hr)

/-- The arguments of a call are visited once its target was checked. A receiver among them was visited
    before, so that only those behind it are new. -/
theorem arguments_typed (hc : c.Sound modules depth) {target : FunctionId} {callee : Expr}
    {es : List Expr} (all : FindsTypes modules depth c es)
    (behind : FindsTypes modules depth c es.tail) {injected : Bool} {s : State}
    (arguments : Arguments s.scopes s target callee es injected) (ready : Ready modules depth s)
    {types : List TypeId} (ok : (visitAll c (fun _ _ => .ok ()) es s).result = .ok types)
    (clean : (visitAll c (fun _ _ => .ok ()) es s).state.Clean) :
    Advances modules depth (fun _ => False) s (visitAll c (fun _ _ => .ok ()) es s).state ∧
      TypesAll s.scopes (visitAll c (fun _ _ => .ok ()) es s).state
        (visitAll c (fun _ _ => .ok ()) es s).exprs types ∧
        (injected = true →
          Receives (visitAll c (fun _ _ => .ok ()) es s).state.program target types) ∧
        LeadsTo s.scopes (visitAll c (fun _ _ => .ok ()) es s).state callee
          (visitAll c (fun _ _ => .ok ()) es s).exprs target injected := by
  cases arguments with
  | fresh _ _ formed leads =>
    have typed := all _ s formed ready types ok clean
    have keeps := keeps_visitAll hc.keeping (fun _ _ => .ok ()) es s
    exact ⟨typed.advances, typed.types, nofun, (leads _).keeps keeps⟩
  | visited _ _ _ typed leads =>
    obtain ⟨exprs, state, typed'⟩ := typed.revisit hc ready.valid.tables rfl ok
    rw [exprs, state]
    exact ⟨ready.stays, typed', nofun, leads es⟩
  | received base rest type name noted line typed found dynamic formed =>
    obtain ⟨first, others, rfl, okf, accepted, oko⟩ := visitAll_cons_inv ok
    obtain ⟨exprs, state, -⟩ := visitAll_cons_ok (fun _ _ => .ok ()) okf accepted
    obtain ⟨expr, same, rfl⟩ := typed.revisit hc ready.valid.tables rfl okf
    rw [state, same] at clean
    rw [same] at oko
    rw [exprs, state, expr, same]
    have keeps := keeps_visitAll hc.keeping (fun _ _ => .ok ()) rest s
    have behinds := behind _ s formed ready others oko clean
    have found' := found.evolves keeps.evolves (typed.knows ready.valid.tables ready.known)
    have known := (typed.keeps keeps).knows behinds.advances.valid.tables
      (ready.known.evolves keeps.evolves)
    refine ⟨behinds.advances, fun O u returns hu hr => ?_, fun _ => ⟨name, found'⟩,
      fun O u returns hu hr => ?_⟩
    · exact .cons base _ first others (typed.keeps keeps O u returns hu hr)
        (behinds.types O u returns hu hr)
    · refine .received base name noted line _ target first (typed.keeps keeps O u returns hu hr)
        (found'.evolves hu.evolves known) ?_
      rw [hu.evolves.traits_eq, keeps.evolves.traits_eq]
      exact dynamic

theorem target_typed (hc : c.Sound modules depth) {target : FunctionId} {callee : Expr}
    {es : List Expr} (all : FindsTypes modules depth c es)
    (behind : FindsTypes modules depth c es.tail) {injected : Bool} {s : State}
    (arguments : Arguments s.scopes s target callee es injected)
    (declared : s.program.Declares target) (ready : Ready modules depth s)
    {types : List TypeId} {type : TypeId}
    (ok : (visitAll c (fun _ _ => .ok ()) es (c.checkTarget target s)).result = .ok types)
    (clean : (visitAll c (fun _ _ => .ok ()) es (c.checkTarget target s)).state.Clean)
    (rule : callType (visitAll c (fun _ _ => .ok ()) es (c.checkTarget target s)).state.program
      target injected types = .ok type) (line : Nat) :
    Advances modules depth (fun _ => False) s
        (visitAll c (fun _ _ => .ok ()) es (c.checkTarget target s)).state ∧
      Types s.scopes (visitAll c (fun _ _ => .ok ()) es (c.checkTarget target s)).state
        (.call callee (visitAll c (fun _ _ => .ok ()) es (c.checkTarget target s)).exprs
          (some target) injected line) type := by
  have keeps := hc.keeping target s
  have keeps' := keeps_visitAll hc.keeping (fun _ _ => .ok ()) es (c.checkTarget target s)
  obtain ⟨advances, checked⟩ := hc.checks target s ready.valid declared (keeps'.clean clean)
  have ready' := ready.keeps keeps advances.valid
  have arguments' := arguments.keeps ready.valid.tables ready.known keeps
  rw [← keeps.scopes] at arguments'
  obtain ⟨advances', types', received, leads⟩ :=
    arguments_typed hc all behind arguments' ready' ok clean
  rw [keeps.scopes] at types' leads
  have known := ready.known.evolves (keeps.trans keeps').evolves
  exact ⟨advances.trans advances', types'.call advances'.valid.tables known
    (keeps'.toLater.mem checked) rule received leads line⟩

/-- Looking for the target of a call, in scopes that stay the same. Of the arguments and the base of
    a field, whatever is visited for it is typed then. -/
theorem resolve_typed (hc : c.Sound modules depth) {callee : Expr} {arguments : List Expr}
    (all : FindsTypes modules depth c arguments)
    (object : ∀ base name noted line, callee = .field base name noted line →
      FindsType modules depth c base)
    {s : State} (formed : callee.Formed s.program) (formedAll : Expr.FormedAll s.program arguments)
    (ready : Ready modules depth s) {target : FunctionId} {callee' : Expr} {bound : List Expr}
    {injected : Bool} {t : State} {le : Expr.weights bound ≤ callee.weight + Expr.weights arguments}
    (h : resolve c callee arguments false s = .bound target callee' bound injected t le)
    (clean : t.Clean) :
    Advances modules depth (fun _ => False) s t ∧
      Arguments s.scopes t target callee' bound injected ∧ t.program.Declares target := by
  cases callee with
  | var name noted line =>
    rw [resolve] at h
    split at h
    · rename_i found heq
      cases h
      obtain ⟨types, okt, free⟩ := bind_eq_ok.1 heq
      obtain ⟨m, hm, hfound⟩ := freeTarget_eq_ok.1 free
      have typed := all _ s formedAll ready types okt clean
      have visible : m ∈ modules := hc.modules_eq ▸ List.mem_of_getElem? hm
      refine ⟨typed.advances, .visited _ _ types typed.types fun es O u returns hu _ => ?_,
        (typed.advances.valid.visible m visible).functions target (List.mem_of_find?_eq_some hfound)⟩
      obtain ⟨named, orphan⟩ := called_of_findFunction? hfound
      refine .free name noted line es target ?_ ?_
      · rw [hu.evolves.name_eq, named]
      · rw [hu.evolves.parent_eq, orphan]
    · cases h
  | field base name noted line =>
    rw [resolve] at h
    split at h
    · split at h
      · rename_i owner named _ found heq
        cases h
        have method := methodTarget_eq_ok.1 heq
        obtain ⟨type, noted', place, rfl, bound⟩ := namedType?_eq_some.1 named
        refine ⟨ready.stays, .fresh _ arguments formedAll fun es O u returns hu _ => ?_,
          ready.valid.tables.declares_findMethod? method⟩
        refine .named type noted' place name noted line es target owner bound ?_
        rw [hu.evolves.types.findMethod?_eq (Registry.knows_of_findMethod? method)]
        exact method
      · cases h
    · obtain ⟨type, oko, found, rfl, rfl, shape⟩ := bindMethod_inv h
      have typed := object base name noted line rfl s formed ready type oko clean
      have formed' := Expr.formedAll_mono typed.advances.evolves.extension arguments formedAll
      refine ⟨typed.advances, ?_, typed.advances.valid.tables.declares_findMethod? found⟩
      rcases shape with ⟨rfl, rfl, static⟩ | ⟨rfl, rfl, dynamic⟩
      · refine .fresh _ _ formed' fun es O u returns hu hr => ?_
        refine .dropped _ name noted line es target type (typed.types O u returns hu hr)
          (found.evolves hu.evolves (typed.knows ready)) ?_
        rw [hu.evolves.traits_eq]
        exact static
      · exact .received _ _ type name noted line typed.types found dynamic formed'
  | _ =>
    unfold resolve at h
    cases h

theorem FindsType.callMade (hc : c.Sound modules depth) (callee : Expr) {arguments : List Expr}
    (target : FunctionId) (injected : Bool) (line : Nat)
    (all : FindsTypes modules depth c arguments)
    (behind : FindsTypes modules depth c arguments.tail) :
    FindsType modules depth c (.call callee arguments (some target) injected line) := by
  intro s formed ready type ok clean
  obtain ⟨-, harguments, made, rfl⟩ := formed
  have makes := made target rfl
  rw [visit] at ok clean ⊢
  obtain ⟨types, okt, rule⟩ := bind_eq_ok.1 ok
  have fresh : Arguments s.scopes s target callee arguments false :=
    .fresh callee arguments harguments fun es O u returns hu _ =>
      .made callee es target (makes.mono hu.evolves.extension)
  have called := target_typed hc all behind fresh makes.declared ready okt clean rule line
  exact ⟨called.1, called.2⟩

/-- A call is bound, its target is checked and its arguments are visited. They are those that were
    written, perhaps behind a receiver, so that they do not weigh more than the call. -/
theorem FindsType.callFound (hc : c.Sound modules depth) {callee : Expr} {arguments : List Expr}
    (injected : Bool) (line : Nat)
    (all : ∀ es : List Expr, Expr.weights es ≤ callee.weight + Expr.weights arguments →
      FindsTypes modules depth c es)
    (object : ∀ base name noted line, callee = .field base name noted line →
      FindsType modules depth c base) :
    FindsType modules depth c (.call callee arguments none injected line) := by
  intro s formed ready type ok clean
  obtain ⟨hcallee, harguments, -, rfl⟩ := formed
  rw [visit] at ok clean ⊢
  split at ok
  · cases ok
  · rename_i target callee' bound injected t le heq
    rw [heq] at clean
    obtain ⟨types, okt, rule⟩ := bind_eq_ok.1 ok
    have keeps : Keeps s t := by
      have resolved := keeps_resolve hc.keeping callee arguments false s
      rw [heq] at resolved
      exact resolved
    have keeps' := (hc.keeping target t).trans
      (keeps_visitAll hc.keeping (fun _ _ => .ok ()) bound (c.checkTarget target t))
    obtain ⟨advances, found, declared⟩ := resolve_typed hc (all arguments (Nat.le_add_left _ _))
      object hcallee harguments ready heq (keeps'.clean clean)
    have ready' := ready.keeps keeps advances.valid
    rw [← keeps.scopes] at found
    have behind := all bound.tail (Nat.le_trans (Expr.weights_tail_le bound) le)
    have called := target_typed hc (all bound le) behind found declared ready' okt clean rule line
    rw [keeps.scopes] at called
    exact ⟨advances.trans called.1, called.2⟩

mutual

theorem visit_typed (hc : c.Sound modules depth) (e : Expr) : FindsType modules depth c e := by
  match e with
  | .binary op lhs rhs line => exact .binary hc op line (visit_typed hc lhs) (visit_typed hc rhs)
  | .literal value line => exact .literal value line
  | .var name noted line => exact .var name noted line
  | .field base name noted line => exact .field name noted line (visit_typed hc base)
  | .new type line => exact .new type line
  | .allocate element size line => exact .allocate element line (visit_typed hc size)
  | .array element items line => exact .array element items line
  | .index array index line =>
    exact .index hc line (visit_typed hc array) (visit_typed hc index)
  | .reference expr line => exact .reference line (visit_typed hc expr)
  | .cast expr type line => exact .cast type line (visit_typed hc expr)
  | .call callee arguments (some target) injected line =>
    have behind := Expr.weights_tail_le arguments
    exact .callMade hc callee target injected line (visitAll_typed hc arguments)
      (visitAll_typed hc arguments.tail)
  | .call callee arguments none injected line =>
    exact .callFound hc injected line (fun es le => visitAll_typed hc es)
      fun base name noted place same => visit_typed hc base
termination_by 2 * e.weight
decreasing_by
  all_goals simp only [Expr.weight] at *
  all_goals grind [Expr.weight]

theorem visitAll_typed (hc : c.Sound modules depth) (es : List Expr) :
    FindsTypes modules depth c es := by
  match es with
  | [] =>
    intro accept s formed ready types ok clean
    rw [visitAll] at ok ⊢
    cases ok
    exact ⟨ready.stays, fun _ _ _ _ _ => .nil⟩
  | e :: rest =>
    have positive := e.weight_pos
    exact .cons hc (visit_typed hc e) (visitAll_typed hc rest)
termination_by 2 * Expr.weights es + 1
decreasing_by all_goals simp only [Expr.weights]; omega

end

end Typing
end ObjectLang
