import ObjectLang.Proofs.Calls.Method
import ObjectLang.Proofs.Grammar.Taking
import ObjectLang.Proofs.Program.Supplement
set_option autoImplicit false

/-!
# Declarations that are refused

Types, expressions and statements are read into nothing but trees. What they ask for on the way are
built types, and of these the lists become visible in the file. A declaration of a function goes
further only in its last step, when it is registered, and there it is refused before anything but
the arena is touched. So wherever it is refused, no table that was there has changed.
-/

namespace ObjectLang

theorem Ty.isList_of_members {t : Ty} {m : Members} (built : t.isBuilt = true)
    (has : m ∈ t.members?) : t.isList = true := by
  cases t with
  | list => rfl
  | array => cases has
  | reference => cases has
  | _ => cases built

namespace Grammar

structure State.Shows (s : State) : Prop where
  builtin : 6 ≤ s.program.types.size
  types : ∀ t ∈ s.module.types, s.program.types.Knows t

/-- Reading came from `s` to `t` and supplied nothing but built types, of which the file shows
    lists. -/
structure Supplies (s t : State) : Prop where
  program : s.program.Supplements t.program
  module : ∃ lists, t.module = { s.module with ownTypes := s.module.ownTypes ++ lists } ∧
    (s.Shows → ∀ l ∈ lists, (t.program.types.get l).isList = true)
  pending : t.pending = s.pending ∨ t.pending = none

namespace Supplies

variable {s t u : State}

theorem of_eq (program : t.program = s.program) (module : t.module = s.module)
    (pending : t.pending = s.pending) : Supplies s t where
  program := program ▸ .refl _
  module := ⟨[], by rw [module, List.append_nil], fun _ _ h => (by cases h)⟩
  pending := .inl pending

theorem refl (s : State) : Supplies s s := of_eq rfl rfl rfl

theorem knows_of_isList {p : Program} {id : TypeId} (list : (p.types.get id).isList = true) :
    p.types.Knows id := by
  refine Registry.knows_of_get_ne_void fun void => ?_
  rw [void] at list
  cases list

theorem shows (h : Supplies s t) (hs : s.Shows) : t.Shows where
  builtin := Nat.le_trans hs.builtin h.program.spares.types.size_le
  types := by
    obtain ⟨lists, module, made⟩ := h.module
    intro id hid
    rw [module] at hid
    rcases List.mem_append.1 hid with imported | own
    · exact h.program.spares.types.knows (hs.types id (List.mem_append_left _ imported))
    · rcases List.mem_append.1 own with old | new
      · exact h.program.spares.types.knows (hs.types id (List.mem_append_right _ old))
      · exact knows_of_isList (made hs id new)

theorem trans (h : Supplies s t) (h' : Supplies t u) : Supplies s u where
  program := h.program.trans h'.program
  module := by
    obtain ⟨lists, module, made⟩ := h.module
    obtain ⟨lists', module', made'⟩ := h'.module
    refine ⟨lists ++ lists', by rw [module', module, List.append_assoc], fun hs l hl => ?_⟩
    rcases List.mem_append.1 hl with old | new
    · have list := made hs l old
      rw [h'.program.spares.types.get_eq (knows_of_isList list)]
      exact list
    · exact made' (h.shows hs) l new
  pending := by
    rcases h'.pending with same | taken
    · rw [same]
      exact h.pending
    · exact .inr taken

theorem arrayOf (h : Supplies s t) (element : TypeId) : Supplies s (t.arrayOf element).2 :=
  h.trans ⟨.arrayOf t.program element,
    ⟨[], by simp [State.arrayOf], fun _ _ h => (by cases h)⟩, .inl rfl⟩

theorem referenceTo (h : Supplies s t) (referent : TypeId) :
    Supplies s (t.referenceTo referent).2 :=
  h.trans ⟨.referenceTo t.program referent,
    ⟨[], by simp [State.referenceTo], fun _ _ h => (by cases h)⟩, .inl rfl⟩

theorem listOf (h : Supplies s t) {element : TypeId}
    (known : s.Shows → t.program.types.Knows element) : Supplies s (t.listOf element).2 where
  program := h.program.trans (.listOf t.program element)
  module := by
    obtain ⟨lists, module, made⟩ := h.module
    have grows := (Program.Supplements.listOf t.program element).spares.types
    have kept (hs : s.Shows) (l : TypeId) (hl : l ∈ lists) :
        ((t.program.listOf element).2.types.get l).isList = true := by
      have list := made hs l hl
      rw [grows.get_eq (knows_of_isList list)]
      exact list
    change ∃ lists, t.module.addType (t.program.listOf element).1 = _ ∧ _
    unfold Module.addType
    split
    · exact ⟨lists, module, kept⟩
    · refine ⟨lists ++ [(t.program.listOf element).1], ?_, fun hs l hl => ?_⟩
      · rw [module, List.append_assoc]
      · rcases List.mem_append.1 hl with old | new
        · exact kept hs l old
        · obtain ⟨members, list⟩ := Program.get_listOf (known hs)
          rw [List.mem_singleton.1 new]
          exact list ▸ rfl
  pending := h.pending

end Supplies

theorem supplies_of_take? {s : State} {k : Taken s} (h : s.take? = some k) :
    Supplies s k.behind := by
  unfold State.take? at h
  split at h <;> cases h
  exact .of_eq rfl rfl rfl

theorem supplies_inside {s : State} {α : Type} (k : Taken s) (closing : TokenKind)
    {read : (t : State) → t.size ≤ k.behind.size → Step α t.size}
    (h : ∀ t le, Supplies t (read t le).state) : Supplies s (k.inside closing read).state := by
  unfold Taken.inside
  dsimp only
  split
  · exact .of_eq rfl rfl rfl
  · rename_i inner hinner
    have entered : Supplies s (s.enter inner (s.cursor.cutInside k.token.kind closing).2) :=
      .of_eq rfl rfl rfl
    have come := entered.trans (h (s.enter inner (s.cursor.cutInside k.token.kind closing).2)
      ((Cursor.size_cutInside k.tokens_eq closing).2 inner hinner))
    split
    · rename_i value t le hx
      rw [hx] at come
      exact come.trans (.of_eq rfl rfl rfl)
    · rename_i e t le hx
      rw [hx] at come
      exact come.trans (.of_eq rfl rfl rfl)

theorem tokenwise_supplies : Tokenwise Supplies where
  refl := .refl
  trans := .trans
  logs _ _ := .of_eq rfl rfl rfl
  take := supplies_of_take?
  accept _ _ := .of_eq rfl rfl rfl
  recover _ := .of_eq rfl rfl rfl
  inside k closing _ h := supplies_inside k closing h

/-- The step supplies built types, and the type it comes to is known, if those are that the file
    shows. -/
def Step.Spells {n : Nat} (s : State) (x : Step TypeId n) : Prop :=
  Supplies s x.state ∧ ∀ type t le, x = .ok type t le → s.Shows → t.program.types.Knows type

namespace Step.Spells

variable {s : State} {n m : Nat}

theorem of_error {e : SyntaxError} {t : State} {le : t.size ≤ n} (h : Supplies s t) :
    (Step.error e t le : Step TypeId n).Spells s :=
  ⟨h, nofun⟩

theorem of_ok {type : TypeId} {t : State} {le : t.size ≤ n} (h : Supplies s t)
    (known : s.Shows → t.program.types.Knows type) : (Step.ok type t le).Spells s :=
  ⟨h, fun _ _ _ same => by cases same; exact known⟩

theorem widen {x : Step TypeId n} (h : x.Spells s) (le : n ≤ m) : (x.widen le).Spells s := by
  cases x with
  | ok type t _ => exact of_ok h.1 (h.2 type t _ rfl)
  | error e t _ => exact of_error h.1

theorem andThen {α : Type} {x : Step α n} (h : Supplies s x.state)
    {f : α → (t : State) → t.size ≤ n → Step TypeId t.size}
    (hf : ∀ v t le, x = .ok v t le → Supplies s t → (f v t le).Spells s) :
    (x.andThen f).Spells s := by
  cases x with
  | ok v t le => exact (hf v t le rfl h).widen le
  | error e t le => exact of_error h

end Step.Spells

theorem spells_plainTypeName (s : State) : (plainTypeName s).Spells s := by
  refine .andThen (tokenwise_supplies.expect s .identifier) fun name t _ _ h => ?_
  split
  · rename_i type found
    exact .of_ok h fun hs => (h.shows hs).types type (List.mem_of_find?_eq_some found)
  · exact .of_error h

theorem knows_behind {α : Type} {n : Nat} {s t u : State} {x : Step α n} {type : TypeId} {v : α}
    {le : u.size ≤ n} (h : Supplies t x.state) (same : x = .ok v u le)
    (known : s.Shows → t.program.types.Knows type) (hs : s.Shows) : u.program.types.Knows type := by
  rw [same] at h
  exact h.program.spares.types.knows (known hs)

theorem spells_typeName (s : State) : (typeName s).Spells s := by
  rw [typeName]
  split
  · exact .of_error (.refl s)
  · rename_i k hk
    have lt := k.lt
    have front := supplies_of_take? hk
    have inner := spells_typeName k.behind
    have named {element : TypeId} {t : State} {le : t.size ≤ k.behind.size}
        (read : typeName k.behind = .ok element t le) (hs : s.Shows) :
        t.program.types.Knows element :=
      inner.2 element t le read (front.shows hs)
    split
    · refine .widen (.andThen (front.trans inner.1) fun element t _ read h => ?_) _
      have closing := tokenwise_supplies.expect t .bracketClose
      refine .andThen (h.trans closing) fun _ u _ took h' => ?_
      have known := knows_behind closing took (named read)
      split
      · exact .of_error h'
      · refine .of_ok (h'.listOf known) fun hs => ?_
        obtain ⟨members, list⟩ := Program.get_listOf (known hs)
        exact Supplies.knows_of_isList (list ▸ rfl)
    · refine .widen (.andThen (front.trans inner.1) fun element t _ read h => ?_) _
      have closing := tokenwise_supplies.expect t .greater
      refine .andThen (h.trans closing) fun _ u _ took h' => ?_
      have known := knows_behind closing took (named read)
      exact .of_ok (h'.arrayOf element) fun hs => Program.knows_arrayOf (known hs)
    · have skipped := front.trans (tokenwise_supplies.skipAmpersands k.token.line k.behind)
      refine .widen (.andThen skipped fun _ t _ _ h => ?_) _
      have plain := spells_plainTypeName t
      refine .andThen (h.trans plain.1) fun referent u _ read h' => ?_
      exact .of_ok (h'.referenceTo referent) fun hs =>
        Program.knows_referenceTo (plain.2 referent u _ read (h.shows hs))
    · exact spells_plainTypeName s
termination_by s.size

theorem index_type_lt (value : Literal) : value.type.index < 6 := by
  cases value <;> exact Nat.le_of_ble_eq_true rfl

theorem steady_supplies : Steady Supplies where
  toTokenwise := tokenwise_supplies
  typeName s := (spells_typeName s).1
  arrayOf s element := (Supplies.refl s).arrayOf element
  listOf s value := (Supplies.refl s).listOf fun shows =>
    Nat.lt_of_lt_of_le (index_type_lt value) shows.builtin

/-- Where the step ends with an error, nothing but built types has been supplied. -/
def Step.Refuses {α : Type} {n : Nat} (s : State) (x : Step α n) : Prop :=
  ∀ e t le, x = .error e t le → Supplies s t

namespace Step.Refuses

variable {α β : Type} {s t : State} {n : Nat}

theorem after {x : Step α n} (h : Supplies s t) (hx : x.Refuses t) : x.Refuses s :=
  fun e u le refused => h.trans (hx e u le refused)

theorem andThen {x : Step α n} (h : Supplies s x.state)
    {f : α → (t : State) → t.size ≤ n → Step β t.size}
    (hf : ∀ v t le, (f v t le).Refuses t) : (x.andThen f).Refuses s := by
  rintro e t le refused
  cases x with
  | ok v u le' =>
    rw [Step.andThen] at refused
    cases behind : f v u le' with
    | ok w t' le'' =>
      rw [behind] at refused
      cases refused
    | error e' t' le'' =>
      rw [behind] at refused
      cases refused
      exact h.trans (hf v u le' _ _ _ behind)
  | error e' u le' =>
    cases refused
    exact h

end Step.Refuses

/-- Only the arena has been touched where a function is refused. -/
theorem refuses_register (owner : Option TypeId) (f : Function) (s : State) :
    (register owner f s).Refuses s := by
  intro e t le refused
  cases owner with
  | some owner =>
    rw [register_owner] at refused
    dsimp only at refused
    split at refused
    · cases refused
      exact ⟨.addFunction s.program f, ⟨[], by simp, fun _ _ h => (by cases h)⟩, .inl rfl⟩
    · cases refused
  | none =>
    unfold register at refused
    dsimp only at refused
    split at refused
    · cases refused
      exact .refl s
    · cases refused

theorem refuses_functionDeclaration (line : Nat) (s : State) :
    (functionDeclaration line s).Refuses s := by
  have supplies := steady_supplies
  refine .andThen (supplies.functionName s) fun named t _ => ?_
  have pending : Supplies t (Step.ofPair t.takePending t.size_takePending).state :=
    ⟨.refl _, ⟨[], by simp [Step.ofPair, Step.state, State.takePending],
      fun _ _ h => (by cases h)⟩, .inr rfl⟩
  refine .andThen pending fun marker u _ => ?_
  refine .andThen (supplies.bracketed u _ _ fun v _ => ?_) fun parameters v _ => ?_
  · exact Step.rel_mapError (supplies.parameters v) _
  refine .andThen (supplies.optionalTraits v) fun traits w _ => ?_
  refine .andThen (supplies.returnType w) fun declared x _ => ?_
  exact .andThen (supplies.body _ x) fun body y _ => refuses_register _ _ y

def functionDefinition (s : State) : Step Unit s.size :=
  (s.expect .fnWord).andThen fun word t _ => functionDeclaration word.line t

/-- This is how the declarations of a file are read. -/
theorem declarationAt?_fnWord (earlier : List Module) {s : State} {k : Taken s}
    (hk : s.take? = some k) (word : k.token.kind = .fnWord) :
    (declarationAt? earlier k).map (Step.widen k.le) = some (functionDefinition s) := by
  have front : s.expect .fnWord = (Step.pure k.token k.behind).widen k.le := by
    unfold State.expect State.next
    rw [hk]
    simp [Step.widen, Step.pure, Step.andThen, Step.ofExcept, Cursor.demand, word]
  unfold declarationAt? functionDefinition
  rw [word, front]
  rfl

theorem takes_functionDefinition (s : State) : Takes s (functionDefinition s).state :=
  (steady_moves.andThen (steady_moves.expect s .fnWord) fun _ t _ =>
    moves_functionDeclaration _ t).takes

theorem shows_of_closed {earlier : List Module} {s : State} (hs : s.draft.Closed earlier) :
    s.Shows :=
  ⟨hs.program.toTables.knows_object, hs.module.types⟩

/-- No file names the function or runs it, and only lists have it as a method. -/
def State.Abandons (t : State) (earlier : List Module) (id : FunctionId) : Prop :=
  (∀ m ∈ t.module :: earlier, id ∉ m.functions ∧ m.body ≠ some id) ∧
    ∀ type name, t.program.HasEntry type name id → (t.program.types.get type).isList = true

theorem Supplies.abandons {earlier : List Module} {s t : State} (h : Supplies s t)
    (hs : s.draft.Grounded earlier) {id : FunctionId} (new : ¬s.program.Declares id) :
    t.Abandons earlier id := by
  constructor
  · intro m hm
    suffices closed : m.functions ⊆ s.module.functions ∧ m.body = s.module.body ∨ m ∈ earlier by
      rcases closed with ⟨functions, body⟩ | read
      · exact ⟨fun named => new (hs.module.functions id (functions named)),
          fun runs => new (hs.module.body id (body.symm.trans runs))⟩
      · exact ⟨fun named => new ((hs.earlier m read).functions id named),
          fun runs => new ((hs.earlier m read).body id runs)⟩
    rcases List.mem_cons.1 hm with rfl | read
    · obtain ⟨lists, module, -⟩ := h.module
      exact .inl ⟨by rw [module]; exact fun _ named => named, by rw [module]⟩
    · exact .inr read
  · rintro type name ⟨members, has, entry⟩
    by_cases known : s.program.types.Knows type
    · rw [h.program.spares.types.get_eq known] at has
      exact absurd ((hs.program.members type members has).methods _ entry) new
    · have known' : t.program.types.Knows type := by
        refine Registry.knows_of_get_ne_void fun void => ?_
        rw [void] at has
        cases has
      exact Ty.isList_of_members ((h.program.built type known').resolve_left known) has

/-- A function declaration that is refused, wherever this happens, leaves all types and functions that
    the program had as they were. What the program has besides are types built from others, and
    functions that only the methods of lists refer to; what the file shows besides are lists. -/
theorem functionDefinition_refused {s t : State} {e : SyntaxError} {le : t.size ≤ s.size}
    (refused : functionDefinition s = .error e t le) :
    s.program.Supplements t.program ∧
      (t.pending = s.pending ∨ t.pending = none) ∧ Takes s t ∧
      ∃ lists, t.module = { s.module with ownTypes := s.module.ownTypes ++ lists } ∧
        ∀ earlier, s.draft.Closed earlier →
          (∀ l ∈ lists, (t.program.types.get l).isList = true) ∧
            ∀ id, ¬s.program.Declares id → t.Abandons earlier id := by
  have takes := takes_functionDefinition s
  rw [refused] at takes
  have supplies : Supplies s t := by
    refine Step.Refuses.andThen (steady_supplies.expect s .fnWord) ?_ e t le refused
    exact fun _ t _ => refuses_functionDeclaration _ t
  obtain ⟨lists, module, made⟩ := supplies.module
  refine ⟨supplies.program, supplies.pending, takes, lists, module, fun earlier hs => ?_⟩
  exact ⟨made (shows_of_closed hs), fun id new => supplies.abandons hs.toGrounded new⟩

/-- A method that is declared again, with a body that asks for another list. -/
theorem functionDefinition_refused_again :
    let cursor (text : String) : Cursor := .ofTokens "m.kv" (Lexed.ofText "m.kv" text).tokens
    let front : State := .start [] "m" (cursor "type A { }\nfn A.f(x: [Int]) { }") {} {}
    let s : State :=
      { (items [] front).2 with cursor := cursor "fn A.f(y: [Int]) { let z = [True]; }" }
    let e : SyntaxError := ⟨.duplicateMethod "A" "f", 1⟩
    ∃ t, ∃ le : t.size ≤ s.size, functionDefinition s = .error e t le ∧ s.draft.Closed [] ∧
      s.module.ownTypes.length < t.module.ownTypes.length ∧
      s.program.functions.size + 6 = t.program.functions.size ∧
      s.program.Supplements t.program ∧ t.module.functions = s.module.functions ∧
      ∀ id, ¬s.program.Declares id → t.Abandons [] id := by
  intro cursor front s e
  have closed : s.draft.Closed [] :=
    (leads_items front (Draft.closed_start .nil "m" "m.kv")).1.closed
  have facts : (match functionDefinition s with
      | .ok .. => false
      | .error e' t _ => decide (e' = e ∧ s.module.ownTypes.length < t.module.ownTypes.length ∧
        s.program.functions.size + 6 = t.program.functions.size)) = true := by decide +kernel
  cases refused : functionDefinition s with
  | ok _ t le =>
    rw [refused] at facts
    cases facts
  | error e' t le =>
    rw [refused] at facts
    obtain ⟨rfl, shown, added⟩ := of_decide_eq_true facts
    obtain ⟨supplements, -, -, lists, module, behind⟩ := functionDefinition_refused refused
    have functions : t.module.functions = s.module.functions := by rw [module]; rfl
    exact ⟨t, le, rfl, closed, shown, added, supplements, functions, (behind [] closed).2⟩

end Grammar
end ObjectLang
