import ObjectLang.Proofs.Typing.Statement
set_option autoImplicit false

/-!
# What checking asks for

The body of a function is checked with the help of an oracle, which checks the targets of its calls.
What the oracle is asked, and what it does to the state, makes up a log; between the replays the state
changes in few ways of its own. The log tells all that a check depends on: every oracle with the same
replays leads to the same tree and the same state.
-/

namespace ObjectLang.Typing

structure Request where
  target : FunctionId
  before : State
  after : State

/-- The oracle replays every request of the log as it was answered there. -/
def Replays (oracle : FunctionId → State → State) (log : List Request) : Prop :=
  ∀ a ∈ log, oracle a.target a.before = a.after

/-- What checking the body of `current` does to the state itself, one thing at a time. -/
inductive Change (current : FunctionId) (s : State) : State → Prop
  | array (element : TypeId) : Change current s { s with program := (s.program.arrayOf element).2 }
  | reference (referent : TypeId) :
    Change current s { s with program := (s.program.referenceTo referent).2 }
  | names (scopes : Scopes Meaning) : Change current s { s with scopes }
  | error (line : Nat) (e : TypeError) : Change current s (s.record line e)
  /-- The first returned value decides a return type that is open. -/
  | decision (type : TypeId) (filled : type ≠ .void)
    (infers : infersReturnType (s.program.function current) = true) :
    Change current s
      { s with program := s.program.modifyFunction current ({ · with returnType := type }) }

/-- A way from state to state by changes of the check itself and by the requests of a log, in order. -/
inductive Trail (current : FunctionId) : State → List Request → State → Prop
  | nil (s : State) : Trail current s [] s
  | change {s t u : State} {log : List Request} (change : Change current s t)
    (rest : Trail current t log u) : Trail current s log u
  | request (a : Request) {log : List Request} {u : State} (rest : Trail current a.after log u) :
    Trail current a.before (a :: log) u

namespace Trail

variable {current : FunctionId} {s t u : State} {log log' : List Request}

theorem single (change : Change current s t) : Trail current s [] t := .change change (.nil t)

theorem append (h : Trail current s log t) (h' : Trail current t log' u) :
    Trail current s (log ++ log') u := by
  induction h with
  | nil s => exact h'
  | change change _ ih => exact .change change (ih h')
  | request a _ ih => exact .request a (ih h')

/-- What every change and every request keeps, a trail keeps on the way to each request and to its
    end. -/
theorem keeps {R : State → State → Prop} (refl : ∀ s, R s s)
    (trans : ∀ {s t u}, R s t → R t u → R s u) (change : ∀ {s t}, Change current s t → R s t)
    (h : Trail current s log t) (requests : ∀ a ∈ log, R a.before a.after) :
    R s t ∧ ∀ a ∈ log, R s a.before := by
  induction h with
  | nil s => exact ⟨refl s, nofun⟩
  | change one _ ih =>
    obtain ⟨last, before⟩ := ih requests
    exact ⟨trans (change one) last, fun a ha => trans (change one) (before a ha)⟩
  | request a _ ih =>
    have first := requests a List.mem_cons_self
    obtain ⟨last, before⟩ := ih fun b hb => requests b (List.mem_cons_of_mem _ hb)
    refine ⟨trans first last, fun b hb => ?_⟩
    rcases List.mem_cons.1 hb with rfl | later
    · exact refl _
    · exact trans first (before b later)

end Trail

def Context.asking (c : Context) (oracle : FunctionId → State → State) : Context :=
  { c with checkTarget := oracle }

/-- What `F` finds with the oracle of `c` on a way from `s` to `t`, it finds with every oracle that
    gives the same replays. -/
def Traced {α : Type} (c : Context) (s : State) (F : Context → α) (t : State) : Prop :=
  ∃ log, Trail c.current s log t ∧ Replays c.checkTarget log ∧
    ∀ oracle, Replays oracle log → F (c.asking oracle) = F c

namespace Traced

variable {α β : Type} {c : Context} {s t u : State} {F : Context → α} {G : Context → β}

theorem pure (trail : Trail c.current s [] t) (same : ∀ oracle, F (c.asking oracle) = F c) :
    Traced c s F t := ⟨[], trail, nofun, fun oracle _ => same oracle⟩

theorem andThen (h : Traced c s F t) (h' : Traced c t G u) :
    Traced c s (fun c => (F c, G c)) u := by
  obtain ⟨log, trail, given, same⟩ := h
  obtain ⟨log', trail', given', same'⟩ := h'
  refine ⟨log ++ log', trail.append trail', fun a ha => ?_, fun oracle replays => ?_⟩
  · exact (List.mem_append.1 ha).elim (given a) (given' a)
  · have first := same oracle fun a ha => replays a (List.mem_append_left _ ha)
    have second := same' oracle fun a ha => replays a (List.mem_append_right _ ha)
    exact Prod.ext first second

theorem goOn (h : Traced c s F t) (more : Trail c.current t [] u) : Traced c s F u := by
  obtain ⟨log, trail, given, same⟩ := h
  exact ⟨log, List.append_nil log ▸ trail.append more, given, same⟩

theorem after (h : Traced c t F u) (first : Trail c.current s [] t) : Traced c s F u := by
  obtain ⟨log, trail, given, same⟩ := h
  exact ⟨log, first.append trail, given, same⟩

theorem lift (h : Traced c s F t) (same : ∀ oracle, F (c.asking oracle) = F c →
    G (c.asking oracle) = G c) : Traced c s G t := by
  obtain ⟨log, trail, given, same'⟩ := h
  exact ⟨log, trail, given, fun oracle replays => same oracle (same' oracle replays)⟩

theorem ask (target : FunctionId) (s : State) :
    Traced c s (fun c => c.checkTarget target s) (c.checkTarget target s) := by
  refine ⟨[⟨target, s, c.checkTarget target s⟩], .request ⟨target, s, _⟩ (.nil _), ?_, ?_⟩
  · intro a ha
    rw [List.mem_singleton.1 ha]
  · intro oracle replays
    exact replays ⟨target, s, c.checkTarget target s⟩ List.mem_cons_self

end Traced

section Expressions

variable {c : Context} {n m : Nat}

theorem trail_arrayType {current : FunctionId} (element : TypeId) (s : State)
    (checked : Except TypeError Unit) : Trail current s [] (arrayType element s checked).1 := by
  unfold arrayType
  split
  · exact .single (.array element)
  · exact .nil s

theorem trail_referenceType {current : FunctionId} (place : Visited n) :
    Trail current place.state [] (referenceType place).1 := by
  unfold referenceType
  split
  · exact .single (.reference _)
  · exact .nil _

theorem traced_next {v : Visited n} {e : Expr}
    (h : ∀ s, Traced c s (fun c => visit c e s) (visit c e s).state) :
    Traced c v.state (fun c => v.next (visit c e)) (v.next (visit c e)).state := by
  unfold Visited.next
  split
  · exact h _
  · exact .pure (.nil _) fun _ => rfl

mutual

theorem traced_visit (e : Expr) (s : State) :
    Traced c s (fun c => visit c e s) (visit c e s).state := by
  match e with
  | .binary op lhs rhs line =>
    have left := traced_visit lhs s
    have right := traced_next (c := c) (v := visit c lhs s) fun t => traced_visit rhs t
    rw [visit]
    refine (left.andThen right).lift fun oracle same => ?_
    obtain ⟨first, second⟩ := Prod.mk.inj same
    rw [visit, visit]
    simp only [first, second]
  | .literal value line =>
    rw [visit]
    refine .pure (.nil s) fun oracle => ?_
    rw [visit, visit]
  | .var name noted line =>
    rw [visit, state_visitVar]
    refine .pure (.nil s) fun oracle => ?_
    rw [visit, visit]
  | .field base name noted line =>
    have inside := traced_visit base s
    rw [visit]
    refine inside.lift fun oracle same => ?_
    rw [visit, visit, same]
  | .new type line =>
    rw [visit]
    refine .pure (.nil s) fun oracle => ?_
    rw [visit, visit]
  | .allocate element size line =>
    have inside := traced_visit size s
    rw [visit]
    refine (inside.goOn (trail_arrayType element _ _)).lift fun oracle same => ?_
    rw [visit, visit]
    simp only [same]
  | .array element items line =>
    have inside := traced_visitAll (checkItem element) items s
    rw [visit]
    refine (inside.goOn (trail_arrayType element _ _)).lift fun oracle same => ?_
    rw [visit, visit]
    simp only [same]
  | .index array index line =>
    have outside : Traced c s (fun c => visit c array s)
        ((visit c array s).judge elementType).state := traced_visit array s
    have inside := traced_next (c := c) (v := (visit c array s).judge elementType) fun t =>
      traced_visit index t
    rw [visit]
    refine (outside.andThen inside).lift fun oracle same => ?_
    obtain ⟨first, second⟩ := Prod.mk.inj same
    rw [visit, visit]
    simp only [first, second]
  | .reference expr line =>
    rw [visit]
    split
    · rename_i isName
      refine ((traced_visit expr s).goOn (trail_referenceType _)).lift
        fun oracle same => ?_
      rw [visit, visit, if_pos isName, if_pos isName]
      simp only [same]
    · rename_i isName
      refine .pure (.nil s) fun oracle => ?_
      rw [visit, visit, if_neg isName, if_neg isName]
  | .cast expr type line =>
    have inside := traced_visit expr s
    rw [visit]
    refine inside.lift fun oracle same => ?_
    rw [visit, visit]
    simp only [same]
  | .call callee arguments (some target) injected line =>
    have inside := traced_visitAll (fun _ _ => .ok ()) arguments (c.checkTarget target s)
    rw [visit]
    refine ((Traced.ask target s).andThen inside).lift fun oracle same => ?_
    obtain ⟨first, second⟩ := Prod.mk.inj same
    rw [visit, visit]
    simp only [first, second]
  | .call callee arguments none injected line =>
    have resolves := traced_resolve callee arguments injected s
    cases found : resolve c callee arguments injected s with
    | failed e callee' arguments' t le =>
      rw [found] at resolves
      rw [visit, found]
      refine resolves.lift fun oracle same => ?_
      rw [visit, visit]
      simp only [same, found]
    | bound target callee' bound injected' t le =>
      rw [found] at resolves
      have inside := traced_visitAll (fun _ _ => .ok ()) bound (c.checkTarget target t)
      rw [visit, found]
      refine (resolves.andThen ((Traced.ask target t).andThen inside)).lift fun oracle same => ?_
      obtain ⟨first, more⟩ := Prod.mk.inj same
      obtain ⟨second, third⟩ := Prod.mk.inj more
      rw [visit, visit]
      simp only [first, found, second, third]
termination_by 2 * e.weight
decreasing_by all_goals simp only [Expr.weight]; omega

theorem traced_visitAll (accept : Program → TypeId → Except TypeError Unit) (es : List Expr)
    (s : State) : Traced c s (fun c => visitAll c accept es s) (visitAll c accept es s).state := by
  match es with
  | [] =>
    rw [visitAll]
    refine .pure (.nil s) fun oracle => ?_
    rw [visitAll, visitAll]
  | e :: rest =>
    have _ := e.weight_pos
    have first := traced_visit e s
    rw [visitAll]
    dsimp only
    split
    · rename_i fault refused
      refine first.lift fun oracle same => ?_
      rw [visitAll, visitAll]
      simp only [same, refused]
    · have others := traced_visitAll accept rest (visit c e s).state
      refine (first.andThen others).lift fun oracle same => ?_
      obtain ⟨same, more⟩ := Prod.mk.inj same
      rw [visitAll, visitAll]
      simp only [same, more]
termination_by 2 * Expr.weights es + 1
decreasing_by all_goals simp only [Expr.weights]; omega

theorem traced_resolve (callee : Expr) (arguments : List Expr) (injected : Bool) (s : State) :
    Traced c s (fun c => resolve c callee arguments injected s)
      (resolve c callee arguments injected s).state := by
  match callee with
  | .var name noted line =>
    have inside := traced_visitAll (fun _ _ => .ok ()) arguments s
    have state : (resolve c (.var name noted line) arguments injected s).state =
        (visitAll c (fun _ _ => .ok ()) arguments s).state := by
      rw [resolve]
      split <;> rfl
    rw [state]
    refine inside.lift fun oracle same => ?_
    rw [resolve, resolve]
    simp only [same]
    rfl
  | .field base name noted line =>
    cases named : namedType? s base with
    | some type =>
      have state : (resolve c (.field base name noted line) arguments injected s).state = s := by
        rw [resolve, named]
        dsimp only
        split <;> rfl
      rw [state]
      refine .pure (.nil s) fun oracle => ?_
      rw [resolve, resolve, named]
    | none =>
      have inside := traced_visit base s
      have state : (resolve c (.field base name noted line) arguments injected s).state =
          (visit c base s).state := by
        rw [resolve, named]
        exact state_bindMethod (visit c base s) name noted line arguments injected _
      rw [state]
      refine inside.lift fun oracle same => ?_
      rw [resolve, resolve]
      simp only [named, same]
      rfl
  | .binary .. | .literal .. | .new .. | .allocate .. | .array .. | .index .. | .reference ..
  | .cast .. | .call .. =>
    refine .pure ?_ fun oracle => ?_
    · rw [resolve]
      · exact .nil s
      all_goals exact nofun
    · rw [resolve, resolve]
      all_goals exact nofun
termination_by 2 * (callee.weight + Expr.weights arguments) + 1
decreasing_by all_goals simp only [Expr.weight]; omega

end

end Expressions

section Statements

variable {c : Context} {current : FunctionId}

theorem trail_openScope (s : State) (seed : List (String × Meaning)) :
    Trail current s [] (s.openScope seed) := .single (.names _)

theorem trail_closeScope (s : State) : Trail current s [] s.closeScope := .single (.names _)

theorem trail_declare {target : Expr} {written : Option TypeId}
    {value : TypeId} {s t : State} {target' : Expr}
    (h : declare target written value s = .ok (target', t)) : Trail current s [] t := by
  obtain ⟨name, noted, line, type, -, -, -, -, -, rfl⟩ := declare_eq_ok h
  exact .single (.names _)

theorem trail_acceptReturned {value : Expr} {type : TypeId} {s t : State}
    (h : acceptReturned c value type s = .ok t) : Trail c.current s [] t := by
  unfold acceptReturned at h
  split at h
  · cases h
    exact .nil s
  · split at h
    · cases h
    · rename_i filled
      split at h
      · rename_i infers
        cases h
        exact .single (.decision type filled infers)
      · obtain ⟨-, -, h⟩ := bind_eq_ok.1 h
        cases h
        exact .nil s

theorem traced_checkAssign (declares : Bool) (target : Expr) (written : Option TypeId)
    (value : Expr) (line : Nat) (s : State) :
    Traced c s (fun c => checkAssign c declares target written value line s)
      (checkAssign c declares target written value line s).state := by
  have given := traced_visit (c := c) value s
  cases found : (visit c value s).result with
  | error e =>
    simp only [checkAssign, found]
    exact given.lift fun oracle same => by simp only [same, found]
  | ok type =>
    cases declares with
    | true =>
      cases declared : declare target written type (visit c value s).state with
      | error e =>
        simp only [checkAssign, found, if_true, declared]
        exact given.lift fun oracle same => by simp only [same, found, declared]
      | ok pair =>
        simp only [checkAssign, found, if_true, declared]
        exact (given.goOn (trail_declare declared)).lift fun oracle same => by
          simp only [same, found, declared]
    | false =>
      have placed := traced_visit (c := c) target (visit c value s).state
      simp only [checkAssign, found, Bool.false_eq_true, if_false]
      refine (given.andThen placed).lift fun oracle same => ?_
      obtain ⟨first, second⟩ := Prod.mk.inj same
      simp only [first, found, second]

theorem traced_checkReturn (value : Expr) (line : Nat) (s : State) :
    Traced c s (fun c => checkReturn c value line s) (checkReturn c value line s).state := by
  have given := traced_visit (c := c) value s
  have accept (oracle : FunctionId → State → State) (e : Expr) (type : TypeId) (t : State) :
      acceptReturned (c.asking oracle) e type t = acceptReturned c e type t := rfl
  cases found : (visit c value s).result.bind fun type =>
      acceptReturned c (visit c value s).expr type (visit c value s).state with
  | error e =>
    simp only [checkReturn, found]
    exact given.lift fun oracle same => by simp only [same, accept, found]
  | ok t =>
    obtain ⟨type, -, accepted⟩ := bind_eq_ok.1 found
    simp only [checkReturn, found]
    exact (given.goOn (trail_acceptReturned accepted)).lift fun oracle same => by
      simp only [same, accept, found]

theorem traced_checkCall (callee : Expr) (arguments : List Expr) (target : Option FunctionId)
    (injected : Bool) (line : Nat) (s : State) :
    Traced c s (fun c => checkCall c callee arguments target injected line s)
      (checkCall c callee arguments target injected line s).state := by
  have called := traced_visit (c := c) (.call callee arguments target injected line) s
  have state : (checkCall c callee arguments target injected line s).state =
      (visit c (.call callee arguments target injected line) s).state := by
    unfold checkCall
    dsimp only
    split <;> rfl
  rw [state]
  exact called.lift fun oracle same => by simp only [checkCall, same]

theorem traced_checkedNext {v : Checked} (statement : Statement)
    (check : Context → State → Checked)
    (h : ∀ s, Traced c s (fun c => check c s) (check c s).state) :
    Traced c v.state (fun c => v.next statement (check c)) (v.next statement (check c)).state := by
  unfold Checked.next
  split
  · exact h _
  · exact .pure (.nil _) fun _ => rfl

theorem traced_inScope {check : Context → State → Checked}
    (h : ∀ s, Traced c s (fun c => check c s) (check c s).state) (s : State) :
    Traced c s (fun c => Checked.inScope (check c) s) (Checked.inScope (check c) s).state :=
  (((h (s.openScope [])).after (trail_openScope s [])).goOn (trail_closeScope _)).lift
    fun _ same => congrArg Checked.close same

theorem traced_conditional {test : Expr} {s : State} {body : Statement}
    (h : ∀ s, Traced c s (fun c => check c body s) (check c body s).state) :
    let t := visitCondition c test s
    Traced c s
      (fun c' => (visit c' test s,
        (Checked.mk body t.2.1 t.2.2).next body (Checked.inScope (check c' body))))
      ((Checked.mk body t.2.1 t.2.2).next body (Checked.inScope (check c body))).state :=
  (traced_visit test s).andThen <| traced_checkedNext (v := ⟨body, _, _⟩) body
    (fun c => Checked.inScope (check c body)) fun t => traced_inScope h t

mutual

theorem traced_check (statement : Statement) (s : State) :
    Traced c s (fun c => check c statement s) (check c statement s).state := by
  cases statement with
  | block statements line =>
    have inside := traced_checkAll statements (s.openScope [])
    refine ((inside.after (trail_openScope s [])).goOn (trail_closeScope _)).lift
      fun oracle same => ?_
    rw [check, check, same]
  | assign declares target written value line =>
    exact traced_checkAssign declares target written value line s
  | ret value line => exact traced_checkReturn value line s
  | ifThen test body line =>
    refine (traced_conditional fun t => traced_check body t).lift fun oracle same => ?_
    obtain ⟨first, second⟩ := Prod.mk.inj same
    simp only [check, visitCondition, first]
    simp only [visitCondition] at second
    rw [second]
  | ifElse test body otherwise line =>
    refine ((traced_conditional fun t => traced_check body t).andThen
      (traced_checkedNext otherwise (fun c => Checked.inScope (check c otherwise))
        fun t => traced_inScope (fun t => traced_check otherwise t) t)).lift fun oracle same => ?_
    obtain ⟨both, third⟩ := Prod.mk.inj same
    obtain ⟨first, second⟩ := Prod.mk.inj both
    simp only [check, visitCondition, first]
    simp only [visitCondition] at second third
    rw [second, third]
  | whileLoop test body line =>
    refine (traced_conditional fun t => traced_check body t).lift fun oracle same => ?_
    obtain ⟨first, second⟩ := Prod.mk.inj same
    simp only [check, visitCondition, first]
    simp only [visitCondition] at second
    rw [second]
  | forLoop first test step body line =>
    have begins := (traced_check first (s.openScope [])).after (trail_openScope s [])
    have round (v : Checked) :=
      ((traced_checkedNext (c := c) (v := v) step (fun c => check c step)
        fun t => traced_check step t).andThen
      (traced_checkedNext body (fun c => Checked.inScope (check c body))
        fun t => traced_inScope (fun t => traced_check body t) t)).goOn (trail_closeScope _)
    cases found : (check c first (s.openScope [])).result with
    | ok =>
      have tested := traced_visit (c := c) test (check c first (s.openScope [])).state
      have all := (begins.andThen tested).andThen
        (round ⟨step, _, (visitCondition c test (check c first (s.openScope [])).state).2.2⟩)
      simp only [check, found]
      refine all.lift fun oracle same => ?_
      obtain ⟨both, more⟩ := Prod.mk.inj same
      obtain ⟨first, second⟩ := Prod.mk.inj both
      obtain ⟨third, fourth⟩ := Prod.mk.inj more
      simp only [visitCondition] at third fourth
      simp only [visitCondition, first, found, second, third, fourth]
    | error e =>
      have all := begins.andThen (round ⟨step, (check c first (s.openScope [])).state, .error e⟩)
      simp only [check, found]
      refine all.lift fun oracle same => ?_
      obtain ⟨first, more⟩ := Prod.mk.inj same
      obtain ⟨second, third⟩ := Prod.mk.inj more
      simp only [first, found, second, third]
  | call callee arguments target injected line =>
    exact traced_checkCall callee arguments target injected line s
termination_by structural statement

theorem traced_checkAll (statements : List Statement) (s : State) :
    Traced c s (fun c => checkAll c statements s) (checkAll c statements s).2 := by
  cases statements with
  | nil => exact .pure (.nil s) fun _ => rfl
  | cons statement rest =>
    have first := traced_check statement s
    cases found : (check c statement s).result with
    | ok =>
      have others := traced_checkAll rest (check c statement s).state
      simp only [checkAll, found]
      refine (first.andThen others).lift fun oracle same => ?_
      obtain ⟨same, more⟩ := Prod.mk.inj same
      simp only [same, found, more]
    | error e =>
      have others := traced_checkAll rest ((check c statement s).state.record statement.line e)
      simp only [checkAll, found]
      refine ((first.goOn (.single (.error _ _))).andThen others).lift fun oracle same => ?_
      obtain ⟨same, more⟩ := Prod.mk.inj same
      simp only [same, found, more]
termination_by structural statements

end

end Statements

end ObjectLang.Typing
