import ObjectLang.Grammar.File
import ObjectLang.Proofs.Typing.Tally
import ObjectLang.Token.Lexed
set_option autoImplicit false

/-!
# Faults are attributed to their functions

A list of statements is checked inside the lists that are being walked, and a function in the middle
of a visit, so the books are handed on through checks nested in each other. What a check finds of its
own are faults of the current function. Behind the body of a function these have become the faults of
one that was not checked before, which carries the induction on the depth of nested checks.
-/

namespace ObjectLang.Typing

def Books.within (b : Books) (place : Nat) : Books :=
  { b with walk := ⟨⟨place, []⟩ :: b.walk.frames⟩ }

theorem Tallies.of_within {modules : List Module} {O : FunctionId → Prop} {own : Fault → Prop}
    {s t : State} {b b' : Books} {place : Nat}
    (h : Tallies modules O own s (b.within place) t b') :
    ∃ b₁, b' = b₁.within place ∧ Tallies modules O own s b t b₁ := by
  refine ⟨{ b' with walk := b.walk }, ?_, ⟨h.later, h.file, h.stack, rfl, h.faults⟩⟩
  have walk : b'.walk = (b.within place).walk := h.walk
  rw [Books.within]
  dsimp only
  exact congrArg (fun walk => { b' with walk := walk }) walk

/-- The fault was found in the current function, in one of these statements. -/
def Context.Owns (c : Context) (among : List Statement) (x : Fault) : Prop :=
  x.function = c.current ∧ x.statement ∈ among

structure Desk.Works (d : Desk) (c : Context) (s : State) (b : Books) : Prop where
  current : b.current? = some c.current
  entered : c.current ∈ s.checked
  file : s.diagnostics.file = fileOf d.modules s.program c.current

section Statements

variable {d : Desk} {c : Context} {s t : State} {b b' : Books} {among : List Statement}

theorem Desk.Works.after {O : FunctionId → Prop} {own : Fault → Prop} (works : d.Works c s b)
    (h : Tallies d.modules O own s b t b') : d.Works c t b' where
  current := h.current.trans works.current
  entered := h.later.mem works.entered
  file := by rw [h.file, works.file, fileOf_evolves d.modules h.later.evolves]

theorem Desk.Works.openScope (works : d.Works c s b) (seed : List (String × Meaning)) :
    d.Works c (s.openScope seed) b :=
  ⟨works.current, works.entered, works.file⟩

theorem Desk.Works.within (works : d.Works c s b) (place : Nat) : d.Works c s (b.within place) :=
  ⟨works.current, works.entered, works.file⟩

/-- A check with books follows the one without, and of its own it finds faults in some statements. -/
abbrev ChecksAlike {α : Type} (d : Desk) (c : Context) (among : List Statement) (s : State)
    (b : Books) (x : α × Books) (y : α) (t : State) : Prop :=
  Follows d.modules (· = c.current) (c.Owns among) s b x y t

theorem ChecksAlike.mono {α : Type} {x : α × Books} {y : α} (h : ChecksAlike d c among s b x y t)
    {more : List Statement} (sub : among ⊆ more) : ChecksAlike d c more s b x y t := by
  obtain ⟨b', same, tallies⟩ := h
  exact ⟨b', same, tallies.mono (fun _ => id) fun _ own => ⟨own.1, sub own.2⟩⟩

theorem tallies_note {statement : Statement} (works : d.Works c s b) (mem : statement ∈ among)
    (e : TypeError) :
    Tallies d.modules (· = c.current) (c.Owns among) s b (s.record statement.line e)
      (b.note statement e) where
  later := later_record _ s statement.line e
  file := rfl
  stack := rfl
  walk := rfl
  faults := by
    refine ⟨[⟨c.current, statement, e⟩], ?_, ?_, fun x hx => ?_⟩
    · rw [Books.note, works.current]
      rfl
    · have recorded : (s.record statement.line e).diagnostics.entries =
          s.diagnostics.entries.push
            ⟨.error, s.diagnostics.file, statement.line, e.message⟩ := rfl
      rw [recorded, Array.toList_push, works.file]
      rfl
    · rw [List.mem_singleton.1 hx]
      exact .inl ⟨rfl, mem⟩

theorem checks_checkAssign (hd : d.Serves c) (works : d.Works c s b) (declares : Bool)
    (target : Expr) (written : Option TypeId) (value : Expr) (line : Nat) :
    ChecksAlike d c among s b (Booked.checkAssign d declares target written value line s b)
      (checkAssign c declares target written value line s)
      (checkAssign c declares target written value line s).state := by
  obtain ⟨b₁, given, h₁⟩ := visits_visit hd value s works.current
  cases found : (visit c value s).result with
  | error e =>
    simp only [Booked.checkAssign, checkAssign, given, found]
    exact ⟨b₁, rfl, .of_restores h₁⟩
  | ok type =>
    cases declares with
    | true =>
      cases declared : declare target written type (visit c value s).state with
      | error e =>
        simp only [Booked.checkAssign, checkAssign, given, found, if_true, declared]
        exact ⟨b₁, rfl, .of_restores h₁⟩
      | ok pair =>
        simp only [Booked.checkAssign, checkAssign, given, found, if_true, declared]
        exact ⟨b₁, rfl, (Tallies.of_restores h₁).trans
          (.of_later (later_declare declared) (diagnostics_declare declared))⟩
    | false =>
      obtain ⟨b₂, placed, h₂⟩ := visits_visit hd target (visit c value s).state
        (h₁.current.trans works.current)
      simp only [Booked.checkAssign, checkAssign, given, found, Bool.false_eq_true, if_false, placed]
      exact ⟨b₂, rfl, .of_restores (h₁.trans h₂)⟩

theorem acceptReturned_eq (current : b.current? = some c.current) (value : Expr) (type : TypeId)
    (s : State) : Booked.acceptReturned d b value type s = acceptReturned c value type s := by
  rw [Booked.acceptReturned, current]
  rfl

theorem checks_checkReturn (hd : d.Serves c) (works : d.Works c s b) (value : Expr) (line : Nat) :
    ChecksAlike d c among s b (Booked.checkReturn d value line s b) (checkReturn c value line s)
      (checkReturn c value line s).state := by
  obtain ⟨b₁, given, h₁⟩ := visits_visit hd value s works.current
  have current := h₁.current.trans works.current
  have entered := h₁.later.mem works.entered
  cases found : (visit c value s).result.bind fun type =>
      acceptReturned c (visit c value s).expr type (visit c value s).state with
  | error e =>
    simp only [Booked.checkReturn, checkReturn, given, acceptReturned_eq current, found]
    exact ⟨b₁, rfl, .of_restores h₁⟩
  | ok t =>
    obtain ⟨type, -, accepted⟩ := bind_eq_ok.1 found
    simp only [Booked.checkReturn, checkReturn, given, acceptReturned_eq current, found]
    exact ⟨b₁, rfl, (Tallies.of_restores h₁).trans
      (.of_later (later_acceptReturned entered accepted) (diagnostics_acceptReturned accepted))⟩

theorem checks_visitCondition (hd : d.Serves c) (works : d.Works c s b) (condition : Expr) :
    ChecksAlike d c among s b (Booked.visitCondition d condition s b) (visitCondition c condition s)
      (visitCondition c condition s).2.1 := by
  obtain ⟨b₁, given, h₁⟩ := visits_visit hd condition s works.current
  simp only [Booked.visitCondition, visitCondition, given]
  exact ⟨b₁, rfl, .of_restores h₁⟩

theorem checks_checkCall (hd : d.Serves c) (works : d.Works c s b) (callee : Expr)
    (arguments : List Expr) (target : Option FunctionId) (injected : Bool) (line : Nat) :
    ChecksAlike d c among s b (Booked.checkCall d callee arguments target injected line s b)
      (checkCall c callee arguments target injected line s)
      (checkCall c callee arguments target injected line s).state := by
  obtain ⟨b₁, given, h₁⟩ := visits_visit hd (.call callee arguments target injected line) s
    works.current
  have state : (checkCall c callee arguments target injected line s).state =
      (visit c (.call callee arguments target injected line) s).state := by
    unfold checkCall
    dsimp only
    split <;> rfl
  refine ⟨b₁, ?_, state.symm ▸ .of_restores h₁⟩
  rw [Booked.checkCall, given]
  rfl

theorem checks_next {v : Checked} (statement : Statement)
    {booked : State → Books → Checked × Books} {check : State → Checked}
    (h : ChecksAlike d c among v.state b (booked v.state b) (check v.state) (check v.state).state) :
    ChecksAlike d c among v.state b (Booked.nextChecked (v, b) statement booked)
      (v.next statement check) (v.next statement check).state := by
  cases result : v.result with
  | ok =>
    simp only [Booked.nextChecked, Checked.next, result]
    exact h
  | error e =>
    simp only [Booked.nextChecked, Checked.next, result]
    exact ⟨b, rfl, .refl _ b⟩

theorem tallies_scopes {O : FunctionId → Prop} {own : Fault → Prop} (modules : List Module)
    (s : State) (b : Books) (scopes : Scopes Meaning) :
    Tallies modules O own s b { s with scopes } b :=
  .of_later (later_scopes O s scopes) rfl

theorem checks_inScope {booked : State → Books → Checked × Books} {check : State → Checked}
    (h : ChecksAlike d c among (s.openScope []) b (booked (s.openScope []) b)
      (check (s.openScope [])) (check (s.openScope [])).state) :
    ChecksAlike d c among s b (Booked.inScope booked s b) (Checked.inScope check s)
      (Checked.inScope check s).state := by
  obtain ⟨b₁, inside, h₁⟩ := h
  refine ⟨b₁, ?_, ?_⟩
  · rw [Booked.inScope, inside]
    rfl
  · exact ((tallies_scopes _ s b _).trans h₁).trans (tallies_scopes _ _ _ _)

theorem checks_round (v : Checked) (step body : Statement) (works : d.Works c v.state b)
    (hstep : ∀ {t : State} {b : Books}, d.Works c t b →
      ChecksAlike d c among t b (Booked.check d step t b) (check c step t) (check c step t).state)
    (hbody : ∀ {t : State} {b : Books}, d.Works c t b →
      ChecksAlike d c among t b (Booked.check d body t b) (check c body t) (check c body t).state) :
    let stepped := v.next step (check c step)
    let repeated := stepped.next body (Checked.inScope (check c body))
    ∃ b₁ b₂, Booked.nextChecked (v, b) step (Booked.check d step) = (stepped, b₁) ∧
      Booked.nextChecked (stepped, b₁) body (Booked.inScope (Booked.check d body)) =
        (repeated, b₂) ∧
      Tallies d.modules (· = c.current) (c.Owns among) v.state b repeated.state.closeScope b₂ := by
  obtain ⟨b₁, stepped, h₁⟩ := checks_next step (hstep works)
  obtain ⟨b₂, repeated, h₂⟩ := checks_next body
    (checks_inScope (hbody ((works.after h₁).openScope [])))
  exact ⟨b₁, b₂, stepped, repeated, (h₁.trans h₂).trans (tallies_scopes _ _ _ _)⟩

/-- The error of a member of a list is recorded before the next member is checked. -/
theorem checks_settle {statement : Statement} (place : Nat) (rest : List Statement)
    (works : d.Works c (check c statement s).state b) (mem : statement ∈ among) :
    ∃ t b', Booked.settle statement (check c statement s, b.within place) = (t, b'.within place) ∧
      Tallies d.modules (· = c.current) (c.Owns among) (check c statement s).state b t b' ∧
      checkAll c (statement :: rest) s =
        ((check c statement s).statement :: (checkAll c rest t).1, (checkAll c rest t).2) := by
  cases result : (check c statement s).result with
  | ok =>
    refine ⟨_, b, ?_, .refl _ b, checkAll_cons rest result⟩
    rw [Booked.settle, result]
  | error e =>
    refine ⟨_, b.note statement e, ?_, tallies_note works mem e, ?_⟩
    · rw [Booked.settle, result]
      rfl
    · rw [checkAll, result]

mutual

theorem checks_check (hd : d.Serves c) (statement : Statement) {s : State} {b : Books}
    (works : d.Works c s b) :
    ChecksAlike d c statement.listed s b (Booked.check d statement s b) (check c statement s)
      (check c statement s).state := by
  cases statement with
  | block statements line =>
    obtain ⟨b₁, place, inside, h₁⟩ := checks_members hd statements 0 0 (works.openScope [])
    refine ⟨b₁, ?_, ?_⟩
    · have entered : ({ b with walk := b.walk.enter } : Books) = b.within 0 := rfl
      rw [Booked.check, entered, inside]
      rfl
    · exact ((tallies_scopes _ s b _).trans h₁).trans (tallies_scopes _ _ _ _)
  | assign declares target written value line =>
    exact checks_checkAssign hd works declares target written value line
  | ret value line => exact checks_checkReturn hd works value line
  | ifThen condition body line =>
    obtain ⟨b₁, tested, h₁⟩ := checks_visitCondition hd works condition
    obtain ⟨b₂, branched, h₂⟩ := checks_next (v := ⟨body, _, (visitCondition c condition s).2.2⟩)
      body (checks_inScope (checks_check hd body ((works.after h₁).openScope [])))
    simp only [Booked.check, check, tested, branched]
    exact ⟨b₂, rfl, h₁.trans h₂⟩
  | ifElse condition body otherwise line =>
    have first : body.listed ⊆ (Statement.ifElse condition body otherwise line).listed :=
      fun _ => List.mem_append_left _
    have second : otherwise.listed ⊆ (Statement.ifElse condition body otherwise line).listed :=
      fun _ => List.mem_append_right _
    obtain ⟨b₁, tested, h₁⟩ := checks_visitCondition hd works condition
    obtain ⟨b₂, branched, h₂⟩ := checks_next (v := ⟨body, _, (visitCondition c condition s).2.2⟩)
      body (checks_inScope ((checks_check hd body ((works.after h₁).openScope [])).mono first))
    obtain ⟨b₃, otherwised, h₃⟩ := checks_next otherwise (checks_inScope
      ((checks_check hd otherwise (((works.after h₁).after h₂).openScope [])).mono second))
    simp only [Booked.check, check, tested, branched, otherwised]
    exact ⟨b₃, rfl, (h₁.trans h₂).trans h₃⟩
  | whileLoop condition body line =>
    obtain ⟨b₁, tested, h₁⟩ := checks_visitCondition hd works condition
    obtain ⟨b₂, branched, h₂⟩ := checks_next (v := ⟨body, _, (visitCondition c condition s).2.2⟩)
      body (checks_inScope (checks_check hd body ((works.after h₁).openScope [])))
    simp only [Booked.check, check, tested, branched]
    exact ⟨b₂, rfl, h₁.trans h₂⟩
  | forLoop first condition step body line =>
    let listed := (Statement.forLoop first condition step body line).listed
    have inFirst : first.listed ⊆ listed := fun _ h =>
      List.mem_append_left _ (List.mem_append_left _ h)
    have inStep : step.listed ⊆ listed := fun _ h =>
      List.mem_append_left _ (List.mem_append_right _ h)
    have inBody : body.listed ⊆ listed := fun _ => List.mem_append_right _
    have round (v : Checked) {b : Books} (works : d.Works c v.state b) :=
      checks_round v step body works (fun works => (checks_check hd step works).mono inStep)
        (fun works => (checks_check hd body works).mono inBody)
    obtain ⟨b₁, begun, h₁⟩ := (checks_check hd first (works.openScope [])).mono inFirst
    have start := (tallies_scopes d.modules s b _).trans h₁
    cases found : (check c first (s.openScope [])).result with
    | ok =>
      obtain ⟨b₂, tested, h₂⟩ := checks_visitCondition hd (works.after start) condition
      obtain ⟨b₃, b₄, stepped, repeated, h₃⟩ := round
        ⟨step, _, (visitCondition c condition (check c first (s.openScope [])).state).2.2⟩
        ((works.after start).after h₂)
      simp only [Booked.check, check, begun, found, tested, stepped, repeated]
      exact ⟨b₄, rfl, (start.trans h₂).trans h₃⟩
    | error e =>
      obtain ⟨b₃, b₄, stepped, repeated, h₃⟩ := round
        ⟨step, (check c first (s.openScope [])).state, .error e⟩ (works.after start)
      simp only [Booked.check, check, begun, found, stepped, repeated]
      exact ⟨b₄, rfl, start.trans h₃⟩
  | call callee arguments target injected line =>
    exact checks_checkCall hd works callee arguments target injected line
termination_by structural statement

/-- Nothing is queued by any check, so each member comes to stand at its place. -/
theorem checks_members (hd : d.Serves c) (statements : List Statement) (before place : Nat)
    {s : State} {b : Books} (works : d.Works c s b) :
    ∃ b' behind, Booked.members d statements place s (b.within before) =
        ((checkAll c statements s).1, (checkAll c statements s).2, b'.within behind) ∧
      Tallies d.modules (· = c.current) (c.Owns (Statement.allListed statements)) s b
        (checkAll c statements s).2 b' := by
  cases statements with
  | nil => exact ⟨b, before, rfl, .refl s b⟩
  | cons statement rest =>
    have inFirst : statement.listed ⊆ Statement.allListed (statement :: rest) := fun _ h =>
      List.mem_cons_of_mem _ (List.mem_append_left _ h)
    have inRest : Statement.allListed rest ⊆ Statement.allListed (statement :: rest) := fun _ h =>
      List.mem_cons_of_mem _ (List.mem_append_right _ h)
    obtain ⟨_, checked, h₀⟩ := (checks_check hd statement (works.within place)).mono inFirst
    obtain ⟨b₁, rfl, h₁⟩ := h₀.of_within
    obtain ⟨t, b₂, settled, h₂, all⟩ := checks_settle place rest (works.after h₁)
      (List.mem_cons_self : statement ∈ Statement.allListed (statement :: rest))
    obtain ⟨b₃, behind, others, h₃⟩ := checks_members hd rest place (place + 1)
      ((works.after h₁).after h₂)
    refine ⟨b₃, behind, ?_, ?_⟩
    · have moved : ({ b.within before with walk := (b.within before).walk.moveTo place } : Books) =
          b.within place := rfl
      rw [Booked.members, moved]
      simp only [checked, settled, all]
      have queued : (b₂.within place).walk.takeQueued = ([], (b₂.within place).walk) := rfl
      simp only [queued, List.length_nil, Nat.add_zero, others, List.nil_append]
    · rw [all]
      exact (h₁.trans h₂).trans (h₃.mono (fun _ => id) fun x own => ⟨own.1, inRest own.2⟩)
termination_by structural statements

end

theorem checks_checkAll (hd : d.Serves c) (statements : List Statement) (works : d.Works c s b) :
    ∃ b', Booked.checkAll d statements s b =
        ((checkAll c statements s).1, (checkAll c statements s).2, b') ∧
      Tallies d.modules (· = c.current) (c.Owns (Statement.allListed statements)) s b
        (checkAll c statements s).2 b' := by
  obtain ⟨b₁, behind, walked, h₁⟩ := checks_members hd statements 0 0 works
  refine ⟨b₁, ?_, h₁⟩
  have entered : ({ b with walk := b.walk.enter } : Books) = b.within 0 := rfl
  rw [Booked.checkAll, entered, walked]
  rfl

end Statements

section Functions

variable {d : Desk} {c : Context} {s : State} {b : Books} {m : Module}

/-- In its body a function finds its own faults, and behind it these are the faults of a function that
    was not checked before. -/
theorem visits_checkBody (hd : d.Serves c) (keeping : c.Keeping) (fresh : c.current ∉ s.checked)
    (found : d.modules[(s.program.function c.current).module]? = some m) :
    VisitsAlike d s b (Booked.checkBody d c.current m (s.markChecked c.current) b)
      (checkBody c m (s.markChecked c.current)) (checkBody c m (s.markChecked c.current)) := by
  let f := s.program.function c.current
  let t := (s.markChecked c.current).enter m f
  have works : d.Works c t (b.push c.current) :=
    ⟨rfl, List.mem_cons_self, by
      have file : fileOf d.modules s.program c.current = m.file := by rw [fileOf, found]; rfl
      exact file.symm⟩
  obtain ⟨b₁, checked, h₁⟩ := checks_checkAll hd f.body works
  refine ⟨b₁.pop, ?_, ?_⟩
  · exact congrArg (fun r => (r.2.1.leave (s.markChecked c.current) c.current r.1, r.2.2.pop))
      checked
  · obtain ⟨xs, added, recorded, placed⟩ := h₁.faults
    refine ⟨(keeps_checkBody keeping m fresh).toLater, rfl, ?_, h₁.walk, xs, added, recorded, ?_⟩
    · exact congrArg List.tail h₁.stack
    · intro x hx
      refine .inr ?_
      rcases placed x hx with ⟨same, listed⟩ | place
      · exact ⟨same ▸ fresh, ⟨m, same ▸ found⟩, same ▸ listed⟩
      · exact ⟨fun old => place.fresh (List.mem_cons_of_mem _ old), place.module, place.listed⟩

end Functions

theorem visits_checkWithin (modules : List Module) (depth : Nat) (id : FunctionId) (s : State)
    (b : Books) :
    Follows modules (fun _ => False) (fun _ => False) s b
      (Booked.checkWithin modules depth id s b) (checkWithin modules depth id s)
      (checkWithin modules depth id s) := by
  induction depth generalizing id s b with
  | zero => exact ⟨b, rfl, .refl s b⟩
  | succ depth ih =>
    have marked : Restores modules s b (s.markChecked id) b :=
      .of_later (keeps_markChecked s id).toLater rfl
    by_cases checked : s.isChecked id = true
    · rw [Booked.checkWithin, checkWithin, if_pos checked, if_pos checked]
      exact ⟨b, rfl, .refl s b⟩
    rw [Booked.checkWithin, checkWithin, if_neg checked, if_neg checked]
    have fresh : id ∉ s.checked := by simpa [State.isChecked] using checked
    dsimp only
    by_cases native : ((s.markChecked id).program.function id).isNative = true
    · rw [if_pos native, if_pos native]
      exact ⟨b, rfl, marked⟩
    rw [if_neg native, if_neg native]
    cases found : modules[((s.markChecked id).program.function id).module]? with
    | none => exact ⟨b, rfl, marked⟩
    | some m =>
      have serves : Desk.Serves ⟨modules, Booked.checkWithin modules depth⟩
          ⟨modules, id, checkWithin modules depth⟩ := ⟨rfl, ih⟩
      -- Held against the goal before its arguments are known, the lemma would unfold the checkers.
      have body := visits_checkBody (b := b) serves (keeps_checkWithin modules depth) fresh found
      exact body

theorem visits_checkFunctions (modules : List Module) (ids : List FunctionId) (s : State)
    (b : Books) :
    let t := ids.foldl (fun s id => checkFunction modules id s) s
    Follows modules (fun _ => False) (fun _ => False) s b
      (ids.foldl (fun x id => Booked.checkFunction modules id x.1 x.2) (s, b)) t t := by
  induction ids generalizing s b with
  | nil => exact ⟨b, rfl, .refl s b⟩
  | cons id rest ih =>
    obtain ⟨b₁, first, h₁⟩ := visits_checkWithin modules (s.program.functions.size + 1) id s b
    obtain ⟨b₂, others, h₂⟩ := ih (checkFunction modules id s) b₁
    refine ⟨b₂, ?_, h₁.trans h₂⟩
    have one : Booked.checkFunction modules id s b = (checkFunction modules id s, b₁) := first
    simp only [List.foldl_cons, one, others]

/-- Functions are checked in any order, alone or in the middle of the check of another one. Checking
    them leaves the scopes, the current file and the books as they were, but for the faults that were
    found; so what is left of the caller is checked in the context in which it was entered. Each
    fault lies in the body of its function, and is recorded in the file of the module whose number
    the function carries. -/
theorem checks_attributed {modules : List Module}
    (indexed : ∀ (i : Nat) (m : Module), modules[i]? = some m → m.index = i)
    (ids : List FunctionId) (s : State) (b : Books) :
    let t := ids.foldl (fun s id => checkFunction modules id s) s
    ∃ faults, let b' : Books := { b with faults := b.faults ++ faults }
      ids.foldl (fun x id => Booked.checkFunction modules id x.1 x.2) (s, b) = (t, b') ∧
      t.scopes = s.scopes ∧ t.diagnostics.file = s.diagnostics.file ∧
      t.diagnostics.entries.toList = s.diagnostics.entries.toList ++
        faults.map (Fault.entry modules s.program) ∧
      (∀ x ∈ faults,
        x.statement ∈ Statement.allListed (s.program.function x.function).body ∧
        ∃ m ∈ modules, m.index = (s.program.function x.function).module ∧
          (x.entry modules s.program).file = m.file) ∧
      ∀ depth current rest u,
        let d : Desk := { modules, checkTarget := Booked.checkWithin modules depth }
        let c : Context := { modules, current, checkTarget := checkWithin modules depth }
        d.Works c u b → ∃ more, Booked.checkAll d rest u b' =
          ((checkAll c rest u).1, (checkAll c rest u).2,
            { b with faults := b.faults ++ faults ++ more }) := by
  intro t
  obtain ⟨b', same, tallies⟩ := visits_checkFunctions modules ids s b
  obtain ⟨faults, added, recorded, placed⟩ := tallies.faults
  have books : b' = { b with faults := b.faults ++ faults } := by
    obtain ⟨stack, walk, _⟩ := b'
    cases tallies.stack
    cases tallies.walk
    cases added
    rfl
  have scopes : t.scopes = s.scopes :=
    (keeps_foldl (fun s id => keeps_checkFunction modules id s) ids s).scopes
  refine ⟨faults, same.trans (congrArg _ books), scopes, tallies.file, recorded, ?_, ?_⟩
  · intro x hx
    obtain ⟨_, ⟨m, found⟩, listed⟩ := (placed x hx).resolve_left id
    refine ⟨listed, m, List.mem_of_getElem? found, indexed _ m found, ?_⟩
    rw [Fault.entry, fileOf, found]
    rfl
  · intro depth current rest u d c works
    have serves : d.Serves c := ⟨rfl, visits_checkWithin modules depth⟩
    have works : d.Works c u { b with faults := b.faults ++ faults } :=
      ⟨works.current, works.entered, works.file⟩
    obtain ⟨b₁, checked, h₁⟩ := checks_checkAll serves rest works
    obtain ⟨more, added, -⟩ := h₁.faults
    refine ⟨more, checked.trans ?_⟩
    obtain ⟨stack, walk, _⟩ := b₁
    cases h₁.stack
    cases h₁.walk
    cases added
    rfl

/-- A function of one file is checked in the middle of a statement of another one. -/
theorem checks_attributed_elsewhere :
    let file (path text : String) : Cursor := .ofTokens path (Lexed.ofText path text).tokens
    let a := Grammar.readFile [] "a" (file "a.kv" "fn f() -> Int { ret y; }") {} {}
    let r := Grammar.readFile [a.module] "b" (file "b.kv" "let z = f() + x;") a.program a.diagnostics
    let modules := [a.module, r.module]
    let s : State := { program := r.program, diagnostics := r.diagnostics }
    let t := checkFunction modules ⟨2⟩ s
    t.diagnostics.entries.toList = [⟨.error, "a.kv", 1, "variable not declared y"⟩,
        ⟨.error, "b.kv", 1, "variable not declared x"⟩] ∧
      ∃ faults, Booked.checkFunction modules ⟨2⟩ s {} = (t, { faults }) ∧
        faults.map Fault.function = [⟨1⟩, ⟨2⟩] ∧
        ∀ x ∈ faults, x.statement ∈ Statement.allListed (s.program.function x.function).body ∧
          ∃ m ∈ modules, m.index = (s.program.function x.function).module ∧
            (x.entry modules s.program).file = m.file := by
  intro file a r modules s t
  have indexed : ∀ (i : Nat) (m : Module), modules[i]? = some m → m.index = i := by
    have numbers : a.module.index = 0 ∧ r.module.index = 1 := by decide +kernel
    intro i m h
    match i with
    | 0 => cases h; exact numbers.1
    | 1 => cases h; exact numbers.2
    | i + 2 => cases h
  have facts : t.diagnostics.entries.toList = [⟨.error, "a.kv", 1, "variable not declared y"⟩,
        ⟨.error, "b.kv", 1, "variable not declared x"⟩] ∧
      (Booked.checkFunction modules ⟨2⟩ s {}).2.faults.map Fault.function = [⟨1⟩, ⟨2⟩] := by
    decide +kernel
  obtain ⟨faults, same, -, -, -, placed, -⟩ := checks_attributed indexed [⟨2⟩] s {}
  have checked : Booked.checkFunction modules ⟨2⟩ s {} = (t, { faults }) := same
  refine ⟨facts.1, faults, checked, ?_, placed⟩
  rw [← facts.2, checked]

end ObjectLang.Typing
