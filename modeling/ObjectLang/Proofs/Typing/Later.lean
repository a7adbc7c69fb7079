import ObjectLang.Proofs.Typing.Rule
import ObjectLang.Typing.Function
set_option autoImplicit false

/-!
# What checking does to its state

Whatever is checked, and whether it has errors or not: types are only added, functions that are
known as checked stay so, a function changes only while it is entered, and its return type is
decided at most once. Recorded errors stay recorded. Visiting an expression changes no scopes and
no function that is known as checked before.
-/

namespace ObjectLang.Typing

def State.Clean (s : State) : Prop := s.diagnostics.hasError = false

/-- What may happen to a function while it is checked: an open return type is decided, and the
    body is replaced. -/
def Decides (f g : Function) : Prop :=
  g.declared = f.declared ∧ (g.returnType = f.returnType ∨ infersReturnType f = true)

theorem Decides.trans {f g h : Function} (hg : Decides f g) (hh : Decides g h) :
    Decides f h := by
  refine ⟨hh.1.trans hg.1, ?_⟩
  rcases hg.2 with same | infers
  · rcases hh.2 with same' | infers
    · exact .inl (same'.trans same)
    · have traits : g.traits = f.traits := by
        have both := congrArg Function.traits hg.1
        exact both
      rw [infersReturnType, traits, same] at infers
      exact .inr infers
  · exact .inr infers

/-- How the state goes on. Of the functions that are checked before, only those in `O` change;
    these are the ones that are not left yet. -/
structure Later (O : FunctionId → Prop) (s t : State) : Prop where
  evolves : s.program.Evolves t.program
  checked : s.checked <:+ t.checked
  settled : ∀ id ∈ s.checked, t.program.function id = s.program.function id ∨
    O id ∧ Decides (s.program.function id) (t.program.function id)
  untouched : ∀ id, id ∉ t.checked → t.program.function id = s.program.function id
  clean : t.Clean → s.Clean

structure Keeps (s t : State) : Prop extends Later (fun _ => False) s t where
  scopes : t.scopes = s.scopes

namespace Later

variable {O : FunctionId → Prop} {s t u : State}

theorem refl (O : FunctionId → Prop) (s : State) : Later O s s :=
  ⟨.refl _, List.suffix_refl _, fun _ _ => .inl rfl, fun _ _ => rfl, id⟩

theorem trans (h : Later O s t) (h' : Later O t u) : Later O s u where
  evolves := h.evolves.trans h'.evolves
  checked := h.checked.trans h'.checked
  settled id hid := by
    rcases h'.settled id (h.checked.subset hid) with hu | ⟨ho, hu⟩
    · rw [hu]
      exact h.settled id hid
    · rcases h.settled id hid with ht | ⟨-, ht⟩
      · exact .inr ⟨ho, ht ▸ hu⟩
      · exact .inr ⟨ho, ht.trans hu⟩
  untouched id hid :=
    (h'.untouched id hid).trans (h.untouched id fun ht => hid (h'.checked.subset ht))
  clean hu := h.clean (h'.clean hu)

theorem mono {O' : FunctionId → Prop} (h : Later O s t) (hO : ∀ id, O id → O' id) :
    Later O' s t :=
  { h with
    settled := fun id hid =>
      (h.settled id hid).imp (fun same => same) fun decided => ⟨hO id decided.1, decided.2⟩ }

theorem append {O' : FunctionId → Prop} (h : Later O s t) (h' : Later O' t u) :
    Later (fun id => O id ∨ O' id) s u :=
  (h.mono fun _ => .inl).trans (h'.mono fun _ => .inr)

theorem mem (h : Later O s t) {id : FunctionId} (hid : id ∈ s.checked) : id ∈ t.checked :=
  h.checked.subset hid

theorem of_types (h : s.program.types.Widens t.program.types)
    (hf : t.program.functions = s.program.functions) (hchecked : t.checked = s.checked)
    (hclean : t.Clean → s.Clean) : Later O s t := by
  have same (id : FunctionId) : t.program.function id = s.program.function id := by
    rw [Program.function, hf, Program.function]
  refine ⟨⟨h.grows, h.members, congrArg Arena.size hf, ?_⟩, ?_, ?_, ?_, hclean⟩
  · intro id
    rw [same id]
  · exact hchecked.symm ▸ List.suffix_refl _
  · intro id _
    exact .inl (same id)
  · intro id _
    exact same id

end Later

namespace Keeps

variable {s t u : State}

theorem refl (s : State) : Keeps s s := ⟨.refl _ s, rfl⟩

theorem trans (h : Keeps s t) (h' : Keeps t u) : Keeps s u :=
  ⟨h.toLater.trans h'.toLater, h'.scopes.trans h.scopes⟩

theorem later (h : Keeps s t) (O : FunctionId → Prop) : Later O s t := h.toLater.mono nofun

theorem function_eq (h : Keeps s t) {id : FunctionId} (hid : id ∈ s.checked) :
    t.program.function id = s.program.function id := by
  rcases h.settled id hid with same | ⟨no, -⟩
  · exact same
  · exact absurd no not_false

end Keeps

section Expressions

variable {c : Context} {n m : Nat}

def Resolved.state : Resolved n → State
  | .bound _ _ _ _ state _ => state
  | .failed _ _ _ state _ => state

theorem keeps_next {s : State} {v : Visited n} (h : Keeps s v.state) {e : Expr}
    {visit : State → Visited e.weight} (hv : ∀ t, Keeps t (visit t).state) :
    Keeps s (v.next visit).state := by
  unfold Visited.next
  split
  · exact h.trans (hv _)
  · exact h

theorem keeps_arrayType (element : TypeId) (s : State) (checked : Except TypeError Unit) :
    Keeps s (arrayType element s checked).1 := by
  unfold arrayType
  split
  · exact ⟨.of_types (.arrayOf _ _) rfl rfl id, rfl⟩
  · exact .refl s

theorem keeps_referenceType (place : Visited n) :
    Keeps place.state (referenceType place).1 := by
  unfold referenceType
  split
  · exact ⟨.of_types (.referenceTo _ _) rfl rfl id, rfl⟩
  · exact .refl _

theorem state_visitVar (name : String) (noted : Option TypeId) (line : Nat) (s : State) :
    (visitVar name noted line s).state = s := by
  unfold visitVar
  dsimp only
  split <;> rfl

theorem state_bindMethod (base : Visited n) (name : String) (noted : Option TypeId) (line : Nat)
    (arguments : List Expr) (injected : Bool) (le : Expr.weights arguments ≤ m) :
    (bindMethod base name noted line arguments injected le).state = base.state := by
  unfold bindMethod
  dsimp only
  split
  · rfl
  · split <;> rfl

def Context.Keeping (c : Context) : Prop := ∀ target s, Keeps s (c.checkTarget target s)

mutual

theorem keeps_visit (hc : c.Keeping) (e : Expr) (s : State) : Keeps s (visit c e s).state := by
  match e with
  | .binary op lhs rhs line =>
    rw [visit]
    exact keeps_next (keeps_visit hc lhs s) fun t => keeps_visit hc rhs t
  | .literal value line =>
    rw [visit]
    exact .refl s
  | .var name noted line =>
    rw [visit, state_visitVar]
    exact .refl s
  | .field base name noted line =>
    rw [visit]
    exact keeps_visit hc base s
  | .new type line =>
    rw [visit]
    exact .refl s
  | .allocate element size line =>
    rw [visit]
    exact (keeps_visit hc size s).trans (keeps_arrayType element _ _)
  | .array element items line =>
    rw [visit]
    exact (keeps_visitAll hc _ items s).trans (keeps_arrayType element _ _)
  | .index array index line =>
    rw [visit]
    have harray : Keeps s ((visit c array s).judge elementType).state := keeps_visit hc array s
    exact keeps_next harray fun t => keeps_visit hc index t
  | .reference expr line =>
    rw [visit]
    split
    · exact (keeps_visit hc expr s).trans (keeps_referenceType _)
    · exact .refl s
  | .cast expr type line =>
    rw [visit]
    exact keeps_visit hc expr s
  | .call callee arguments (some target) injected line =>
    rw [visit]
    exact (hc target s).trans (keeps_visitAll hc _ arguments _)
  | .call callee arguments none injected line =>
    have hresolve := keeps_resolve hc callee arguments injected s
    rw [visit]
    split
    · rename_i heq
      rw [heq] at hresolve
      exact hresolve
    · rename_i target callee' bound injected' t le heq
      rw [heq] at hresolve
      exact (hresolve.trans (hc target t)).trans (keeps_visitAll hc _ bound _)
termination_by 2 * e.weight
decreasing_by all_goals simp only [Expr.weight]; omega

theorem keeps_visitAll (hc : c.Keeping) (accept : Program → TypeId → Except TypeError Unit)
    (es : List Expr) (s : State) : Keeps s (visitAll c accept es s).state := by
  match es with
  | [] =>
    rw [visitAll]
    exact .refl s
  | e :: rest =>
    have _ := e.weight_pos
    rw [visitAll]
    dsimp only
    split
    · exact keeps_visit hc e s
    · exact (keeps_visit hc e s).trans (keeps_visitAll hc accept rest _)
termination_by 2 * Expr.weights es + 1
decreasing_by all_goals simp only [Expr.weights]; omega

theorem keeps_resolve (hc : c.Keeping) (callee : Expr) (arguments : List Expr)
    (injected : Bool) (s : State) : Keeps s (resolve c callee arguments injected s).state := by
  match callee with
  | .var name noted line =>
    have harguments := keeps_visitAll hc (fun _ _ => .ok ()) arguments s
    rw [resolve]
    split
    · exact harguments
    · exact harguments
  | .field base name noted line =>
    rw [resolve]
    split
    · split
      · exact .refl s
      · exact .refl s
    · have hbind := state_bindMethod (visit c base s) name noted line arguments injected
        (Nat.le_refl _)
      exact hbind.symm ▸ keeps_visit hc base s
  | .binary .. | .literal .. | .new .. | .allocate .. | .array .. | .index .. | .reference ..
  | .cast .. | .call .. =>
    unfold resolve
    exact .refl s
termination_by 2 * (callee.weight + Expr.weights arguments) + 1
decreasing_by all_goals simp only [Expr.weight]; omega

end

theorem keeps_of_visitAll (hc : c.Keeping) (accept : Program → TypeId → Except TypeError Unit)
    (e : Expr) (rest : List Expr) (s : State) :
    Keeps (visit c e s).state (visitAll c accept (e :: rest) s).state := by
  rw [visitAll]
  dsimp only
  split
  · exact .refl _
  · exact keeps_visitAll hc accept rest _

end Expressions

theorem Clean.of_record {s : State} {line : Nat} {e : TypeError} : ¬(s.record line e).Clean := by
  intro h
  have hany : (s.diagnostics.entries.push
      ⟨.error, s.diagnostics.file, line, e.message⟩).any Diagnostics.isError = false := h
  rw [Array.any_push] at hany
  simp [Diagnostics.isError] at hany

theorem later_record (O : FunctionId → Prop) (s : State) (line : Nat) (e : TypeError) :
    Later O s (s.record line e) :=
  .of_types (.refl _) rfl rfl fun h => absurd h Clean.of_record

theorem later_scopes (O : FunctionId → Prop) (s : State) (scopes : Scopes Meaning) :
    Later O s { s with scopes } := .of_types (.refl _) rfl rfl id

section Statements

variable {c : Context} {s : State}

theorem later_declare {O : FunctionId → Prop} {target : Expr} {written : Option TypeId}
    {value : TypeId} {t : State} {target' : Expr}
    (h : declare target written value s = .ok (target', t)) : Later O s t := by
  unfold declare at h
  split at h
  · obtain ⟨-, -, h⟩ := bind_eq_ok.1 h
    obtain ⟨-, -, h⟩ := bind_eq_ok.1 h
    obtain ⟨type, -, h⟩ := bind_eq_ok.1 h
    cases h
    exact later_scopes O s _
  · cases h

theorem later_modifyFunction {id : FunctionId} (checked : id ∈ s.checked)
    (change : Function → Function) (same : ∀ f, (change f).declared = f.declared)
    (decides : Decides (s.program.function id) (change (s.program.function id))) :
    Later (· = id) s { s with program := s.program.modifyFunction id change } := by
  refine ⟨.modifyFunction _ _ same, List.suffix_refl _, ?_, ?_, fun h => h⟩
  · intro other _
    by_cases same : other = id
    · subst same
      by_cases declares : s.program.Declares other
      · refine .inr ⟨rfl, ?_⟩
        dsimp only
        rw [Program.function_modifyFunction _ _ declares, if_pos rfl]
        exact decides
      · left
        dsimp only
        rw [Program.modifyFunction_of_not_declares declares]
    · exact .inl (s.program.functions.get_modify_of_ne same _)
  · intro other hother
    have ne : other ≠ id := fun same => hother (same ▸ checked)
    exact s.program.functions.get_modify_of_ne ne _

theorem later_acceptReturned {value : Expr} {type : TypeId} {t : State}
    (current : c.current ∈ s.checked) (h : acceptReturned c value type s = .ok t) :
    Later (· = c.current) s t := by
  unfold acceptReturned at h
  split at h
  · cases h
    exact .refl _ s
  · split at h
    · cases h
    · split at h
      · rename_i infers
        cases h
        exact later_modifyFunction current _ (fun _ => rfl) ⟨rfl, .inr infers⟩
      · obtain ⟨-, -, h⟩ := bind_eq_ok.1 h
        cases h
        exact .refl _ s

theorem later_of_checkAssign (hc : c.Keeping) (O : FunctionId → Prop) (declares : Bool)
    (target : Expr) (written : Option TypeId) (value : Expr) (line : Nat) (s : State) :
    Later O (visit c value s).state (checkAssign c declares target written value line s).state := by
  unfold checkAssign
  dsimp only
  split
  · exact .refl _ _
  · split
    · split
      · exact .refl _ _
      · rename_i h
        exact later_declare h
    · exact (keeps_visit hc target _).later O

theorem later_checkAssign (hc : c.Keeping) (O : FunctionId → Prop) (declares : Bool)
    (target : Expr) (written : Option TypeId) (value : Expr) (line : Nat) (s : State) :
    Later O s (checkAssign c declares target written value line s).state :=
  ((keeps_visit hc value s).later O).trans
    (later_of_checkAssign hc O declares target written value line s)

theorem later_of_checkReturn {value : Expr} (line : Nat)
    (current : c.current ∈ (visit c value s).state.checked) :
    Later (· = c.current) (visit c value s).state (checkReturn c value line s).state := by
  unfold checkReturn
  dsimp only
  split
  · rename_i t h
    obtain ⟨type, -, h⟩ := bind_eq_ok.1 h
    exact later_acceptReturned current h
  · exact .refl _ _

theorem later_checkReturn (hc : c.Keeping) (current : c.current ∈ s.checked) (value : Expr)
    (line : Nat) : Later (· = c.current) s (checkReturn c value line s).state := by
  have visited := (keeps_visit hc value s).later (· = c.current)
  exact visited.trans (later_of_checkReturn line (visited.mem current))

theorem later_visitCondition (hc : c.Keeping) (O : FunctionId → Prop) (condition : Expr)
    (s : State) : Later O s (visitCondition c condition s).2.1 :=
  (keeps_visit hc condition s).later O

theorem later_checkCall (hc : c.Keeping) (O : FunctionId → Prop) (callee : Expr)
    (arguments : List Expr) (target : Option FunctionId) (injected : Bool) (line : Nat)
    (s : State) : Later O s (checkCall c callee arguments target injected line s).state := by
  have hcall := (keeps_visit hc (.call callee arguments target injected line) s).later O
  unfold checkCall
  dsimp only
  split
  · exact hcall
  · exact hcall

theorem later_next {O : FunctionId → Prop} {v : Checked} (h : Later O s v.state)
    (statement : Statement) {check : State → Checked}
    (hcheck : ∀ t, s.checked <:+ t.checked → Later O t (check t).state) :
    Later O s (v.next statement check).state := by
  unfold Checked.next
  split
  · exact h.trans (hcheck _ h.checked)
  · exact h

theorem later_inScope {O : FunctionId → Prop} {check : State → Checked}
    (hcheck : Later O (s.openScope []) (check (s.openScope [])).state) :
    Later O s (Checked.inScope check s).state :=
  ((later_scopes O s _).trans hcheck).trans (later_scopes O _ _)

theorem later_loop {step body : Statement} {condition : Expr × State × Except TypeError Unit}
    (h : Later (· = c.current) s condition.2.1) (current : c.current ∈ s.checked)
    (hstep : ∀ t, c.current ∈ t.checked → Later (· = c.current) t (check c step t).state)
    (hbody : ∀ t, c.current ∈ t.checked → Later (· = c.current) t (check c body t).state) :
    let p := (Checked.mk step condition.2.1 condition.2.2).next step (check c step)
    let b := p.next body (Checked.inScope (check c body))
    Later (· = c.current) s b.state.closeScope := by
  intro p b
  have stepped : Later (· = c.current) s p.state :=
    later_next h step fun t ht => hstep t (ht.subset current)
  have looped : Later (· = c.current) s b.state :=
    later_next stepped body fun t ht => later_inScope (hbody _ (ht.subset current))
  exact looped.trans (later_scopes _ _ _)

mutual

theorem later_check (hc : c.Keeping) (statement : Statement) {s : State}
    (current : c.current ∈ s.checked) :
    Later (· = c.current) s (check c statement s).state := by
  cases statement with
  | block statements line =>
    have inside := later_checkAll hc statements (s := s.openScope []) current
    exact ((later_scopes _ s _).trans inside).trans (later_scopes _ _ _)
  | assign declares target written value line =>
    exact later_checkAssign hc _ declares target written value line s
  | ret value line => exact later_checkReturn hc current value line
  | ifThen condition body line =>
    refine later_next (later_visitCondition hc _ condition s) body fun t ht => ?_
    exact later_inScope (later_check hc body (ht.subset current))
  | ifElse condition body otherwise line =>
    refine later_next (later_next (later_visitCondition hc _ condition s) body fun t ht => ?_)
      otherwise fun t ht => ?_
    · exact later_inScope (later_check hc body (ht.subset current))
    · exact later_inScope (later_check hc otherwise (ht.subset current))
  | whileLoop condition body line =>
    refine later_next (later_visitCondition hc _ condition s) body fun t ht => ?_
    exact later_inScope (later_check hc body (ht.subset current))
  | forLoop first condition step body line =>
    have hfirst := (later_scopes _ s _).trans
      (later_check hc first (s := s.openScope []) current)
    rw [check]
    refine later_loop ?_ current (fun t ht => later_check hc step ht)
      fun t ht => later_check hc body ht
    split
    · exact hfirst.trans (later_visitCondition hc _ condition _)
    · exact hfirst
  | call callee arguments target injected line =>
    exact later_checkCall hc _ callee arguments target injected line s
termination_by structural statement

theorem later_checkAll (hc : c.Keeping) (statements : List Statement) {s : State}
    (current : c.current ∈ s.checked) :
    Later (· = c.current) s (checkAll c statements s).2 := by
  cases statements with
  | nil => exact .refl _ s
  | cons statement rest =>
    have hstatement := later_check hc statement current
    unfold checkAll
    dsimp only
    split
    · exact hstatement.trans (later_checkAll hc rest (hstatement.mem current))
    · rename_i e _
      have hrecorded := hstatement.trans (later_record _ _ statement.line e)
      exact hrecorded.trans (later_checkAll hc rest (hrecorded.mem current))
termination_by structural statements

end

theorem later_of_check_forLoop (hc : c.Keeping) (first : Statement) (condition : Expr)
    (step body : Statement) (line : Nat) (current : c.current ∈ s.checked) :
    Later (· = c.current) (check c first (s.openScope [])).state
      (check c (.forLoop first condition step body line) s).state := by
  have entered := (later_check hc first (s := s.openScope []) current).mem current
  rw [check]
  refine later_loop ?_ entered (fun t ht => later_check hc step ht)
    fun t ht => later_check hc body ht
  split
  · exact later_visitCondition hc _ condition _
  · exact .refl _ _

theorem later_of_checkAll (hc : c.Keeping) (statement : Statement) (rest : List Statement)
    (current : c.current ∈ s.checked) : Later (· = c.current) (check c statement s).state
      (checkAll c (statement :: rest) s).2 := by
  have entered := (later_check hc statement current).mem current
  rw [checkAll]
  dsimp only
  split
  · exact later_checkAll hc rest entered
  · rename_i e _
    have recorded := later_record (· = c.current) (check c statement s).state statement.line e
    exact recorded.trans (later_checkAll hc rest (recorded.mem entered))

/-- A statement that is refused leaves an error behind. -/
theorem checkAll_unclean (hc : c.Keeping) {statement : Statement} (rest : List Statement)
    (current : c.current ∈ s.checked)
    (refused : (∃ fault, (check c statement s).result = .error fault) ∨
      ¬(check c statement s).state.Clean) :
    ¬(checkAll c (statement :: rest) s).2.Clean := by
  intro clean
  rcases refused with ⟨fault, result⟩ | unclean
  · have entered := (later_check hc statement current).mem current
    rw [checkAll, result] at clean
    have recorded := later_record (· = c.current) (check c statement s).state statement.line fault
    exact Clean.of_record ((later_checkAll hc rest (recorded.mem entered)).clean clean)
  · exact unclean ((later_of_checkAll hc statement rest current).clean clean)

theorem scopes_acceptReturned {value : Expr} {type : TypeId} {t : State}
    (accepted : acceptReturned c value type s = .ok t) : t.scopes = s.scopes := by
  unfold acceptReturned at accepted
  split at accepted
  · cases accepted
    rfl
  · split at accepted
    · cases accepted
    · split at accepted
      · cases accepted
        rfl
      · obtain ⟨⟨⟩, -, accepted⟩ := bind_eq_ok.1 accepted
        cases accepted
        rfl

theorem scopes_checkReturn (hc : c.Keeping) (value : Expr) (line : Nat) :
    (checkReturn c value line s).state.scopes = s.scopes := by
  have visited := (keeps_visit hc value s).scopes
  unfold checkReturn
  dsimp only
  split
  · rename_i t accepted
    obtain ⟨type, -, accepted⟩ := bind_eq_ok.1 accepted
    exact (scopes_acceptReturned accepted).trans visited
  · exact visited

theorem checkAll_cons {statement : Statement} (rest : List Statement)
    (ok : (check c statement s).result = .ok ()) :
    checkAll c (statement :: rest) s =
      ((check c statement s).statement :: (checkAll c rest (check c statement s).state).1,
        (checkAll c rest (check c statement s).state).2) := by
  rw [checkAll, ok]

theorem ok_of_clean (hc : c.Keeping) {statement : Statement} {rest : List Statement}
    (current : c.current ∈ s.checked) (clean : (checkAll c (statement :: rest) s).2.Clean) :
    (check c statement s).result = .ok () ∧ (check c statement s).state.Clean := by
  constructor
  · cases result : (check c statement s).result with
    | ok => rfl
    | error fault => exact absurd clean (checkAll_unclean hc rest current (.inl ⟨fault, result⟩))
  · exact (later_of_checkAll hc statement rest current).clean clean

end Statements

/-- Leaving a function changes its body, and nothing else that is known before it is entered. -/
theorem keeps_leave {s t : State} {id : FunctionId} {m : Module} (fresh : id ∉ s.checked)
    (h : Later (· = id) ((s.markChecked id).enter m (s.program.function id)) t)
    (body : List Statement) : Keeps s (t.leave (s.markChecked id) id body) := by
  have entered : id ∈ t.checked := h.mem List.mem_cons_self
  have other {f : FunctionId} (ne : f ≠ id) :
      (t.leave (s.markChecked id) id body).program.function f = t.program.function f :=
    t.program.functions.get_modify_of_ne ne _
  refine ⟨⟨h.evolves.trans (.modifyFunction _ _ fun _ => rfl), ?_, ?_, ?_, h.clean⟩, rfl⟩
  · exact (List.suffix_cons _ _).trans h.checked
  · intro f hf
    have ne : f ≠ id := fun same => fresh (same ▸ hf)
    rw [other ne]
    rcases h.settled f (List.mem_cons_of_mem _ hf) with same | ⟨same, -⟩
    · exact .inl same
    · exact absurd same ne
  · intro f hf
    have ne : f ≠ id := fun same => hf (same ▸ entered)
    exact (other ne).trans (h.untouched f hf)

theorem keeps_checkBody {c : Context} (hc : c.Keeping) (m : Module) {s : State}
    (fresh : c.current ∉ s.checked) : Keeps s (checkBody c m (s.markChecked c.current)) :=
  keeps_leave fresh (later_checkAll hc (s.program.function c.current).body
    (s := (s.markChecked c.current).enter m (s.program.function c.current)) List.mem_cons_self) _

theorem keeps_markChecked (s : State) (id : FunctionId) : Keeps s (s.markChecked id) :=
  ⟨⟨.refl _, List.suffix_cons _ _, fun _ _ => .inl rfl, fun _ _ => rfl, fun h => h⟩, rfl⟩

theorem keeps_checkWithin (modules : List Module) (depth : Nat) (id : FunctionId) (s : State) :
    Keeps s (checkWithin modules depth id s) := by
  induction depth generalizing id s with
  | zero => exact .refl s
  | succ depth ih =>
    unfold checkWithin
    split
    · exact .refl s
    · rename_i fresh
      have fresh : id ∉ s.checked := by simpa [State.isChecked] using fresh
      dsimp only
      split
      · exact keeps_markChecked s id
      · split
        · exact keeps_markChecked s id
        · rename_i m _
          exact keeps_checkBody (c := ⟨modules, id, checkWithin modules depth⟩) ih m fresh

theorem keeps_checkFunction (modules : List Module) (id : FunctionId) (s : State) :
    Keeps s (checkFunction modules id s) :=
  keeps_checkWithin modules _ id s

theorem keeps_foldl {α : Type} {step : State → α → State} (h : ∀ s a, Keeps s (step s a))
    (as : List α) (s : State) : Keeps s (as.foldl step s) := by
  induction as generalizing s with
  | nil => exact .refl s
  | cons a rest ih => exact (h s a).trans (ih _)

theorem keeps_checkModule (modules : List Module) (index : Nat) (s : State) :
    Keeps s (checkModule modules index s) := by
  unfold checkModule
  split
  · exact .refl s
  · exact keeps_foldl (fun s id => keeps_checkFunction modules id s) _ s

end ObjectLang.Typing
