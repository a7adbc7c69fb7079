import ObjectLang.Proofs.Typing.Expression
set_option autoImplicit false

/-!
# Checked statements are typed

A statement that is checked without an error is typed where it stands, in all later states. The
segments that it opens are closed behind it, so that only declarations change what is visible.
-/

namespace ObjectLang

theorem Scopes.closeSegment_push {α : Type} (s : Scopes α) (name : String) (value : α) :
    (s.push name value).closeSegment = s.closeSegment := by
  obtain ⟨bindings, counts⟩ := s
  cases counts with
  | nil => rfl
  | cons count outer => rfl

namespace Typing

section Judgements

variable {p : Program} {returns : FunctionId → TypeId → Prop} {current : FunctionId}

theorem Checks.closeSegment {Γ Γ' : Scopes Meaning} {statement : Statement}
    (h : Checks p returns current Γ statement Γ') : Γ'.closeSegment = Γ.closeSegment := by
  cases h with
  | declare name => exact Scopes.closeSegment_push _ _ _
  | _ => rfl

theorem ChecksAll.closeSegment {statements : List Statement} {Γ Γ' : Scopes Meaning}
    (h : ChecksAll p returns current Γ statements Γ') : Γ'.closeSegment = Γ.closeSegment := by
  induction statements generalizing Γ with
  | nil =>
    cases h
    rfl
  | cons statement rest ih =>
    cases h with
    | cons _ Δ _ _ _ head tail => exact (ih tail).trans head.closeSegment

theorem Checks.eq_of_not_declares {Γ Γ' : Scopes Meaning} {statement : Statement}
    (h : Checks p returns current Γ statement Γ') (quiet : statement.declares = false) :
    Γ' = Γ := by
  cases h with
  | declare => cases quiet
  | _ => rfl

end Judgements

theorem declares_check (c : Context) (statement : Statement) (s : State) :
    (check c statement s).statement.declares = statement.declares := by
  cases statement with
  | assign declares target written value line =>
    rw [check, checkAssign]
    dsimp only
    split
    · rfl
    · split
      · split <;> simp_all [Statement.declares]
      · rfl
  | ret value line =>
    rw [check, checkReturn]
    split <;> rfl
  | call callee arguments target injected line =>
    rw [check, checkCall]
    split <;> rfl
  | _ => rfl

theorem statement_checkReturn {c : Context} {s : State} (value : Expr) (line : Nat) :
    (checkReturn c value line s).statement = .ret (visit c value s).expr line := by
  unfold checkReturn
  dsimp only
  split <;> rfl

variable {modules : List Module} {depth : Nat} {c : Context} {s t : State}

theorem Valid.scopes (h : Valid modules depth s) (scopes : Scopes Meaning) :
    Valid modules depth { s with scopes } :=
  ⟨h.tables, h.visible, h.read, h.bodies, h.distinct, h.declared, h.room⟩

theorem Advances.scopes (h : Valid modules depth s) (entered : c.current ∈ s.checked)
    (scopes : Scopes Meaning) : Advances modules depth (· = c.current) s { s with scopes } :=
  ⟨later_scopes _ s scopes, h.scopes scopes, fun _ same => same ▸ entered,
    fun _ hid hno => absurd hid hno⟩

theorem Valid.modifyFunction (h : Valid modules depth s) {id : FunctionId}
    (entered : id ∈ s.checked) (change : Function → Function)
    (same : ∀ f, (change f).declared = f.declared)
    (signed : (change (s.program.function id)).Signed s.program) :
    Valid modules depth { s with program := s.program.modifyFunction id change } := by
  have declares := h.declared id entered
  have evolves := Program.Evolves.modifyFunction s.program id same
  have size := Program.size_modifyFunction s.program id change
  refine ⟨h.tables.of_signatures rfl evolves.extension ?_,
    fun m hm => (h.visible m hm).mono evolves.extension, ?_, ?_, h.distinct, ?_, ?_⟩
  · intro f
    rw [Program.function_modifyFunction _ _ declares]
    split
    · exact signed.mono evolves.extension
    · exact (h.tables.signatures f).mono evolves.extension
  · intro f hf
    dsimp only at hf ⊢
    rw [evolves.module_eq]
    rw [Program.Declares, size] at hf
    exact h.read f hf
  · intro f hf
    have ne : f ≠ id := fun he => hf (he ▸ entered)
    dsimp only
    rw [Program.function_modifyFunction _ _ declares, if_neg ne]
    exact Statement.formedAll_mono evolves.extension _ (h.bodies f hf)
  · exact fun f hf => evolves.extension.declares (h.declared f hf)
  · dsimp only
    rw [size]
    exact h.room

structure Passed (modules : List Module) (depth : Nat) (c : Context) (s : State) (v : Checked) :
    Prop where
  advances : Advances modules depth (· = c.current) s v.state
  known : KnownScopes v.state.program v.state.scopes
  checks : ∀ O u, Later O v.state u →
    Checks u.program (Accounts u) c.current s.scopes v.statement v.state.scopes

structure Branched (modules : List Module) (depth : Nat) (c : Context) (s : State) (v : Checked) :
    Prop where
  advances : Advances modules depth (· = c.current) s v.state
  scopes : v.state.scopes = s.scopes
  checks : ∀ O u, Later O v.state u →
    ∃ Δ, Checks u.program (Accounts u) c.current (s.scopes.openSegment []) v.statement Δ

structure PassedAll (modules : List Module) (depth : Nat) (c : Context) (s : State)
    (v : List Statement × State) : Prop where
  advances : Advances modules depth (· = c.current) s v.2
  checks : ∀ O u, Later O v.2 u →
    ChecksAll u.program (Accounts u) c.current s.scopes v.1 v.2.scopes

theorem Passed.ready {v : Checked} (h : Passed modules depth c s v) :
    Ready modules depth v.state :=
  ⟨h.advances.valid, h.known⟩

theorem PassedAll.closeSegment {v : List Statement × State} (h : PassedAll modules depth c s v) :
    v.2.scopes.closeSegment = s.scopes.closeSegment :=
  (h.checks (fun _ => False) v.2 (.refl _ _)).closeSegment

theorem Passed.closeSegment {v : Checked} (h : Passed modules depth c s v) :
    v.state.scopes.closeSegment = s.scopes.closeSegment :=
  (h.checks (fun _ => False) v.state (.refl _ _)).closeSegment

theorem Branched.ready {v : Checked} (h : Branched modules depth c s v)
    (ready : Ready modules depth s) : Ready modules depth v.state :=
  ready.later h.advances.toLater h.scopes h.advances.valid

theorem Ready.openScope (h : Ready modules depth s) : Ready modules depth (s.openScope []) :=
  ⟨h.valid.scopes _, h.known⟩

theorem Typed.inside {n : Nat} {v : Visited n} {type : TypeId}
    (h : Typed modules depth s v type) (entered : c.current ∈ s.checked) :
    Advances modules depth (· = c.current) s v.state :=
  h.advances.mono (fun _ no => no.elim) fun _ same => same ▸ entered

theorem declare_eq_ok {target target' : Expr} {written : Option TypeId} {value : TypeId}
    (h : declare target written value s = .ok (target', t)) :
    ∃ name noted line type, target = .var name noted line ∧
      s.scopes.isDeclaredLocal name = false ∧ value ≠ .void ∧
      declaredType s.program value written = .ok type ∧ target' = .var name (some type) line ∧
      t = { s with scopes := s.scopes.push name (.value type) } := by
  unfold declare at h
  split at h
  · rename_i name noted line
    obtain ⟨⟨⟩, fresh, h⟩ := bind_eq_ok.1 h
    obtain ⟨⟨⟩, filled, h⟩ := bind_eq_ok.1 h
    obtain ⟨type, rule, h⟩ := bind_eq_ok.1 h
    cases h
    refine ⟨name, noted, line, type, rfl, ?_, ?_, rule, rfl, rfl⟩
    · simpa using ensure_eq_ok.1 fresh
    · simpa using ensure_eq_ok.1 filled
  · cases h

theorem knows_declaredType {p : Program} {value type : TypeId} {written : Option TypeId}
    (hv : p.types.Knows value) (hw : ∀ t ∈ written, p.types.Knows t)
    (rule : declaredType p value written = .ok type) : p.types.Knows type := by
  rcases declaredType_eq_ok.1 rule with ⟨-, rfl⟩ | ⟨rfl, -, -⟩
  · exact hv
  · exact hw type rfl

theorem KnownScopes.push {p : Program} {Γ : Scopes Meaning} (h : KnownScopes p Γ) (name : String)
    {type : TypeId} (known : p.types.Knows type) : KnownScopes p (Γ.push name (.value type)) := by
  intro other t hother
  by_cases same : other = name
  · subst same
    rw [Scopes.get?_push_self] at hother
    cases hother
    exact known
  · rw [Scopes.get?_push_of_ne _ same] at hother
    exact h other t hother

theorem checkAssign_typed (hc : c.Sound modules depth) {declares : Bool} {target value : Expr}
    {written : Option TypeId} {line : Nat}
    (formed : (Statement.assign declares target written value line).Formed s.program)
    (ready : Ready modules depth s) (entered : c.current ∈ s.checked)
    (ok : (checkAssign c declares target written value line s).result = .ok ())
    (clean : (checkAssign c declares target written value line s).state.Clean) :
    Passed modules depth c s (checkAssign c declares target written value line s) := by
  obtain ⟨htarget, hwritten, hvalue⟩ := formed
  have scopes := (keeps_visit hc.keeping value s).scopes
  unfold checkAssign at ok clean ⊢
  dsimp only at ok clean ⊢
  split at ok <;> rename_i result
  · cases ok
  · rename_i found
    rw [result] at clean
    dsimp only at clean
    cases declares with
    | true =>
      rw [if_pos rfl] at ok clean ⊢
      split at ok <;> rename_i declared
      · cases ok
      · rename_i target' t
        rw [declared] at clean
        dsimp only at clean
        have later : Later (fun _ => False) _ t := later_declare declared
        have typed := visit_typed hc value s hvalue ready found result (later.clean clean)
        have known := typed.knows ready
        obtain ⟨name, noted, nameLine, type, rfl, fresh, filled, rule, rfl, rfl⟩ :=
          declare_eq_ok declared
        have hwritten' : ∀ t ∈ written, (visit c value s).state.program.types.Knows t :=
          fun t ht => typed.advances.evolves.types.knows (hwritten t ht)
        refine ⟨?_, ?_, fun O u hu => ?_⟩
        · exact (typed.inside entered).trans
            (.scopes typed.advances.valid (typed.advances.mem entered) _)
        · refine KnownScopes.push ?_ name (knows_declaredType known hwritten' rule)
          rw [scopes]
          exact ready.known.evolves typed.advances.evolves
        · have hu := (later_scopes O (visit c value s).state _).trans hu
          dsimp only
          rw [scopes] at fresh ⊢
          exact .declare s.scopes name written _ nameLine line found type (typed.types.accounts hu)
            fresh filled (fun t ht => hu.evolves.types.knows (hwritten' t ht))
            (declaredType_evolves hu.evolves known hwritten' rule)
    | false =>
      rw [if_neg Bool.false_ne_true] at ok clean ⊢
      dsimp only at ok clean ⊢
      obtain ⟨type, okt, rule⟩ := bind_eq_ok.1 ok
      have keeps := keeps_visit hc.keeping target (visit c value s).state
      have typed := visit_typed hc value s hvalue ready found result (keeps.clean clean)
      have ready' := ready.keeps (keeps_visit hc.keeping value s) typed.advances.valid
      have place := visit_typed hc target _
        (target.formed_mono typed.advances.evolves.extension htarget) ready' type okt clean
      have scopes' := keeps.scopes.trans scopes
      have knownValue := keeps.evolves.types.knows (typed.knows ready)
      have knownTarget := place.knows ready'
      have places := place.types
      rw [scopes] at places
      refine ⟨?_, ?_, fun O u hu => ?_⟩
      · exact (typed.inside entered).trans
          (place.inside (typed.advances.mem entered))
      · rw [scopes']
        exact ready.known.evolves (typed.advances.evolves.trans place.advances.evolves)
      · dsimp only
        rw [scopes']
        exact .assign s.scopes _ written _ line found type
          ((typed.types.keeps keeps).accounts hu) (places.accounts hu)
          (checkAssigned_evolves hu.evolves knownValue knownTarget rule)

/-- A function whose return type is decided keeps it. -/
theorem returnType_of_later {O : FunctionId → Prop} (h : Later O s t) {id : FunctionId}
    (entered : id ∈ s.checked) (decided : infersReturnType (s.program.function id) = false) :
    infersReturnType (t.program.function id) = false ∧
      (t.program.function id).returnType = (s.program.function id).returnType := by
  have same : (t.program.function id).returnType = (s.program.function id).returnType := by
    rcases h.settled id entered with same | ⟨-, -, same | infers⟩
    · rw [same]
    · exact same
    · rw [decided] at infers
      cases infers
  refine ⟨?_, same⟩
  rw [infersReturnType, h.evolves.traits_eq, same]
  exact decided

theorem acceptReturned_typed {value : Expr} {type : TypeId} (valid : Valid modules depth s)
    (entered : c.current ∈ s.checked) (known : s.program.types.Knows type)
    (ok : acceptReturned c value type s = .ok t) :
    Advances modules depth (· = c.current) s t ∧ t.scopes = s.scopes ∧
      ∀ O u, Later O t u → Returnable u.program c.current value type := by
  have entered' : ∀ id, id = c.current → id ∈ s.checked := fun _ same => same ▸ entered
  unfold acceptReturned at ok
  split at ok
  · rename_i call
    cases ok
    exact ⟨.refl valid entered', rfl, fun _ _ _ => .inl call⟩
  · split at ok
    · cases ok
    · rename_i filled
      split at ok
      · rename_i infers
        cases ok
        have signed := valid.tables.signatures c.current
        have declares := valid.declared c.current entered
        have valid' := valid.modifyFunction entered ({ · with returnType := type })
          (fun _ => rfl) ⟨signed.parameters, known⟩
        have function_eq := Program.function_modifyFunction s.program
          ({ · with returnType := type }) declares c.current
        rw [if_pos rfl] at function_eq
        have later := later_modifyFunction entered ({ · with returnType := type })
          (fun _ => rfl) ⟨rfl, .inr infers⟩
        refine ⟨⟨later, valid', entered', fun _ hid hno => absurd hid hno⟩, rfl,
          fun O u hu => .inr ⟨filled, ?_⟩⟩
        have decided : infersReturnType
            ((s.program.modifyFunction c.current ({ · with returnType := type })).function
              c.current) = false := by
          rw [function_eq, infersReturnType]
          simp [filled]
        obtain ⟨decided', same⟩ := returnType_of_later hu entered decided
        refine ⟨decided', checkReturned_eq_ok.2 ?_⟩
        rw [same, function_eq]
        exact Registry.equals_refl _ _
      · rename_i decided
        obtain ⟨⟨⟩, rule, same⟩ := bind_eq_ok.1 ok
        cases same
        refine ⟨.refl valid entered', rfl, fun O u hu => .inr ⟨filled, ?_⟩⟩
        obtain ⟨decided', same⟩ := returnType_of_later hu entered (Bool.not_eq_true _ ▸ decided)
        refine ⟨decided', checkReturned_eq_ok.2 ?_⟩
        rw [same, hu.evolves.types.equals_eq known (valid.tables.signatures c.current).returnType]
        exact checkReturned_eq_ok.1 rule

theorem checkReturn_typed (hc : c.Sound modules depth) {value : Expr} {line : Nat}
    (formed : value.Formed s.program) (ready : Ready modules depth s)
    (entered : c.current ∈ s.checked) (ok : (checkReturn c value line s).result = .ok ())
    (clean : (checkReturn c value line s).state.Clean) :
    Passed modules depth c s (checkReturn c value line s) := by
  have scopes := (keeps_visit hc.keeping value s).scopes
  unfold checkReturn at ok clean ⊢
  dsimp only at ok clean ⊢
  split at ok <;> rename_i accepted
  · rename_i t
    rw [accepted] at clean
    obtain ⟨type, result, accepted⟩ := bind_eq_ok.1 accepted
    have mem := (keeps_visit hc.keeping value s).toLater.mem entered
    have typed := visit_typed hc value s formed ready type result
      ((later_acceptReturned mem accepted).clean clean)
    obtain ⟨advances, same, returnable⟩ := acceptReturned_typed typed.advances.valid mem
      (typed.knows ready) accepted
    have total := (typed.inside entered).trans advances
    refine ⟨total, ?_, fun O u hu => ?_⟩
    · dsimp only
      rw [same, scopes]
      exact ready.known.evolves total.evolves
    · dsimp only
      rw [same, scopes]
      exact .ret s.scopes _ line type (typed.types.accounts (advances.toLater.append hu))
        (returnable O u hu)
  · cases ok

theorem visitCondition_typed (hc : c.Sound modules depth) {condition : Expr}
    (formed : condition.Formed s.program) (ready : Ready modules depth s)
    (entered : c.current ∈ s.checked) (ok : (visitCondition c condition s).2.2 = .ok ())
    (clean : (visitCondition c condition s).2.1.Clean) :
    Advances modules depth (· = c.current) s (visitCondition c condition s).2.1 ∧
      Ready modules depth (visitCondition c condition s).2.1 ∧
      (visitCondition c condition s).2.1.scopes = s.scopes ∧
      ∀ O u, Later O (visitCondition c condition s).2.1 u →
        HasType u.program (Accounts u) s.scopes (visitCondition c condition s).1 .bool := by
  obtain ⟨type, result, rule⟩ := bind_eq_ok.1 ok
  obtain rfl := checkCondition_eq_ok.1 rule
  have typed := visit_typed hc condition s formed ready _ result clean
  have keeps := keeps_visit hc.keeping condition s
  exact ⟨typed.inside entered, ready.keeps keeps typed.advances.valid, keeps.scopes,
    fun O u hu => typed.types.accounts hu⟩

theorem expr_visit_call (callee : Expr) (arguments : List Expr) (target : Option FunctionId)
    (injected : Bool) (line : Nat) :
    ∃ callee' arguments' target' injected',
      (visit c (.call callee arguments target injected line) s).expr =
        .call callee' arguments' target' injected' line := by
  cases target with
  | some target =>
    rw [visit]
    exact ⟨_, _, _, _, rfl⟩
  | none =>
    rw [visit]
    split
    · exact ⟨_, _, _, _, rfl⟩
    · exact ⟨_, _, _, _, rfl⟩

theorem checkCall_typed (hc : c.Sound modules depth) {callee : Expr} {arguments : List Expr}
    {target : Option FunctionId} {injected : Bool} {line : Nat}
    (formed : (Expr.call callee arguments target injected line).Formed s.program)
    (ready : Ready modules depth s) (entered : c.current ∈ s.checked)
    (ok : (checkCall c callee arguments target injected line s).result = .ok ())
    (clean : (checkCall c callee arguments target injected line s).state.Clean) :
    Passed modules depth c s (checkCall c callee arguments target injected line s) := by
  have scopes := (keeps_visit hc.keeping (.call callee arguments target injected line) s).scopes
  unfold checkCall at ok clean ⊢
  dsimp only at ok clean ⊢
  split at ok <;> rename_i shape
  · obtain ⟨type, result, -⟩ := map_eq_ok.1 ok
    rw [shape] at clean
    have typed := visit_typed hc _ s formed ready type result clean
    refine ⟨typed.inside entered, ?_, fun O u hu => ?_⟩
    · dsimp only
      rw [scopes]
      exact ready.known.evolves typed.advances.evolves
    · have called := typed.types.accounts hu
      rw [shape] at called
      dsimp only
      rw [scopes]
      exact .call s.scopes _ _ _ _ _ type called
  · obtain ⟨callee', arguments', target', injected', same⟩ :=
      expr_visit_call callee arguments target injected line (c := c) (s := s)
    exact absurd same (shape callee' arguments' target' injected' line)

theorem Checked.next_ok {v : Checked} {statement : Statement} {check : State → Checked}
    (ok : (v.next statement check).result = .ok ()) :
    v.result = .ok () ∧ v.next statement check = check v.state := by
  unfold Checked.next at ok ⊢
  split at ok
  · rename_i result
    exact ⟨result, rfl⟩
  · cases ok

theorem Passed.inScope {check : State → Checked} (ready : Ready modules depth s)
    (entered : c.current ∈ s.checked)
    (h : Passed modules depth c (s.openScope []) (check (s.openScope []))) :
    Branched modules depth c s (Checked.inScope check s) := by
  have closed := h.closeSegment.trans (Scopes.closeSegment_openSegment s.scopes [])
  have opens := Advances.scopes ready.valid entered (s.scopes.openSegment [])
  have closes := Advances.scopes h.advances.valid (h.advances.mem entered)
    (check (s.openScope [])).state.scopes.closeSegment
  refine ⟨(opens.trans h.advances).trans closes, closed, fun O u hu => ?_⟩
  exact ⟨_, h.checks O u ((later_scopes O _ _).trans hu)⟩

/-- The body of a branch or loop, where the statement `body` is checked as `ih` says. -/
theorem branch_typed {v : Checked} {body : Statement}
    (ih : ∀ t, body.Formed t.program → Ready modules depth t → c.current ∈ t.checked →
      (check c body t).result = .ok () → (check c body t).state.Clean →
        Passed modules depth c t (check c body t))
    (formed : body.Formed v.state.program) (ready : Ready modules depth v.state)
    (entered : c.current ∈ v.state.checked)
    (ok : (v.next body (Checked.inScope (check c body))).result = .ok ())
    (clean : (v.next body (Checked.inScope (check c body))).state.Clean) :
    Branched modules depth c v.state (v.next body (Checked.inScope (check c body))) := by
  obtain ⟨-, same⟩ := Checked.next_ok ok
  rw [same] at ok clean ⊢
  exact Passed.inScope ready entered (ih (v.state.openScope []) formed ready.openScope entered ok clean)

theorem clean_of_branch (hc : c.Keeping) {v : Checked} {body : Statement}
    (entered : c.current ∈ v.state.checked)
    (clean : (v.next body (Checked.inScope (check c body))).state.Clean) : v.state.Clean := by
  have later : Later (· = c.current) v.state _ := later_next (.refl _ v.state) body fun t ht =>
    later_inScope (later_check hc body (ht.subset entered))
  exact later.clean clean

theorem conditional_typed (hc : c.Sound modules depth) {condition : Expr} {body : Statement}
    (ih : ∀ t, body.Formed t.program → Ready modules depth t → c.current ∈ t.checked →
      (check c body t).result = .ok () → (check c body t).state.Clean →
        Passed modules depth c t (check c body t))
    (formed : condition.Formed s.program) (formed' : body.Formed s.program)
    (ready : Ready modules depth s) (entered : c.current ∈ s.checked) {v : Checked}
    (hv : v = ⟨body, (visitCondition c condition s).2.1, (visitCondition c condition s).2.2⟩)
    (ok : (v.next body (Checked.inScope (check c body))).result = .ok ())
    (clean : (v.next body (Checked.inScope (check c body))).state.Clean) :
    Branched modules depth c s (v.next body (Checked.inScope (check c body))) ∧
      ∀ O u, Later O (v.next body (Checked.inScope (check c body))).state u →
        HasType u.program (Accounts u) s.scopes (visitCondition c condition s).1 .bool := by
  subst hv
  obtain ⟨okc, -⟩ := Checked.next_ok ok
  have entered' := (later_visitCondition hc.keeping (· = c.current) condition s).mem entered
  obtain ⟨advances, ready', scopes, holds⟩ := visitCondition_typed hc formed ready entered okc
    (clean_of_branch hc.keeping entered' clean)
  have branch := branch_typed ih (body.formed_mono advances.evolves.extension formed') ready'
    entered' ok clean
  have checks := branch.checks
  dsimp only at checks
  rw [scopes] at checks
  exact ⟨⟨advances.trans branch.advances, branch.scopes.trans scopes, checks⟩,
    fun O u hu => holds _ u (branch.advances.toLater.append hu)⟩

theorem Branched.passed {v : Checked} (h : Branched modules depth c s v)
    (ready : Ready modules depth s) {statement : Statement}
    (checks : ∀ O u, Later O v.state u →
      Checks u.program (Accounts u) c.current s.scopes statement s.scopes) :
    Passed modules depth c s ⟨statement, v.state, v.result⟩ := by
  refine ⟨h.advances, (h.ready ready).known, fun O u hu => ?_⟩
  dsimp only
  rw [h.scopes]
  exact checks O u hu

theorem check_forLoop {first : Statement} {condition : Expr} {step body : Statement} {line : Nat}
    (ok : (check c first (s.openScope [])).result = .ok ()) :
    check c (.forLoop first condition step body line) s =
      let f := check c first (s.openScope [])
      let v := visitCondition c condition f.state
      let p := (Checked.mk step v.2.1 v.2.2).next step (check c step)
      let b := p.next body (Checked.inScope (check c body))
      ⟨.forLoop f.statement v.1 p.statement b.statement line, b.state.closeScope, b.result⟩ := by
  rw [check]
  simp only [ok]

theorem result_check_forLoop {first : Statement} {condition : Expr} {step body : Statement}
    {line : Nat} {e : TypeError} (h : (check c first (s.openScope [])).result = .error e) :
    (check c (.forLoop first condition step body line) s).result = .error e := by
  rw [check]
  simp only [h]
  rfl

/-- A loop, where its first statement, its step and its body are checked as `ihf`, `ihp` and `ih`
    say. -/
theorem loop_typed (hc : c.Sound modules depth) {f : Checked} {condition : Expr}
    {step body : Statement} {line : Nat} (ready : Ready modules depth s)
    (entered : c.current ∈ s.checked) (laterf : Later (· = c.current) (s.openScope []) f.state)
    (ihf : f.state.Clean → Passed modules depth c (s.openScope []) f)
    (ihp : ∀ t, step.Formed t.program → Ready modules depth t → c.current ∈ t.checked →
      (check c step t).result = .ok () → (check c step t).state.Clean →
        Passed modules depth c t (check c step t))
    (ih : ∀ t, body.Formed t.program → Ready modules depth t → c.current ∈ t.checked →
      (check c body t).result = .ok () → (check c body t).state.Clean →
        Passed modules depth c t (check c body t))
    (hcondition : condition.Formed s.program) (hstep : step.Formed s.program)
    (quiet : step.declares = false) (hbody : body.Formed s.program) :
    let v := visitCondition c condition f.state
    let p := (Checked.mk step v.2.1 v.2.2).next step (check c step)
    let b := p.next body (Checked.inScope (check c body))
    b.result = .ok () → b.state.closeScope.Clean → Passed modules depth c s
      ⟨.forLoop f.statement v.1 p.statement b.statement line, b.state.closeScope, b.result⟩ := by
  intro v p b ok clean
  have enteredf := laterf.mem entered
  have enteredv : c.current ∈ v.2.1.checked :=
    (later_visitCondition hc.keeping (· = c.current) condition f.state).mem enteredf
  obtain ⟨okp, -⟩ := Checked.next_ok ok
  obtain ⟨okv, samep⟩ := Checked.next_ok okp
  have samep : p = check c step v.2.1 := samep
  have laterp := later_check hc.keeping step enteredv
  have cleanp : p.state.Clean :=
    clean_of_branch hc.keeping (samep ▸ laterp.mem enteredv) clean
  have cleanv : v.2.1.Clean := laterp.clean (samep ▸ cleanp)
  have cleanf : f.state.Clean := (keeps_visit hc.keeping condition f.state).clean cleanv
  have first := ihf cleanf
  have opens := Advances.scopes ready.valid entered (s.scopes.openSegment [])
  have extendedf := (opens.trans first.advances).evolves.extension
  obtain ⟨advances, readyv, scopes, holds⟩ := visitCondition_typed hc
    (condition.formed_mono extendedf hcondition) first.ready enteredf okv cleanv
  have extendedv := extendedf.trans advances.evolves.extension
  have pass : Passed modules depth c v.2.1 p := by
    rw [samep] at okp cleanp ⊢
    exact ihp v.2.1 (step.formed_mono extendedv hstep) readyv enteredv okp cleanp
  have stays : p.state.scopes = v.2.1.scopes := by
    refine (pass.checks (fun _ => False) p.state (.refl _ _)).eq_of_not_declares ?_
    rw [samep, declares_check]
    exact quiet
  have branch := branch_typed ih
    (body.formed_mono (extendedv.trans pass.advances.evolves.extension) hbody) pass.ready
    (pass.advances.mem enteredv) ok clean
  have inside := (opens.trans first.advances).trans (advances.trans
    (pass.advances.trans branch.advances))
  have closes := Advances.scopes branch.advances.valid (inside.mem entered)
    b.state.scopes.closeSegment
  have closed : b.state.scopes.closeSegment = s.scopes := by
    rw [branch.scopes, stays, scopes]
    exact first.closeSegment.trans (Scopes.closeSegment_openSegment s.scopes [])
  refine ⟨inside.trans closes, ?_, fun O u hu => ?_⟩
  · change KnownScopes _ b.state.scopes.closeSegment
    rw [closed]
    exact ready.known.evolves (inside.trans closes).evolves
  · change Checks u.program (Accounts u) c.current s.scopes _ b.state.scopes.closeSegment
    have hb : Later O b.state u := (later_scopes O _ _).trans hu
    have hp := branch.advances.toLater.append hb
    have hv := pass.advances.toLater.append hp
    have hf := advances.toLater.append hv
    obtain ⟨Δ, body'⟩ := branch.checks O u hb
    have step' := pass.checks _ u hp
    rw [stays, scopes] at step' body'
    rw [closed]
    exact .forLoop s.scopes f.state.scopes Δ _ _ _ _ line (first.checks _ u hf) (holds _ u hv)
      step' body'

mutual

theorem check_typed (hc : c.Sound modules depth) (statement : Statement) {s : State}
    (formed : statement.Formed s.program) (ready : Ready modules depth s)
    (entered : c.current ∈ s.checked) (ok : (check c statement s).result = .ok ())
    (clean : (check c statement s).state.Clean) :
    Passed modules depth c s (check c statement s) := by
  cases statement with
  | block statements line =>
    have inside := checkAll_typed hc statements (s := s.openScope []) formed ready.openScope
      entered clean
    have closed := (inside.closeSegment).trans (Scopes.closeSegment_openSegment s.scopes [])
    have closes := Advances.scopes inside.advances.valid (inside.advances.mem entered)
      (checkAll c statements (s.openScope [])).2.scopes.closeSegment
    have opens := Advances.scopes ready.valid entered (s.scopes.openSegment [])
    have total := (opens.trans inside.advances).trans closes
    refine ⟨total, ?_, fun O u hu => ?_⟩
    · change KnownScopes _ (checkAll c statements (s.openScope [])).2.scopes.closeSegment
      rw [closed]
      exact ready.known.evolves total.evolves
    · change Checks u.program (Accounts u) c.current s.scopes _
        (checkAll c statements (s.openScope [])).2.scopes.closeSegment
      rw [closed]
      exact .block s.scopes _ _ line (inside.checks O u ((later_scopes O _ _).trans hu))
  | assign declares target written value line =>
    exact checkAssign_typed hc formed ready entered ok clean
  | ret value line => exact checkReturn_typed hc formed ready entered ok clean
  | ifThen condition body line =>
    obtain ⟨branch, holds⟩ := conditional_typed hc (fun t => check_typed hc body) formed.1 formed.2
      ready entered rfl ok clean
    refine branch.passed ready fun O u hu => ?_
    obtain ⟨Δ, inside⟩ := branch.checks O u hu
    exact .ifThen s.scopes Δ _ _ line (holds O u hu) inside
  | ifElse condition body otherwise line =>
    obtain ⟨hcondition, hbody, hotherwise⟩ := formed
    obtain ⟨okb, -⟩ := Checked.next_ok ok
    have later := later_next (v := ⟨body, _, (visitCondition c condition s).2.2⟩)
      (later_visitCondition hc.keeping (· = c.current) condition s) body
      fun t ht => later_inScope (later_check hc.keeping body (ht.subset entered))
    have entered' := later.mem entered
    obtain ⟨branch, holds⟩ := conditional_typed hc (fun t => check_typed hc body) hcondition hbody
      ready entered rfl okb (clean_of_branch hc.keeping entered' clean)
    have branch' := branch_typed (fun t => check_typed hc otherwise)
      (otherwise.formed_mono branch.advances.evolves.extension hotherwise) (branch.ready ready)
      entered' ok clean
    have checks := branch'.checks
    rw [branch.scopes] at checks
    have both : Branched modules depth c s _ :=
      ⟨branch.advances.trans branch'.advances, branch'.scopes.trans branch.scopes, checks⟩
    refine both.passed ready fun O u hu => ?_
    have hu' := branch'.advances.toLater.append hu
    obtain ⟨Δ, inside⟩ := branch.checks _ u hu'
    obtain ⟨Δ', inside'⟩ := checks O u hu
    exact .ifElse s.scopes Δ Δ' _ _ _ line (holds _ u hu') inside inside'
  | whileLoop condition body line =>
    obtain ⟨branch, holds⟩ := conditional_typed hc (fun t => check_typed hc body) formed.1 formed.2
      ready entered rfl ok clean
    refine branch.passed ready fun O u hu => ?_
    obtain ⟨Δ, inside⟩ := branch.checks O u hu
    exact .whileLoop s.scopes Δ _ _ line (holds O u hu) inside
  | forLoop first condition step body line =>
    obtain ⟨hfirst, hcondition, ⟨hstep, quiet⟩, hbody⟩ := formed
    have laterf := later_check hc.keeping first (s := s.openScope []) entered
    cases hf : (check c first (s.openScope [])).result with
    | error e =>
      rw [result_check_forLoop hf] at ok
      cases ok
    | ok u =>
      have ihf := fun clean => check_typed hc first (s := s.openScope []) hfirst ready.openScope
        entered hf clean
      rw [check_forLoop hf] at ok clean ⊢
      generalize check c first (s.openScope []) = f at *
      exact loop_typed hc ready entered laterf ihf (fun t => check_typed hc step)
        (fun t => check_typed hc body) hcondition hstep quiet hbody ok clean
  | call callee arguments target injected line =>
    exact checkCall_typed hc formed ready entered ok clean
termination_by structural statement

theorem checkAll_typed (hc : c.Sound modules depth) (statements : List Statement) {s : State}
    (formed : Statement.FormedAll s.program statements) (ready : Ready modules depth s)
    (entered : c.current ∈ s.checked) (clean : (checkAll c statements s).2.Clean) :
    PassedAll modules depth c s (checkAll c statements s) := by
  cases statements with
  | nil =>
    exact ⟨.refl ready.valid fun _ same => same ▸ entered, fun _ _ _ => .nil s.scopes⟩
  | cons statement rest =>
    unfold checkAll at clean ⊢
    dsimp only at clean ⊢
    have later := later_check hc.keeping statement entered
    split at clean <;> rename_i result
    · have behind := later_checkAll hc.keeping rest (later.mem entered)
      have first := check_typed hc statement formed.1 ready entered result (behind.clean clean)
      have tail := checkAll_typed hc rest
        (Statement.formedAll_mono first.advances.evolves.extension rest formed.2) first.ready
        (later.mem entered) clean
      refine ⟨first.advances.trans tail.advances, fun O u hu => ?_⟩
      exact .cons s.scopes _ _ _ _ (first.checks _ u (tail.advances.toLater.append hu))
        (tail.checks O u hu)
    · rename_i e
      have recorded := later_record (· = c.current) (check c statement s).state statement.line e
      have behind := later_checkAll hc.keeping rest (recorded.mem (later.mem entered))
      exact absurd (behind.clean clean) Clean.of_record
termination_by structural statements

end

end Typing
end ObjectLang
