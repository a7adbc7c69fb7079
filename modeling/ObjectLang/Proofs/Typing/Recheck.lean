import ObjectLang.Proofs.Typing.Function
set_option autoImplicit false

/-!
# Checking again

A typed body that is checked again stays as it is, if the operands of its operators and the sides of
its assignments agree under the return types that are known by now. If they do not, an error is
recorded: this is how checking a program again can fail.
-/

namespace ObjectLang.Typing

variable {p : Program} {c : Context} {returns : FunctionId → TypeId → Prop}
  {Q : State → State → Prop} {F : State → Prop} {s t : State} {Γ Γ' : Scopes Meaning}

/-- What checking a statement again finds. A block that is refused has recorded an error and goes
    on without one. -/
def Rechecked (p : Program) (Q : State → State → Prop) (statement : Statement)
    (Γ : Scopes Meaning) (s : State) (v : Checked) : Prop :=
  statement.agrees p = true ∧ v.result = .ok () ∧ v.statement = statement ∧ Q s v.state ∧
      v.state.scopes = Γ ∨
    statement.agrees p = false ∧ ((∃ fault, v.result = .error fault) ∨ ¬v.state.Clean)

def RecheckedAll (p : Program) (Q : State → State → Prop) (statements : List Statement)
    (Γ : Scopes Meaning) (s : State) (v : List Statement × State) : Prop :=
  Statement.allAgree p statements = true ∧ v.1 = statements ∧ Q s v.2 ∧ v.2.scopes = Γ ∨
    Statement.allAgree p statements = false ∧ ¬v.2.Clean

structure CalmScopes (Q : State → State → Prop) (F : State → Prop) : Prop extends Calm Q F where
  scopes : ∀ s scopes, Q s { s with scopes }

structure Again (p : Program) (c : Context) (returns : FunctionId → TypeId → Prop)
    (Q : State → State → Prop) (F : State → Prop) : Prop where
  calm : CalmScopes Q F
  keeping : c.Keeping
  tables : p.Tables
  loose : ∀ f type, returns f type → type = (p.function f).returnType ∨ type = .void

structure Stands (p : Program) (c : Context) (returns : FunctionId → TypeId → Prop)
    (Q : State → State → Prop) (F : State → Prop) (Γ : Scopes Meaning) (s : State) : Prop where
  program : s.program = p
  scopes : s.scopes = Γ
  entered : c.current ∈ s.checked
  answers : Answers c returns Q F s

theorem Stands.after (h : Stands p c returns Q F Γ s) (again : Again p c returns Q F)
    (quiet : Q s t) (scopes : t.scopes = Γ') (checked : s.checked <:+ t.checked) :
    Stands p c returns Q F Γ' t :=
  ⟨(again.calm.program _ _ quiet).trans h.program, scopes, checked.subset h.entered,
    h.answers.after again.calm.toCalm quiet⟩

theorem HasType.again (again : Again p c returns Q F) {e : Expr} {type : TypeId}
    (h : HasType p returns Γ e type) (stands : Stands p c returns Q F Γ s)
    (fine : ¬F (visit c e s).state) : Revisited p Q e s (visit c e s) :=
  h.revisit again.calm.toCalm again.keeping again.tables again.loose s stands.program stands.scopes
    stands.answers fine

theorem HasType.settled_again (again : Again p c returns Q F) {e : Expr} {type : TypeId}
    (h : HasType p returns Γ e type) (filled : type ≠ .void) : p.settledType e = type :=
  (h.eq_settledType_of_ne again.tables again.loose filled).symm

theorem recheck_declare (again : Again p c returns Q F) {name : String}
    {written : Option TypeId} {value : Expr} {nameLine line : Nat} {found type : TypeId}
    (typed : HasType p returns Γ value found) (fresh : Γ.isDeclaredLocal name = false)
    (filled : found ≠ .void) (rule : declaredType p found written = .ok type)
    (stands : Stands p c returns Q F Γ s)
    (fine : ¬F (checkAssign c true (.var name (some type) nameLine) written value line s).state) :
    Rechecked p Q (.assign true (.var name (some type) nameLine) written value line)
      (Γ.push name (.value type)) s
      (checkAssign c true (.var name (some type) nameLine) written value line s) := by
  have keeps := keeps_visit again.keeping value s
  have fine' : ¬F (visit c value s).state := fun hf =>
    fine (again.calm.failed _ _ _ (later_of_checkAssign again.keeping (fun _ => False) _ _ _ _ _ _) hf)
  unfold checkAssign Rechecked
  dsimp only
  rcases typed.again again stands fine' with ⟨agrees, result, expr, quiet⟩ | ⟨refused, fault, result⟩
  · have stands' := stands.after again quiet (keeps.scopes.trans stands.scopes) keeps.checked
    have declared : declare (.var name (some type) nameLine) written (p.settledType value)
        (visit c value s).state = .ok (.var name (some type) nameLine,
          { (visit c value s).state with
            scopes := (visit c value s).state.scopes.push name (.value type) }) := by
      rw [declare, stands'.scopes, fresh, typed.settled_again again filled]
      exact bind_eq_ok.2 ⟨(), ensure_eq_ok.2 rfl, bind_eq_ok.2
        ⟨(), ensure_eq_ok.2 (by simpa using filled), bind_eq_ok.2
          ⟨type, stands'.program.symm ▸ rule, rfl⟩⟩⟩
    rw [result, expr]
    dsimp only
    rw [if_pos rfl, declared]
    refine .inl ⟨?_, rfl, rfl, again.calm.trans _ _ _ quiet (again.calm.scopes _ _), ?_⟩
    · rw [Statement.agrees, agrees]
      rfl
    · dsimp only
      rw [stands'.scopes]
  · rw [result]
    refine .inr ⟨?_, .inl ⟨fault, rfl⟩⟩
    rw [Statement.agrees, refused]
    rfl

theorem recheck_assign (again : Again p c returns Q F) {target : Expr} {written : Option TypeId}
    {value : Expr} {line : Nat} {found type : TypeId} (typed : HasType p returns Γ value found)
    (place : HasType p returns Γ target type) (stands : Stands p c returns Q F Γ s)
    (fine : ¬F (checkAssign c false target written value line s).state) :
    Rechecked p Q (.assign false target written value line) Γ s
      (checkAssign c false target written value line s) := by
  have keeps := keeps_visit again.keeping value s
  have fine' : ¬F (visit c value s).state := fun hf =>
    fine (again.calm.failed _ _ _ (later_of_checkAssign again.keeping (fun _ => False) _ _ _ _ _ _) hf)
  unfold checkAssign at fine ⊢
  unfold Rechecked
  dsimp only at fine ⊢
  rcases typed.again again stands fine' with ⟨agrees, result, expr, quiet⟩ | ⟨refused, fault, result⟩
  · have stands' := stands.after again quiet (keeps.scopes.trans stands.scopes) keeps.checked
    have keeps' := keeps_visit again.keeping target (visit c value s).state
    rw [result] at fine ⊢
    dsimp only at fine ⊢
    rw [if_neg Bool.false_ne_true] at fine ⊢
    rcases place.again again stands' fine with
      ⟨agrees', result', expr', quiet'⟩ | ⟨refused, fault, result'⟩
    · have program := (again.calm.program _ _ quiet').trans stands'.program
      rw [result', expr, expr', program, Statement.agrees, agrees, agrees']
      cases equal : p.types.equals (p.settledType value) (p.settledType target) with
      | true =>
        refine .inl ⟨rfl, checkAssigned_eq_ok.2 equal, rfl, again.calm.trans _ _ _ quiet quiet', ?_⟩
        exact keeps'.scopes.trans stands'.scopes
      | false =>
        refine .inr ⟨rfl, .inl ⟨.assignmentMismatch (p.types.name (p.settledType value))
          (p.types.name (p.settledType target)), ?_⟩⟩
        change checkAssigned p _ _ = _
        rw [checkAssigned, equal]
        rfl
    · rw [result']
      refine .inr ⟨?_, .inl ⟨fault, rfl⟩⟩
      rw [Statement.agrees, refused, Bool.false_and, Bool.or_false, Bool.and_false]
  · rw [result]
    refine .inr ⟨?_, .inl ⟨fault, rfl⟩⟩
    rw [Statement.agrees, refused]
    rfl

theorem recheck_ret (again : Again p c returns Q F) {value : Expr} {line : Nat} {type : TypeId}
    (typed : HasType p returns Γ value type) (rule : Returnable p c.current value type)
    (stands : Stands p c returns Q F Γ s) (fine : ¬F (checkReturn c value line s).state) :
    Rechecked p Q (.ret value line) Γ s (checkReturn c value line s) := by
  have keeps := keeps_visit again.keeping value s
  have fine' : ¬F (visit c value s).state := fun hf =>
    fine (again.calm.failed _ _ _ (later_of_checkReturn line (keeps.mem stands.entered)) hf)
  unfold checkReturn Rechecked
  dsimp only
  rcases typed.again again stands fine' with ⟨agrees, result, expr, quiet⟩ | ⟨refused, fault, result⟩
  · have program := (again.calm.program _ _ quiet).trans stands.program
    have accepted : acceptReturned c value (p.settledType value) (visit c value s).state =
        .ok (visit c value s).state := by
      unfold acceptReturned
      rcases rule with call | ⟨filled, decided, rule⟩
      · rw [if_pos call]
      · rw [typed.settled_again again filled, program]
        have undecided : ¬infersReturnType (p.function c.current) = true :=
          Bool.not_eq_true _ ▸ decided
        by_cases call : isCallOf c.current value = true
        · rw [if_pos call]
        · rw [if_neg call, if_neg filled, if_neg undecided]
          exact bind_eq_ok.2 ⟨(), rule, rfl⟩
    have bound : (Except.ok (p.settledType value)).bind (fun type =>
        acceptReturned c value type (visit c value s).state) = .ok (visit c value s).state := accepted
    rw [result, expr, bound]
    refine .inl ⟨agrees, rfl, rfl, quiet, keeps.scopes.trans stands.scopes⟩
  · rw [result]
    exact .inr ⟨refused, .inl ⟨fault, rfl⟩⟩

theorem recheck_condition (again : Again p c returns Q F) {condition : Expr}
    (holds : HasType p returns Γ condition .bool) (stands : Stands p c returns Q F Γ s)
    (fine : ¬F (visitCondition c condition s).2.1) :
    condition.agrees p = true ∧ (visitCondition c condition s).1 = condition ∧
        (visitCondition c condition s).2.2 = .ok () ∧ Q s (visitCondition c condition s).2.1 ∧
        Stands p c returns Q F Γ (visitCondition c condition s).2.1 ∨
      condition.agrees p = false ∧ ∃ fault, (visitCondition c condition s).2.2 = .error fault := by
  have keeps := keeps_visit again.keeping condition s
  unfold visitCondition at fine ⊢
  dsimp only at fine ⊢
  rcases holds.again again stands fine with ⟨agrees, result, expr, quiet⟩ | ⟨refused, fault, result⟩
  · rw [result, holds.settled_again again (by decide)]
    exact .inl ⟨agrees, expr, rfl, quiet,
      stands.after again quiet (keeps.scopes.trans stands.scopes) keeps.checked⟩
  · rw [result]
    exact .inr ⟨refused, fault, rfl⟩

theorem recheck_call (again : Again p c returns Q F) {callee : Expr} {arguments : List Expr}
    {target : Option FunctionId} {injected : Bool} {line : Nat} {type : TypeId}
    (typed : HasType p returns Γ (.call callee arguments target injected line) type)
    (stands : Stands p c returns Q F Γ s)
    (fine : ¬F (checkCall c callee arguments target injected line s).state) :
    Rechecked p Q (.call callee arguments target injected line) Γ s
      (checkCall c callee arguments target injected line s) := by
  have keeps := keeps_visit again.keeping (.call callee arguments target injected line) s
  have state : (checkCall c callee arguments target injected line s).state =
      (visit c (.call callee arguments target injected line) s).state := by
    unfold checkCall
    dsimp only
    split <;> rfl
  rw [state] at fine
  unfold checkCall Rechecked
  dsimp only
  rcases typed.again again stands fine with ⟨agrees, result, expr, quiet⟩ | ⟨refused, fault, result⟩
  · rw [result, expr]
    exact .inl ⟨agrees, rfl, rfl, quiet, keeps.scopes.trans stands.scopes⟩
  · rw [result]
    refine .inr ⟨refused, .inl ⟨fault, ?_⟩⟩
    split <;> rfl

theorem Stands.openScope (again : Again p c returns Q F) (h : Stands p c returns Q F Γ s) :
    Stands p c returns Q F (Γ.openSegment []) (s.openScope []) :=
  h.after again (again.calm.scopes s _) (congrArg (Scopes.openSegment · []) h.scopes)
    (List.suffix_refl _)

theorem recheck_inScope (again : Again p c returns Q F) {body : Statement} {Δ : Scopes Meaning}
    (h : Checks p returns c.current (Γ.openSegment []) body Δ)
    (ih : ∀ t, Stands p c returns Q F (Γ.openSegment []) t → ¬F (check c body t).state →
      Rechecked p Q body Δ t (check c body t))
    (stands : Stands p c returns Q F Γ s) (fine : ¬F (Checked.inScope (check c body) s).state) :
    Rechecked p Q body Γ s (Checked.inScope (check c body) s) := by
  have fine' : ¬F (check c body (s.openScope [])).state := fun hf =>
    fine (again.calm.failed (fun _ => False) _ _ (later_scopes _ _ _) hf)
  rcases ih (s.openScope []) (stands.openScope again) fine' with
    ⟨agrees, result, same, quiet, scopes⟩ | refused
  · refine .inl ⟨agrees, result, same, ?_, ?_⟩
    · exact again.calm.trans _ _ _ (again.calm.scopes s _)
        (again.calm.trans _ _ _ quiet (again.calm.scopes _ _))
    · change (check c body (s.openScope [])).state.scopes.closeSegment = Γ
      rw [scopes]
      exact h.closeSegment.trans (Scopes.closeSegment_openSegment Γ [])
  · exact .inr refused

theorem Rechecked.behind (again : Again p c returns Q F) {statement : Statement} {v : Checked}
    (quiet : Q s t) (h : Rechecked p Q statement Γ t v) : Rechecked p Q statement Γ s v := by
  rcases h with ⟨agrees, result, same, quiet', scopes⟩ | refused
  · exact .inl ⟨agrees, result, same, again.calm.trans _ _ _ quiet quiet', scopes⟩
  · exact .inr refused

theorem Rechecked.next (again : Again p c returns Q F) {first second : Statement} {v : Checked}
    {check : State → Checked} {Δ : Scopes Meaning} (h : Rechecked p Q first Γ s v)
    (stands : Stands p c returns Q F Δ s) (entered : s.checked <:+ v.state.checked)
    (later : ∀ t, c.current ∈ t.checked → Later (· = c.current) t (check t).state)
    (hcheck : ∀ t, Stands p c returns Q F Γ t → ¬F (check t).state →
      Rechecked p Q second Γ' t (check t))
    (fine : ¬F (v.next second check).state) :
    first.agrees p = true ∧ v.statement = first ∧
        Rechecked p Q second Γ' s (v.next second check) ∨
      first.agrees p = false ∧ ((∃ fault, (v.next second check).result = .error fault) ∨
        ¬(v.next second check).state.Clean) := by
  rcases h with ⟨agrees, result, same, quiet, scopes⟩ | ⟨refused, ⟨fault, result⟩ | unclean⟩
  · unfold Checked.next at fine ⊢
    rw [result] at fine ⊢
    exact .inl ⟨agrees, same, .behind again quiet
      (hcheck _ (stands.after again quiet scopes entered) fine)⟩
  · unfold Checked.next
    rw [result]
    exact .inr ⟨refused, .inl ⟨fault, rfl⟩⟩
  · have behind : Later (· = c.current) v.state (v.next second check).state :=
      later_next (.refl _ _) second fun t ht => later t (ht.subset (entered.subset stands.entered))
    exact .inr ⟨refused, .inr fun clean => unclean (behind.clean clean)⟩

theorem recheck_conditional (again : Again p c returns Q F) {condition : Expr}
    {second : Statement} {check : State → Checked}
    (holds : HasType p returns Γ condition .bool) (stands : Stands p c returns Q F Γ s)
    (hcheck : ∀ t, Stands p c returns Q F Γ t → ¬F (check t).state →
      Rechecked p Q second Γ' t (check t))
    (later : ∀ t, c.current ∈ t.checked → Later (· = c.current) t (check t).state) {v : Checked}
    (hv : v = ⟨second, (visitCondition c condition s).2.1, (visitCondition c condition s).2.2⟩)
    (fine : ¬F (v.next second check).state) :
    condition.agrees p = true ∧ (visitCondition c condition s).1 = condition ∧
        Rechecked p Q second Γ' s (v.next second check) ∨
      condition.agrees p = false ∧ ∃ fault, (v.next second check).result = .error fault := by
  subst hv
  have entered := (keeps_visit again.keeping condition s).toLater.mem stands.entered
  have fine' : ¬F (visitCondition c condition s).2.1 := by
    intro hf
    refine fine (again.calm.failed (· = c.current) _ _ ?_ hf)
    exact later_next (s := (visitCondition c condition s).2.1) (.refl _ _) second
      fun t ht => later t (ht.subset entered)
  rcases recheck_condition again holds stands fine' with
    ⟨agrees, same, result, quiet, stands'⟩ | ⟨refused, fault, result⟩
  · unfold Checked.next at fine ⊢
    rw [result] at fine ⊢
    exact .inl ⟨agrees, same, .behind again quiet (hcheck _ stands' fine)⟩
  · unfold Checked.next
    rw [result]
    exact .inr ⟨refused, fault, rfl⟩

theorem recheck_ifElse (again : Again p c returns Q F) {body otherwise : Statement}
    {condition : Expr} {line : Nat} {Δ Δ' : Scopes Meaning}
    (holds : HasType p returns Γ condition .bool)
    (inside : Checks p returns c.current (Γ.openSegment []) body Δ)
    (inside' : Checks p returns c.current (Γ.openSegment []) otherwise Δ')
    (ihb : ∀ t, Stands p c returns Q F (Γ.openSegment []) t → ¬F (check c body t).state →
      Rechecked p Q body Δ t (check c body t))
    (iho : ∀ t, Stands p c returns Q F (Γ.openSegment []) t → ¬F (check c otherwise t).state →
      Rechecked p Q otherwise Δ' t (check c otherwise t))
    (stands : Stands p c returns Q F Γ s)
    (fine : ¬F (check c (.ifElse condition body otherwise line) s).state) :
    Rechecked p Q (.ifElse condition body otherwise line) Γ s
      (check c (.ifElse condition body otherwise line) s) := by
  have laterb (t : State) (ht : c.current ∈ t.checked) :
      Later (· = c.current) t (Checked.inScope (check c body) t).state :=
    later_inScope (later_check again.keeping body (s := t.openScope []) ht)
  have latero (t : State) (ht : c.current ∈ t.checked) :
      Later (· = c.current) t (Checked.inScope (check c otherwise) t).state :=
    later_inScope (later_check again.keeping otherwise (s := t.openScope []) ht)
  have visited := keeps_visit again.keeping condition s
  rw [check] at fine ⊢
  let b := (Checked.mk body (visitCondition c condition s).2.1
    (visitCondition c condition s).2.2).next body (Checked.inScope (check c body))
  have branched : Later (· = c.current) s b.state :=
    later_next (visited.later _) body fun t ht => laterb t (ht.subset stands.entered)
  have behind : Later (· = c.current) b.state
      (b.next otherwise (Checked.inScope (check c otherwise))).state :=
    later_next (s := b.state) (.refl _ _) otherwise
      fun t ht => latero t (ht.subset (branched.mem stands.entered))
  have fineb : ¬F b.state := fun hb => fine (again.calm.failed _ _ _ behind hb)
  rcases recheck_conditional again holds stands (fun t => recheck_inScope again inside ihb) laterb
    rfl fineb with ⟨agrees, same, rechecked⟩ | ⟨refused, fault, result⟩
  · rcases rechecked.next again stands branched.checked latero
      (fun t => recheck_inScope again inside' iho) fine with
      ⟨agrees', same', ⟨agrees'', result, same'', quiet, scopes⟩ | ⟨refused, outcome⟩⟩ |
        ⟨refused, outcome⟩
    · refine .inl ⟨?_, result, ?_, quiet, scopes⟩
      · rw [Statement.agrees, agrees, agrees', agrees'']
        rfl
      · change Statement.ifElse (visitCondition c condition s).1 b.statement _ line = _
        rw [same, same']
        exact congrArg (Statement.ifElse condition body · line) same''
    · refine .inr ⟨?_, outcome⟩
      rw [Statement.agrees, refused, Bool.and_false]
    · refine .inr ⟨?_, outcome⟩
      rw [Statement.agrees, refused, Bool.and_false, Bool.false_and]
  · refine .inr ⟨?_, .inl ⟨fault, ?_⟩⟩
    · rw [Statement.agrees, refused, Bool.false_and, Bool.false_and]
    · change (b.next otherwise _).result = _
      unfold Checked.next
      rw [result]

theorem recheck_loop (again : Again p c returns Q F) {first step body : Statement}
    {condition : Expr} {line : Nat} {f : Checked} {Δ : Scopes Meaning} (ok : f.result = .ok ())
    (begins : Checks p returns c.current (Γ.openSegment []) first Γ')
    (holds : HasType p returns Γ' condition .bool)
    (inside : Checks p returns c.current (Γ'.openSegment []) body Δ)
    (ihp : ∀ t, Stands p c returns Q F Γ' t → ¬F (check c step t).state →
      Rechecked p Q step Γ' t (check c step t))
    (ihb : ∀ t, Stands p c returns Q F (Γ'.openSegment []) t → ¬F (check c body t).state →
      Rechecked p Q body Δ t (check c body t))
    (stands : Stands p c returns Q F Γ s) (entered : s.checked <:+ f.state.checked)
    (hf : Rechecked p Q first Γ' (s.openScope []) f) :
    let v := visitCondition c condition f.state
    let n := (Checked.mk step v.2.1 v.2.2).next step (check c step)
    let b := n.next body (Checked.inScope (check c body))
    ¬F b.state.closeScope → Rechecked p Q (.forLoop first condition step body line) Γ s
      ⟨.forLoop f.statement v.1 n.statement b.statement line, b.state.closeScope, b.result⟩ := by
  intro v n b fine
  have laterp (t : State) (ht : c.current ∈ t.checked) := later_check again.keeping step ht
  have laterb (t : State) (ht : c.current ∈ t.checked) :
      Later (· = c.current) t (Checked.inScope (check c body) t).state :=
    later_inScope (later_check again.keeping body (s := t.openScope []) ht)
  have enteredv : f.state.checked <:+ v.2.1.checked :=
    (keeps_visit again.keeping condition f.state).checked
  have latern : Later (· = c.current) v.2.1 n.state :=
    later_next (s := v.2.1) (.refl _ _) step fun t ht =>
      laterp t (ht.subset (enteredv.subset (entered.subset stands.entered)))
  have behind : Later (· = c.current) n.state b.state :=
    later_next (s := n.state) (.refl _ _) body fun t ht =>
      laterb t (ht.subset (latern.mem (enteredv.subset (entered.subset stands.entered))))
  have fineb : ¬F b.state := fun hb =>
    fine (again.calm.failed (fun _ => False) _ _ (later_scopes _ _ _) hb)
  have finen : ¬F n.state := fun hn => fineb (again.calm.failed _ _ _ behind hn)
  unfold Rechecked
  dsimp only
  rcases hf with ⟨agrees, -, same, quiet, scopes⟩ | ⟨refused, ⟨fault, result⟩ | unclean⟩
  · have opened := again.calm.trans _ _ _ (again.calm.scopes s _) quiet
    have stands' := stands.after again opened scopes entered
    rcases recheck_conditional again holds stands' ihp laterp rfl finen with
      ⟨agrees', same', rechecked⟩ | ⟨refused, fault, result⟩
    · rcases rechecked.next again stands' (enteredv.trans latern.checked) laterb
        (fun t ht => recheck_inScope again inside ihb ht) fineb with
        ⟨agrees'', same'', ⟨agreesb, result, sameb, quietb, scopesb⟩ | ⟨refused, outcome⟩⟩ |
          ⟨refused, outcome⟩
      · refine .inl ⟨?_, result, ?_, ?_, ?_⟩
        · rw [Statement.agrees, agrees, agrees', agrees'', agreesb]
          rfl
        · rw [same, same', same'', sameb]
        · exact again.calm.trans _ _ _ opened (again.calm.trans _ _ _ quietb
            (again.calm.scopes _ _))
        · change b.state.scopes.closeSegment = Γ
          rw [scopesb]
          exact begins.closeSegment.trans (Scopes.closeSegment_openSegment Γ [])
      · refine .inr ⟨?_, outcome⟩
        rw [Statement.agrees, refused, Bool.and_false]
      · refine .inr ⟨?_, outcome⟩
        rw [Statement.agrees, refused, Bool.and_false, Bool.false_and]
    · refine .inr ⟨?_, .inl ⟨fault, ?_⟩⟩
      · rw [Statement.agrees, refused, Bool.and_false, Bool.false_and, Bool.false_and]
      · unfold b Checked.next
        rw [result]
  · rw [ok] at result
    cases result
  · refine .inr ⟨?_, .inr fun clean => unclean ?_⟩
    · rw [Statement.agrees, refused]
      rfl
    · exact ((keeps_visit again.keeping condition f.state).later _).trans (latern.trans behind)
        |>.clean clean

mutual

theorem Checks.recheck (again : Again p c returns Q F) {statement : Statement}
    {Γ Γ' : Scopes Meaning} (h : Checks p returns c.current Γ statement Γ') {s : State}
    (stands : Stands p c returns Q F Γ s) (fine : ¬F (check c statement s).state) :
    Rechecked p Q statement Γ' s (check c statement s) := by
  cases h with
  | block _ Δ statements line inside =>
    have fine' : ¬F (checkAll c statements (s.openScope [])).2 := fun hf =>
      fine (again.calm.failed (fun _ => False) _ _ (later_scopes _ _ _) hf)
    rcases inside.recheck again (stands.openScope again) fine' with
      ⟨agrees, same, quiet, scopes⟩ | ⟨refused, unclean⟩
    · refine .inl ⟨agrees, rfl, congrArg (Statement.block · line) same, ?_, ?_⟩
      · exact again.calm.trans _ _ _ (again.calm.scopes s _)
          (again.calm.trans _ _ _ quiet (again.calm.scopes _ _))
      · change (checkAll c statements (s.openScope [])).2.scopes.closeSegment = Γ
        rw [scopes]
        exact inside.closeSegment.trans (Scopes.closeSegment_openSegment Γ [])
    · exact .inr ⟨refused, .inr unclean⟩
  | declare _ name written value nameLine line found type typed fresh filled known rule =>
    exact recheck_declare again typed fresh filled rule stands fine
  | assign _ target written value line found type typed place rule =>
    exact recheck_assign again typed place stands fine
  | ret _ value line type typed rule => exact recheck_ret again typed rule stands fine
  | ifThen _ Δ test body line holds inside =>
    rcases recheck_conditional again holds stands
      (fun t ht => recheck_inScope again inside (fun u => inside.recheck again) ht)
      (fun t ht => later_inScope (later_check again.keeping body ht)) rfl fine with
      ⟨agrees, same, ⟨agrees', result, same', quiet, scopes⟩ | ⟨refused, outcome⟩⟩ |
        ⟨refused, fault, result⟩
    · refine .inl ⟨?_, result, ?_, quiet, scopes⟩
      · rw [Statement.agrees, agrees, agrees']
        rfl
      · exact congrArg₂ (Statement.ifThen · · line) same same'
    · refine .inr ⟨?_, outcome⟩
      rw [Statement.agrees, refused, Bool.and_false]
    · refine .inr ⟨?_, .inl ⟨fault, result⟩⟩
      rw [Statement.agrees, refused, Bool.false_and]
  | ifElse _ Δ Δ' test body otherwise line holds inside inside' =>
    exact recheck_ifElse again holds inside inside' (fun t => inside.recheck again)
      (fun t => inside'.recheck again) stands fine
  | whileLoop _ Δ test body line holds inside =>
    rcases recheck_conditional again holds stands
      (fun t ht => recheck_inScope again inside (fun u => inside.recheck again) ht)
      (fun t ht => later_inScope (later_check again.keeping body ht)) rfl fine with
      ⟨agrees, same, ⟨agrees', result, same', quiet, scopes⟩ | ⟨refused, outcome⟩⟩ |
        ⟨refused, fault, result⟩
    · refine .inl ⟨?_, result, ?_, quiet, scopes⟩
      · rw [Statement.agrees, agrees, agrees']
        rfl
      · exact congrArg₂ (Statement.whileLoop · · line) same same'
    · refine .inr ⟨?_, outcome⟩
      rw [Statement.agrees, refused, Bool.and_false]
    · refine .inr ⟨?_, .inl ⟨fault, result⟩⟩
      rw [Statement.agrees, refused, Bool.false_and]
  | forLoop _ Γ'' Δ first test step body line begins holds steps inside =>
    have laterf := later_check again.keeping first (s := s.openScope []) stands.entered
    have finef : ¬F (check c first (s.openScope [])).state := fun hf =>
      fine (again.calm.failed _ _ _ (later_of_check_forLoop again.keeping first test step body line
        stands.entered) hf)
    have rechecked := begins.recheck again (stands.openScope again) finef
    cases hf : (check c first (s.openScope [])).result with
    | error e =>
      rcases rechecked with ⟨-, result, -⟩ | ⟨refused, -⟩
      · rw [hf] at result
        cases result
      · refine .inr ⟨?_, .inl ⟨e, result_check_forLoop hf⟩⟩
        rw [Statement.agrees, refused]
        rfl
    | ok u =>
      rw [check_forLoop hf] at fine ⊢
      exact recheck_loop again hf begins holds inside (fun t => steps.recheck again)
        (fun t => inside.recheck again) stands laterf.checked rechecked fine
  | call _ callee arguments target injected line type typed =>
    exact recheck_call again typed stands fine
termination_by structural statement

theorem ChecksAll.recheck (again : Again p c returns Q F) {statements : List Statement}
    {Γ Γ' : Scopes Meaning} (h : ChecksAll p returns c.current Γ statements Γ') {s : State}
    (stands : Stands p c returns Q F Γ s) (fine : ¬F (checkAll c statements s).2) :
    RecheckedAll p Q statements Γ' s (checkAll c statements s) := by
  cases h with
  | nil => exact .inl ⟨rfl, rfl, again.calm.refl s, stands.scopes⟩
  | cons _ Δ _ statement rest head tail =>
    have fine' : ¬F (check c statement s).state := fun hf =>
      fine (again.calm.failed _ _ _ (later_of_checkAll again.keeping statement rest stands.entered) hf)
    have rechecked := head.recheck again stands fine'
    unfold RecheckedAll
    rcases rechecked with ⟨agrees, result, same, quiet, scopes⟩ | ⟨refused, outcome⟩
    · have stands' := stands.after again quiet scopes
        (later_check again.keeping statement stands.entered).checked
      rw [checkAll, result] at fine ⊢
      dsimp only at fine ⊢
      rcases tail.recheck again stands' fine with
        ⟨agrees', same', quiet', scopes'⟩ | ⟨refused, unclean⟩
      · refine .inl ⟨?_, congrArg₂ List.cons same same', again.calm.trans _ _ _ quiet quiet', scopes'⟩
        rw [Statement.allAgree, agrees, agrees']
        rfl
      · refine .inr ⟨?_, unclean⟩
        rw [Statement.allAgree, refused, Bool.and_false]
    · refine .inr ⟨?_, checkAll_unclean again.keeping rest stands.entered outcome⟩
      rw [Statement.allAgree, refused, Bool.false_and]
termination_by structural statements

end

end ObjectLang.Typing
