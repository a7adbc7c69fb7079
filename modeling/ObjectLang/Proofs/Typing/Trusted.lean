import ObjectLang.Proofs.Typing.Fixed
set_option autoImplicit false

/-!
# Checks keep states in order

Whatever is checked in a state in order, with errors or without: the state behind it is in order,
the bindings have known types, and the tree that is put back is rooted. So calls may check their
targets wherever they stand, and what the visit of an expression has found is fixed in all contexts
that checking a function makes.
-/

namespace ObjectLang.Typing

variable {modules : List Module} {depth : Nat} {c : Context} {s t : State}

theorem KnownBindings.push {p : Program} {Γ : Scopes Meaning} (h : KnownBindings p Γ)
    (name : String) {type : TypeId} (known : p.types.Knows type) :
    KnownBindings p (Γ.push name (.value type)) := by
  intro other found mem
  rcases List.mem_cons.1 mem with same | mem
  · cases same
    exact known
  · exact h other found mem

theorem KnownBindings.closeSegment {p : Program} {Γ : Scopes Meaning} (h : KnownBindings p Γ) :
    KnownBindings p Γ.closeSegment := by
  intro name type mem
  unfold Scopes.closeSegment at mem
  split at mem
  · cases mem
  · exact h name type (List.mem_of_mem_drop mem)

theorem knownBindings_function {p : Program} (m : Module) {f : Function} (signed : f.Signed p) :
    KnownBindings p (functionScopes m p f) := by
  intro name type mem
  obtain ⟨x, hx, rfl⟩ := parameter_of_mem mem
  exact (signed.parameters x hx).1

theorem Prepared.openScope (h : Prepared modules depth s) :
    Prepared modules depth (s.openScope []) :=
  ⟨h.toOrderly.file _ _, h.known⟩

theorem Prepared.closeScope (h : Prepared modules depth s) : Prepared modules depth s.closeScope :=
  ⟨h.toOrderly.file _ _, h.known.closeSegment⟩

theorem Prepared.record (h : Prepared modules depth s) (line : Nat) (e : TypeError) :
    Prepared modules depth (s.record line e) :=
  ⟨h.toOrderly.file _ _, h.known⟩

structure Leaves (modules : List Module) (depth : Nat) (v : Checked) : Prop where
  ready : Prepared modules depth v.state
  rooted : v.statement.Rooted v.state.program

theorem Prepared.visit (hc : c.Trusted modules depth) (ready : Prepared modules depth s) {e : Expr}
    (rooted : e.Rooted s.program) : Prepared modules depth (visit c e s).state :=
  ready.keeps (keeps_visit hc.keeping e s) (visit_fixed hc e ready rooted).orderly

theorem Prepared.declare {target target' : Expr} {written : Option TypeId} {value : TypeId}
    (ready : Prepared modules depth s) (known : s.program.types.Knows value)
    (hw : ∀ t ∈ written, s.program.types.Knows t)
    (declared : Typing.declare target written value s = .ok (target', t)) :
    Prepared modules depth t ∧ target'.Rooted t.program := by
  obtain ⟨name, noted, line, type, rfl, -, -, rule, rfl, rfl⟩ := declare_eq_ok declared
  exact ⟨⟨ready.toOrderly.file _ _, ready.known.push name (knows_declaredType known hw rule)⟩,
    trivial⟩

theorem checkAssign_leaves (hc : c.Trusted modules depth) {declares : Bool} {target value : Expr}
    {written : Option TypeId} {line : Nat} (ready : Prepared modules depth s)
    (rooted : (Statement.assign declares target written value line).Rooted s.program) :
    Leaves modules depth (checkAssign c declares target written value line s) := by
  obtain ⟨htarget, hwritten, hvalue⟩ := rooted
  have keeps := keeps_visit hc.keeping value s
  have visited := visit_fixed hc value ready hvalue
  have ready' := ready.visit hc hvalue
  have target' := target.rooted_mono keeps.evolves.extension htarget
  have written' : ∀ t ∈ written, (visit c value s).state.program.types.Knows t :=
    fun t ht => keeps.evolves.types.knows (hwritten t ht)
  unfold checkAssign
  dsimp only
  split
  · exact ⟨ready', target', written', visited.rooted⟩
  · rename_i type result
    split
    · split
      · exact ⟨ready', target', written', visited.rooted⟩
      · rename_i declared
        have later : Later (fun _ => False) _ _ := later_declare declared
        obtain ⟨ready'', rooted⟩ :=
          ready'.declare (visited.stable type result).known written' declared
        exact ⟨ready'', rooted, fun t ht => later.evolves.types.knows (written' t ht),
          (visit c value s).expr.rooted_mono later.evolves.extension visited.rooted⟩
    · have keeps' := keeps_visit hc.keeping target (visit c value s).state
      exact ⟨ready'.visit hc target', (visit_fixed hc target ready' target').rooted,
        fun t ht => keeps'.evolves.types.knows (written' t ht),
        (visit c value s).expr.rooted_mono keeps'.evolves.extension visited.rooted⟩

theorem Prepared.acceptReturned {value : Expr} {type : TypeId} (ready : Prepared modules depth s)
    (entered : c.current ∈ s.checked) (known : s.program.types.Knows type)
    (ok : Typing.acceptReturned c value type s = .ok t) : Prepared modules depth t := by
  have scopes := scopes_acceptReturned ok
  have evolves := (later_acceptReturned entered ok).evolves
  refine ⟨?_, scopes.symm ▸ ready.known.evolves evolves⟩
  unfold Typing.acceptReturned at ok
  split at ok
  · cases ok
    exact ready.toOrderly
  · split at ok
    · cases ok
    · split at ok
      · cases ok
        exact ready.toOrderly.modifyFunction entered ({ · with returnType := type }) (fun _ => rfl)
          ⟨(ready.tables.signatures c.current).parameters, known⟩ (ready.bodies c.current)
      · obtain ⟨⟨⟩, -, same⟩ := bind_eq_ok.1 ok
        cases same
        exact ready.toOrderly

theorem checkReturn_leaves (hc : c.Trusted modules depth) {value : Expr} {line : Nat}
    (ready : Prepared modules depth s) (entered : c.current ∈ s.checked)
    (rooted : value.Rooted s.program) : Leaves modules depth (checkReturn c value line s) := by
  have visited := visit_fixed hc value ready rooted
  have entered' := (keeps_visit hc.keeping value s).toLater.mem entered
  unfold checkReturn
  dsimp only
  split
  · rename_i accepted
    obtain ⟨type, result, accepted⟩ := bind_eq_ok.1 accepted
    have later := later_acceptReturned entered' accepted
    exact ⟨(ready.visit hc rooted).acceptReturned entered' (visited.stable type result).known
      accepted, (visit c value s).expr.rooted_mono later.evolves.extension visited.rooted⟩
  · exact ⟨ready.visit hc rooted, visited.rooted⟩

theorem checkCall_leaves (hc : c.Trusted modules depth) {callee : Expr} {arguments : List Expr}
    {target : Option FunctionId} {injected : Bool} {line : Nat} (ready : Prepared modules depth s)
    (rooted : (Expr.call callee arguments target injected line).Rooted s.program) :
    Leaves modules depth (checkCall c callee arguments target injected line s) := by
  have visited := visit_fixed hc _ ready rooted
  have ready' := ready.visit hc rooted
  unfold checkCall
  dsimp only
  split <;> rename_i shape
  · have rooted' := visited.rooted
    rw [shape] at rooted'
    exact ⟨ready', rooted'⟩
  · obtain ⟨callee', arguments', target', injected', same⟩ :=
      expr_visit_call callee arguments target injected line (c := c) (s := s)
    exact absurd same (shape callee' arguments' target' injected' line)

theorem Leaves.next {v : Checked} {statement : Statement} {check : State → Checked}
    (ready : Prepared modules depth v.state) (rooted : statement.Rooted v.state.program)
    (h : Leaves modules depth (check v.state)) : Leaves modules depth (v.next statement check) := by
  unfold Checked.next
  split
  · exact h
  · exact ⟨ready, rooted⟩

theorem Leaves.inScope {check : State → Checked}
    (h : Leaves modules depth (check (s.openScope []))) :
    Leaves modules depth (Checked.inScope check s) :=
  ⟨h.ready.closeScope, h.rooted⟩

def Harmless (modules : List Module) (depth : Nat) (c : Context) (statement : Statement) : Prop :=
  ∀ t, statement.Rooted t.program → Prepared modules depth t → c.current ∈ t.checked →
    Leaves modules depth (check c statement t)

theorem Harmless.branch {v : Checked} {body : Statement} (h : Harmless modules depth c body)
    (ready : Prepared modules depth v.state) (rooted : body.Rooted v.state.program)
    (entered : c.current ∈ v.state.checked) :
    Leaves modules depth (v.next body (Checked.inScope (check c body))) :=
  .next ready rooted (.inScope (h _ rooted ready.openScope entered))

theorem visitCondition_leaves (hc : c.Trusted modules depth) {condition : Expr}
    (ready : Prepared modules depth s) (rooted : condition.Rooted s.program) :
    Prepared modules depth (visitCondition c condition s).2.1 ∧
      (visitCondition c condition s).1.Rooted (visitCondition c condition s).2.1.program :=
  ⟨ready.visit hc rooted, (visit_fixed hc condition ready rooted).rooted⟩

theorem later_branch (hc : c.Keeping) {v : Checked} (entered : c.current ∈ v.state.checked)
    (body : Statement) : Later (· = c.current) v.state
      (v.next body (Checked.inScope (check c body))).state :=
  later_next (.refl _ v.state) body fun _ ht =>
    later_inScope (later_check hc body (ht.subset entered))

theorem conditional_leaves (hc : c.Trusted modules depth) {condition : Expr} {body : Statement}
    (ih : Harmless modules depth c body) (rooted : condition.Rooted s.program)
    (rooted' : body.Rooted s.program) (ready : Prepared modules depth s)
    (entered : c.current ∈ s.checked) :
    let v := visitCondition c condition s
    let b := (Checked.mk body v.2.1 v.2.2).next body (Checked.inScope (check c body))
    Leaves modules depth b ∧ v.1.Rooted b.state.program := by
  intro v b
  have later := later_visitCondition hc.keeping (· = c.current) condition s
  have entered' := later.mem entered
  obtain ⟨ready', hcondition⟩ := visitCondition_leaves hc ready rooted
  have behind : Later (· = c.current) v.2.1 b.state :=
    later_branch hc.keeping (v := ⟨body, v.2.1, v.2.2⟩) entered' body
  exact ⟨ih.branch ready' (body.rooted_mono later.evolves.extension rooted') entered',
    v.1.rooted_mono behind.evolves.extension hcondition⟩

theorem loop_leaves (hc : c.Trusted modules depth) {first step body : Statement}
    {v : Expr × State × Except TypeError Unit} {line : Nat} (ihp : Harmless modules depth c step)
    (ih : Harmless modules depth c body) (ready : Prepared modules depth v.2.1)
    (entered : c.current ∈ v.2.1.checked) (hfirst : first.Rooted v.2.1.program)
    (hcondition : v.1.Rooted v.2.1.program) (hstep : step.Rooted v.2.1.program)
    (hbody : body.Rooted v.2.1.program) :
    let p := (Checked.mk step v.2.1 v.2.2).next step (check c step)
    let b := p.next body (Checked.inScope (check c body))
    Leaves modules depth ⟨.forLoop first v.1 p.statement b.statement line, b.state.closeScope,
      b.result⟩ := by
  intro p b
  have stepped : Leaves modules depth p := .next ready hstep (ihp _ hstep ready entered)
  have laterp : Later (· = c.current) v.2.1 p.state :=
    later_next (v := ⟨step, v.2.1, v.2.2⟩) (.refl _ _) step
      fun _ ht => later_check hc.keeping step (ht.subset entered)
  have laterb : Later (· = c.current) p.state b.state :=
    later_branch hc.keeping (laterp.mem entered) body
  have looped : Leaves modules depth b :=
    ih.branch stepped.ready (body.rooted_mono laterp.evolves.extension hbody) (laterp.mem entered)
  have extended := (laterp.trans laterb).evolves.extension
  exact ⟨looped.ready.closeScope, first.rooted_mono extended hfirst,
    v.1.rooted_mono extended hcondition,
    p.statement.rooted_mono laterb.evolves.extension stepped.rooted, looped.rooted⟩

mutual

theorem check_leaves (hc : c.Trusted modules depth) (statement : Statement) :
    Harmless modules depth c statement := by
  intro s rooted ready entered
  cases statement with
  | block statements line =>
    obtain ⟨inside, rooted'⟩ := checkAll_leaves hc statements (s := s.openScope []) rooted
      ready.openScope entered
    exact ⟨inside.closeScope, rooted'⟩
  | assign declares target written value line => exact checkAssign_leaves hc ready rooted
  | ret value line => exact checkReturn_leaves hc ready entered rooted
  | ifThen condition body line =>
    obtain ⟨branch, hcondition⟩ := conditional_leaves hc (check_leaves hc body) rooted.1 rooted.2
      ready entered
    exact ⟨branch.ready, hcondition, branch.rooted⟩
  | ifElse condition body otherwise line =>
    obtain ⟨rooted, rootedb, rootedo⟩ := rooted
    obtain ⟨branch, hcondition⟩ := conditional_leaves hc (check_leaves hc body) rooted rootedb
      ready entered
    have tested := later_visitCondition hc.keeping (· = c.current) condition s
    have laterb := tested.trans (later_branch hc.keeping
      (v := ⟨body, _, (visitCondition c condition s).2.2⟩) (tested.mem entered) body)
    have latero := later_branch hc.keeping (laterb.mem entered) otherwise
    have branch' := (check_leaves hc otherwise).branch branch.ready
      (otherwise.rooted_mono laterb.evolves.extension rootedo) (laterb.mem entered)
    exact ⟨branch'.ready, Expr.rooted_mono latero.evolves.extension _ hcondition,
      Statement.rooted_mono latero.evolves.extension _ branch.rooted, branch'.rooted⟩
  | whileLoop condition body line =>
    obtain ⟨branch, hcondition⟩ := conditional_leaves hc (check_leaves hc body) rooted.1 rooted.2
      ready entered
    exact ⟨branch.ready, hcondition, branch.rooted⟩
  | forLoop first condition step body line =>
    obtain ⟨hfirst, hcondition, hstep, hbody⟩ := rooted
    have begins := check_leaves hc first (s.openScope []) hfirst ready.openScope entered
    have laterf := later_check hc.keeping first (s := s.openScope []) entered
    have later := (later_scopes (· = c.current) s _).trans laterf
    have hcondition' := condition.rooted_mono later.evolves.extension hcondition
    have tested := later_visitCondition hc.keeping (· = c.current) condition
      (check c first (s.openScope [])).state
    obtain ⟨ready', rooted'⟩ := visitCondition_leaves hc begins.ready hcondition'
    rw [check]
    dsimp only
    split
    · have extended := (later.trans tested).evolves.extension
      exact loop_leaves hc (check_leaves hc step) (check_leaves hc body) ready'
        ((later.trans tested).mem entered)
        (Statement.rooted_mono tested.evolves.extension _ begins.rooted) rooted'
        (step.rooted_mono extended hstep) (body.rooted_mono extended hbody)
    · exact loop_leaves hc (v := (condition, (check c first (s.openScope [])).state, .error _))
        (check_leaves hc step) (check_leaves hc body) begins.ready (later.mem entered)
        begins.rooted hcondition' (step.rooted_mono later.evolves.extension hstep)
        (body.rooted_mono later.evolves.extension hbody)
  | call callee arguments target injected line => exact checkCall_leaves hc ready rooted
termination_by structural statement

theorem checkAll_leaves (hc : c.Trusted modules depth) (statements : List Statement) {s : State}
    (rooted : Statement.RootedAll s.program statements) (ready : Prepared modules depth s)
    (entered : c.current ∈ s.checked) :
    Prepared modules depth (checkAll c statements s).2 ∧
      Statement.RootedAll (checkAll c statements s).2.program (checkAll c statements s).1 := by
  cases statements with
  | nil => exact ⟨ready, trivial⟩
  | cons statement rest =>
    have first := check_leaves hc statement s rooted.1 ready entered
    have later := later_check hc.keeping statement entered
    have rest' := Statement.rootedAll_mono later.evolves.extension rest rooted.2
    unfold checkAll
    dsimp only
    split
    · have behind := later_checkAll hc.keeping rest (later.mem entered)
      obtain ⟨ready', others⟩ := checkAll_leaves hc rest rest' first.ready (later.mem entered)
      exact ⟨ready', Statement.rooted_mono behind.evolves.extension _ first.rooted, others⟩
    · rename_i e _
      have recorded := later_record (· = c.current) (check c statement s).state statement.line e
      have behind := later_checkAll hc.keeping rest (recorded.mem (later.mem entered))
      obtain ⟨ready', others⟩ := checkAll_leaves hc rest
        (Statement.rootedAll_mono recorded.evolves.extension rest rest')
        (first.ready.record statement.line e) (recorded.mem (later.mem entered))
      exact ⟨ready', Statement.rooted_mono (recorded.trans behind).evolves.extension _ first.rooted,
        others⟩
termination_by structural statements

end

theorem Orderly.deeper (h : Orderly modules depth s) : Orderly modules (depth + 1) s :=
  ⟨h.toLinked, h.distinct, h.declared, Nat.lt_of_lt_of_le h.room (by omega)⟩

theorem Orderly.markChecked (h : Orderly modules (depth + 1) s) {id : FunctionId}
    (declares : s.program.Declares id) (fresh : id ∉ s.checked) :
    Orderly modules depth (s.markChecked id) := by
  refine ⟨h.toLinked, List.nodup_cons.2 ⟨fresh, h.distinct⟩, fun f hf => ?_, ?_⟩
  · rcases List.mem_cons.1 hf with rfl | hf
    · exact declares
    · exact h.declared f hf
  · have room := h.room
    change s.program.functions.size < depth + (s.checked.length + 1)
    omega

theorem Orderly.enter (h : Orderly modules (depth + 1) s) {id : FunctionId}
    (declares : s.program.Declares id) (fresh : id ∉ s.checked) (m : Module) :
    Prepared modules depth ((s.markChecked id).enter m (s.program.function id)) :=
  ⟨(h.markChecked declares fresh).file _ _,
    knownBindings_function m (h.tables.signatures id)⟩

theorem Orderly.leave (h : Orderly modules depth t) {id : FunctionId} (entered : id ∈ t.checked)
    {body : List Statement} (rooted : Statement.RootedAll t.program body) (outer : State) :
    Orderly modules depth (t.leave outer id body) :=
  have signed := h.tables.signatures id
  (h.modifyFunction entered ({ · with body }) (fun _ => rfl)
    ⟨signed.parameters, signed.returnType⟩ rooted).file _ _

theorem checkBody_orderly (hc : c.Trusted modules depth) {m : Module}
    (h : Orderly modules (depth + 1) s) (declares : s.program.Declares c.current)
    (fresh : c.current ∉ s.checked) :
    Orderly modules (depth + 1) (checkBody c m (s.markChecked c.current)) ∧
      c.current ∈ (checkBody c m (s.markChecked c.current)).checked := by
  have ready := h.enter declares fresh m
  obtain ⟨behind, rooted⟩ := checkAll_leaves hc (s.program.function c.current).body
    (s := (s.markChecked c.current).enter m (s.program.function c.current)) (h.bodies c.current)
    ready List.mem_cons_self
  have later := later_checkAll hc.keeping (s.program.function c.current).body
    (s := (s.markChecked c.current).enter m (s.program.function c.current)) List.mem_cons_self
  have entered := later.mem List.mem_cons_self
  exact ⟨(behind.toOrderly.leave entered rooted _).deeper, entered⟩

/-- Nested checks end with their targets entered, in states in order. -/
theorem checkWithin_orderly (modules : List Module) (depth : Nat) (id : FunctionId) (s : State)
    (h : Orderly modules depth s) (declares : s.program.Declares id) :
    Orderly modules depth (checkWithin modules depth id s) ∧
      id ∈ (checkWithin modules depth id s).checked := by
  induction depth generalizing id s with
  | zero =>
    have room := h.room
    have full := length_checked_le h.distinct h.declared
    omega
  | succ depth ih =>
    have hc : Context.Trusted ⟨modules, id, checkWithin modules depth⟩ modules depth :=
      ⟨rfl, keeps_checkWithin modules depth,
        fun _ _ checked => checkWithin_of_checked modules depth checked, ih⟩
    unfold checkWithin
    split
    · rename_i checked
      exact ⟨h, isChecked_eq_true.1 checked⟩
    · rename_i fresh
      have fresh : id ∉ s.checked := fun checked => fresh (isChecked_eq_true.2 checked)
      have marked := (h.markChecked declares fresh).deeper
      dsimp only
      split
      · exact ⟨marked, List.mem_cons_self⟩
      · split
        · exact ⟨marked, List.mem_cons_self⟩
        · exact checkBody_orderly hc h declares fresh

theorem trusted_checkWithin (modules : List Module) (depth : Nat) (current : FunctionId) :
    Context.Trusted ⟨modules, current, checkWithin modules depth⟩ modules depth :=
  ⟨rfl, keeps_checkWithin modules depth,
    fun _ _ checked => checkWithin_of_checked modules depth checked,
    checkWithin_orderly modules depth⟩

end ObjectLang.Typing
