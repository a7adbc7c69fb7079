import ObjectLang.Proofs.Typing.Later
import ObjectLang.Proofs.Typing.Settled
set_option autoImplicit false

/-!
# Visiting checked expressions again

A checked expression may be visited again: a receiver becomes an argument, the arguments of a call
are visited before and after its target is known, and whole programs are checked again. Such a visit
finds the settled types. It leaves the expression as it is, unless the operands of an operator were
both taken for `Void` before and differ now: that is the one thing that can be refused.
-/

namespace ObjectLang.Typing

/-- `Q` relates states of the same program, and a state in which the check has failed, in the sense
    of `F`, is not left any more. -/
structure Calm (Q : State → State → Prop) (F : State → Prop) : Prop where
  refl : ∀ s, Q s s
  trans : ∀ s t u, Q s t → Q t u → Q s u
  program : ∀ s t, Q s t → t.program = s.program
  failed : ∀ O s t, Later O s t → F s → F t

theorem Calm.fails {Q : State → State → Prop} {F : State → Prop} (calm : Calm Q F) {s t : State}
    (h : Keeps s t) (hs : F s) : F t := calm.failed _ s t h.toLater hs

/-- Behind `s`, checking a target that was found before is calm or fails. -/
def Answers (c : Context) (returns : FunctionId → TypeId → Prop) (Q : State → State → Prop)
    (F : State → Prop) (s : State) : Prop :=
  ∀ f type, returns f type → ∀ t, Q s t → ¬F (c.checkTarget f t) → Q t (c.checkTarget f t)

def Revisited {n : Nat} (p : Program) (Q : State → State → Prop) (e : Expr) (s : State)
    (v : Visited n) : Prop :=
  e.agrees p = true ∧ v.result = .ok (p.settledType e) ∧ v.expr = e ∧ Q s v.state ∨
    e.agrees p = false ∧ ∃ fault, v.result = .error fault

def RevisitedAll {n : Nat} (p : Program) (Q : State → State → Prop) (es : List Expr) (s : State)
    (v : VisitedList n) : Prop :=
  Expr.allAgree p es = true ∧ v.result = .ok (es.map p.settledType) ∧ v.exprs = es ∧ Q s v.state ∨
    Expr.allAgree p es = false ∧ ∃ fault, v.result = .error fault

section

variable {p : Program} {c : Context} {returns : FunctionId → TypeId → Prop}
  {Q : State → State → Prop} {F : State → Prop}

theorem Answers.after (calm : Calm Q F) {s t : State} (h : Answers c returns Q F s)
    (ht : Q s t) : Answers c returns Q F t :=
  fun f type hf u hu => h f type hf u (calm.trans s t u ht hu)

theorem keeps_of_next {n : Nat} {v : Visited n} {e : Expr} {visit : State → Visited e.weight}
    (hv : ∀ t, Keeps t (visit t).state) : Keeps v.state (v.next visit).state :=
  keeps_next (.refl _) hv

theorem equals_void (hp : p.Tables) {b : TypeId} (h : p.types.equals .void b = true) :
    b = .void ∨ b = .object := by
  have hget : p.types.get .void = .primitive .void := hp.primitives .void
  have hne : ((TypeId.void == TypeId.object) : Bool) = false := rfl
  rw [Registry.equals_eq, hget, hne] at h
  simp only [Bool.or_false, Bool.or_eq_true, beq_iff_eq] at h
  rcases h with h | h
  · exact .inl h.symm
  · exact .inr h

theorem equals_object (r : Registry) (a : TypeId) : r.equals a .object = true := by
  rw [Registry.equals_eq]
  simp

section Rules

variable {Γ : Scopes Meaning} (hp : p.Tables)
  (hr : ∀ f type, returns f type → type = (p.function f).returnType ∨ type = .void)
include hp hr

theorem HasType.settled {e : Expr} {type : TypeId} (h : HasType p returns Γ e type) :
    type = p.settledType e ∨ type = .void := by
  rcases h.settledType_or (E := True) hp fun f t ht => (hr f t ht).imp_right (⟨trivial, ·⟩)
    with settled | ⟨-, void⟩
  · exact .inl settled
  · exact .inr void

theorem HasType.eq_settledType_of_ne {e : Expr} {type : TypeId} (h : HasType p returns Γ e type)
    (filled : type ≠ .void) : type = p.settledType e := by
  rcases h.settled hp hr with settled | void
  · exact settled
  · exact absurd void filled

/-- Parameters accept the settled types of arguments whose types they accepted. -/
theorem HaveTypes.checkPairs_settled {es : List Expr} {types parameters : List TypeId}
    (h : HaveTypes p returns Γ es types) (filled : ∀ x ∈ parameters, x ≠ .void) (skipped : Nat)
    (rule : checkPairs p ((types.zip parameters).drop skipped) = .ok ()) :
    checkPairs p (((es.map p.settledType).zip parameters).drop skipped) = .ok () := by
  rw [checkPairs_eq_ok] at rule ⊢
  induction es generalizing types parameters skipped with
  | nil => simp
  | cons e rest ih =>
    cases h with
    | cons _ _ type types head tail =>
      cases parameters with
      | nil => simp
      | cons parameter parameters =>
        have filled' : ∀ x ∈ parameters, x ≠ .void :=
          fun x hx => filled x (List.mem_cons_of_mem _ hx)
        cases skipped with
        | succ skipped => exact ih tail filled' skipped rule
        | zero =>
          have first : p.types.equals type parameter = true :=
            rule (type, parameter) List.mem_cons_self
          intro x hx
          rcases List.mem_cons.1 hx with rfl | hx
          · rcases head.settled hp hr with settled | void
            · exact settled ▸ first
            · rw [void] at first
              rcases equals_void hp first with hparameter | hparameter
              · exact absurd hparameter (filled parameter List.mem_cons_self)
              · exact hparameter ▸ equals_object _ _
          · exact ih tail filled' 0 (fun x hx => rule x (List.mem_cons_of_mem _ hx)) x hx

omit hr in
theorem isObject_dereference_void : p.types.isObject (p.types.dereference .void) = false := by
  have hget : p.types.get .void = .primitive .void := hp.primitives .void
  simp only [Registry.isObject, Registry.dereference, hget]
  rfl

theorem HasType.fieldType_settled {base : Expr} {owner type : TypeId} {name : String}
    (h : HasType p returns Γ base owner) (rule : fieldType p owner name = .ok type) :
    fieldType p (p.settledType base) name = .ok type := by
  have filled : owner ≠ .void := by
    rintro rfl
    have object := (fieldType_eq_ok.1 rule).1
    rw [isObject_dereference_void hp] at object
    cases object
  exact h.eq_settledType_of_ne hp hr filled ▸ rule

theorem HasType.elementType_settled {base : Expr} {array type : TypeId}
    (h : HasType p returns Γ base array) (rule : elementType p array = .ok type) :
    elementType p (p.settledType base) = .ok type := by
  have filled : array ≠ .void := by
    rintro rfl
    have found := elementType_eq_ok.1 rule
    rw [element?_dereference_void hp] at found
    cases found
  exact h.eq_settledType_of_ne hp hr filled ▸ rule

theorem HasType.settled_int {e : Expr} (h : HasType p returns Γ e .int) :
    p.settledType e = .int :=
  (h.eq_settledType_of_ne hp hr (by decide)).symm

end Rules

theorem HaveTypes.length_eq {Γ : Scopes Meaning} {es : List Expr} {types : List TypeId}
    (h : HaveTypes p returns Γ es types) : types.length = es.length := by
  induction es generalizing types with
  | nil =>
    cases h
    rfl
  | cons e rest ih =>
    cases h with
    | cons _ _ type types head tail => rw [List.length_cons, ih tail, List.length_cons]

theorem HaveTypes.settledType_literals {Γ : Scopes Meaning} {es : List Expr}
    {types : List TypeId} (h : HaveTypes p returns Γ es types)
    (literals : ∀ e ∈ es, e.isLiteral = true) : ∀ e ∈ es, p.settledType e ∈ types := by
  induction es generalizing types with
  | nil => exact nofun
  | cons e rest ih =>
    cases h with
    | cons _ _ type types head tail =>
      intro x hx
      rcases List.mem_cons.1 hx with rfl | hx
      · have literal := literals x List.mem_cons_self
        cases head <;> first | exact List.mem_cons_self | cases literal
      · exact List.mem_cons_of_mem _
          (ih tail (fun y hy => literals y (List.mem_cons_of_mem _ hy)) x hx)

theorem next_ok {n : Nat} {v : Visited n} {type : TypeId} (h : v.result = .ok type) {e : Expr}
    (visit : State → Visited e.weight) : v.next visit = visit v.state := by
  simp only [Visited.next, h]

theorem next_error {n : Nat} {v : Visited n} {fault : TypeError} (h : v.result = .error fault)
    {e : Expr} (visit : State → Visited e.weight) :
    v.next visit = .leaf e v.state (.error fault) := by
  simp only [Visited.next, h]

theorem visitAll_cons_ok (accept : Program → TypeId → Except TypeError Unit) {e : Expr}
    {s : State} {type : TypeId} (h : (visit c e s).result = .ok type)
    (accepted : accept (visit c e s).state.program type = .ok ()) {rest : List Expr} :
    let v := visit c e s
    let vs := visitAll c accept rest v.state
    (visitAll c accept (e :: rest) s).exprs = v.expr :: vs.exprs ∧
      (visitAll c accept (e :: rest) s).state = vs.state ∧
      (visitAll c accept (e :: rest) s).result = vs.result.map fun types => type :: types := by
  have bound : ((visit c e s).result.bind fun type =>
      (accept (visit c e s).state.program type).map fun _ => type) = .ok type := by
    rw [h]
    exact congrArg (Except.map fun _ => type) accepted
  rw [visitAll]
  dsimp only
  rw [bound]
  exact ⟨rfl, rfl, rfl⟩

/-- A list is visited without an error if all of it is. -/
theorem visitAll_cons_inv {accept : Program → TypeId → Except TypeError Unit} {e : Expr}
    {rest : List Expr} {s : State} {types : List TypeId}
    (ok : (visitAll c accept (e :: rest) s).result = .ok types) :
    ∃ type behind, types = type :: behind ∧ (visit c e s).result = .ok type ∧
      accept (visit c e s).state.program type = .ok () ∧
        (visitAll c accept rest (visit c e s).state).result = .ok behind := by
  rw [visitAll] at ok
  dsimp only at ok
  split at ok
  · cases ok
  · rename_i type bound
    obtain ⟨found, result, judged⟩ := bind_eq_ok.1 bound
    obtain ⟨⟨⟩, accepted, rfl⟩ := map_eq_ok.1 judged
    obtain ⟨behind, okb, rfl⟩ := map_eq_ok.1 ok
    exact ⟨found, behind, rfl, result, accepted, okb⟩

theorem visitAll_cons_error {accept : Program → TypeId → Except TypeError Unit} {e : Expr}
    {rest : List Expr} {s : State} {fault : TypeError} (h : (visit c e s).result = .error fault) :
    (visitAll c accept (e :: rest) s).result = .error fault := by
  rw [visitAll]
  dsimp only
  rw [h]
  rfl

theorem arrayType_found {element type : TypeId} {s : State}
    (found : s.program.types.findArray? element = some type) :
    arrayType element s (.ok ()) = (s, .ok type) := by
  simp only [arrayType, Program.arrayOf, Registry.arrayOf_of_findArray? found]

theorem referenceType_found {n : Nat} {place : Visited n} {referent type : TypeId}
    (h : place.result = .ok referent)
    (found : place.state.program.types.findReference? referent = some type) :
    referenceType place = (place.state, .ok type) := by
  simp only [referenceType, h, Program.referenceTo, Registry.referenceTo_of_findReference? found]

variable {Γ : Scopes Meaning}

variable (p c returns Q F Γ) in
/-- Wherever targets that were found before are found again, a visit of the expression finds its
    settled type and changes nothing, or the operands of an operator differ. -/
def Revisits (e : Expr) : Prop :=
  ∀ s : State, s.program = p → s.scopes = Γ → Answers c returns Q F s →
    ¬F (visit c e s).state → Revisited p Q e s (visit c e s)

variable (p c returns Q F Γ) in
def RevisitsAll (accept : Program → TypeId → Except TypeError Unit) (es : List Expr) : Prop :=
  ∀ s : State, s.program = p → s.scopes = Γ → Answers c returns Q F s →
    ¬F (visitAll c accept es s).state → RevisitedAll p Q es s (visitAll c accept es s)

section Revisits

variable (calm : Calm Q F)
include calm

namespace Revisits

theorem binary (hc : c.Keeping) (op : BinaryOperator) {lhs rhs : Expr} (line : Nat)
    (left : Revisits p c returns Q F Γ lhs) (right : Revisits p c returns Q F Γ rhs) :
    Revisits p c returns Q F Γ (.binary op lhs rhs line) := by
  intro s program scopes answers fine
  rw [visit] at fine ⊢
  unfold Revisited
  dsimp only at fine ⊢
  have fine' : ¬F (visit c lhs s).state :=
    fun hf => fine (calm.fails (keeps_of_next (keeps_visit hc rhs)) hf)
  rcases left s program scopes answers fine' with
    ⟨agrees, result, expr, quiet⟩ | ⟨refused, fault, result⟩
  · rw [next_ok result] at fine ⊢
    have program' := (calm.program _ _ quiet).trans program
    have scopes' := (keeps_visit hc lhs s).scopes.trans scopes
    rcases right _ program' scopes' (answers.after calm quiet) fine with
      ⟨agrees', result', expr', quiet'⟩ | ⟨refused, fault, result'⟩
    · have program'' := (calm.program _ _ quiet').trans program'
      rw [result, result', program'', expr, expr', Expr.agrees, agrees, agrees',
        Program.settledType]
      cases equal : p.types.equals (p.settledType lhs) (p.settledType rhs) with
      | true =>
        refine .inl ⟨rfl, ?_, rfl, calm.trans _ _ _ quiet quiet'⟩
        exact binaryType_eq_ok.2 ⟨equal, rfl⟩
      | false =>
        refine .inr ⟨rfl, .operandMismatch (p.types.name (p.settledType lhs))
          (p.types.name (p.settledType rhs)), ?_⟩
        change binaryType p op _ _ = _
        rw [binaryType, equal]
        rfl
    · rw [result, result']
      refine .inr ⟨?_, fault, rfl⟩
      rw [Expr.agrees, refused, Bool.and_false, Bool.false_and]
  · rw [next_error result, result]
    refine .inr ⟨?_, fault, rfl⟩
    rw [Expr.agrees, refused, Bool.false_and, Bool.false_and]

theorem field {base : Expr} {name : String} {type : TypeId} (line : Nat)
    (object : Revisits p c returns Q F Γ base)
    (rule : fieldType p (p.settledType base) name = .ok type) :
    Revisits p c returns Q F Γ (.field base name (some type) line) := by
  intro s program scopes answers fine
  rw [visit] at fine ⊢
  unfold fieldOf Revisited
  dsimp only
  rcases object s program scopes answers fine with
    ⟨agrees, result, expr, quiet⟩ | ⟨refused, fault, result⟩
  · have program' := (calm.program _ _ quiet).trans program
    have found : (Except.ok (p.settledType base)).bind (fun type => fieldType p type name) =
        .ok type := rule
    rw [result, expr, program', found]
    exact .inl ⟨agrees, rfl, rfl, quiet⟩
  · rw [result]
    exact .inr ⟨refused, fault, rfl⟩

theorem allocate {element type : TypeId} {size : Expr} (line : Nat)
    (sized : Revisits p c returns Q F Γ size) (int : p.settledType size = .int)
    (found : p.types.findArray? element = some type) :
    Revisits p c returns Q F Γ (.allocate element size line) := by
  intro s program scopes answers fine
  rw [visit] at fine ⊢
  unfold Revisited
  have fine' : ¬F (visit c size s).state :=
    fun hf => fine (calm.fails (keeps_arrayType element _ _) hf)
  rcases sized s program scopes answers fine' with
    ⟨agrees, result, expr, quiet⟩ | ⟨refused, fault, result⟩
  · have program' := (calm.program _ _ quiet).trans program
    have counted : (Except.ok (p.settledType size)).bind (checkSize p) = .ok () := by
      rw [int]
      exact checkSize_eq_ok.2 rfl
    rw [result, program', counted, arrayType_found (program' ▸ found)]
    dsimp only
    rw [expr]
    refine .inl ⟨agrees, ?_, rfl, quiet⟩
    rw [Program.settledType, found]
    rfl
  · rw [result]
    exact .inr ⟨refused, fault, rfl⟩

theorem array {element type : TypeId} {items : List Expr} (line : Nat)
    (all : RevisitsAll p c returns Q F Γ (checkItem element) items)
    (found : p.types.findArray? element = some type) :
    Revisits p c returns Q F Γ (.array element items line) := by
  intro s program scopes answers fine
  rw [visit] at fine ⊢
  unfold Revisited
  have fine' : ¬F (visitAll c (checkItem element) items s).state :=
    fun hf => fine (calm.fails (keeps_arrayType element _ _) hf)
  rcases all s program scopes answers fine' with
    ⟨agrees, result, exprs, quiet⟩ | ⟨refused, fault, result⟩
  · have program' := (calm.program _ _ quiet).trans program
    have mapped : (Except.ok (ε := TypeError) (items.map p.settledType)).map (fun _ => ()) =
        .ok () := rfl
    rw [result, mapped, arrayType_found (program' ▸ found)]
    dsimp only
    rw [exprs]
    refine .inl ⟨agrees, ?_, rfl, quiet⟩
    rw [Program.settledType, found]
    rfl
  · rw [result]
    exact .inr ⟨refused, fault, rfl⟩

theorem index (hc : c.Keeping) {base place : Expr} {type : TypeId} (line : Nat)
    (stored : Revisits p c returns Q F Γ base) (placed : Revisits p c returns Q F Γ place)
    (rule : elementType p (p.settledType base) = .ok type) (int : p.settledType place = .int) :
    Revisits p c returns Q F Γ (.index base place line) := by
  intro s program scopes answers fine
  rw [visit] at fine ⊢
  unfold Revisited
  dsimp only at fine ⊢
  have fine' : ¬F (visit c base s).state :=
    fun hf => fine (calm.fails (keeps_of_next (v := (visit c base s).judge elementType)
      (keeps_visit hc place)) hf)
  rcases stored s program scopes answers fine' with
    ⟨agrees, result, expr, quiet⟩ | ⟨refused, fault, result⟩
  · have program' := (calm.program _ _ quiet).trans program
    have scopes' := (keeps_visit hc base s).scopes.trans scopes
    have judged : ((visit c base s).judge elementType).result = .ok type := by
      rw [Visited.judge, result, program']
      exact rule
    rw [next_ok judged] at fine ⊢
    rw [judged]
    dsimp only [Visited.judge] at fine ⊢
    rcases placed _ program' scopes' (answers.after calm quiet) fine with
      ⟨agrees', result', expr', quiet'⟩ | ⟨refused, fault, result'⟩
    · rw [result', expr, expr', int]
      refine .inl ⟨?_, ?_, rfl, calm.trans _ _ _ quiet quiet'⟩
      · rw [Expr.agrees, agrees, agrees']
        rfl
      · rw [Program.settledType, elementType_eq_ok.1 rule]
        rfl
    · rw [result']
      refine .inr ⟨?_, fault, rfl⟩
      rw [Expr.agrees, refused, Bool.and_false]
  · have judged : ((visit c base s).judge elementType).result = .error fault := by
      rw [Visited.judge, result]
      rfl
    rw [next_error judged]
    refine .inr ⟨?_, fault, rfl⟩
    rw [Expr.agrees, refused, Bool.false_and]

theorem reference {expr : Expr} {type : TypeId} (line : Nat) (named : expr.isName = true)
    (referent : Revisits p c returns Q F Γ expr)
    (found : p.types.findReference? (p.settledType expr) = some type) :
    Revisits p c returns Q F Γ (.reference expr line) := by
  intro s program scopes answers fine
  rw [visit, if_pos named] at fine ⊢
  unfold Revisited
  dsimp only
  have fine' : ¬F (visit c expr s).state :=
    fun hf => fine (calm.fails (keeps_referenceType _) hf)
  rcases referent s program scopes answers fine' with
    ⟨agrees, result, expr', quiet⟩ | ⟨refused, fault, result⟩
  · have program' := (calm.program _ _ quiet).trans program
    have found' : (visit c expr s).state.program.types.findReference? (p.settledType expr) =
        some type := by
      rw [program']
      exact found
    rw [referenceType_found result found']
    dsimp only
    rw [expr']
    refine .inl ⟨agrees, ?_, rfl, quiet⟩
    rw [Program.settledType, found]
    rfl
  · unfold referenceType
    rw [result]
    exact .inr ⟨refused, fault, rfl⟩

omit calm in
theorem cast {expr : Expr} (type : TypeId) (line : Nat)
    (source : Revisits p c returns Q F Γ expr) :
    Revisits p c returns Q F Γ (.cast expr type line) := by
  intro s program scopes answers fine
  rw [visit] at fine ⊢
  unfold Revisited
  dsimp only
  rcases source s program scopes answers fine with
    ⟨agrees, result, expr', quiet⟩ | ⟨refused, fault, result⟩
  · rw [result, expr']
    exact .inl ⟨agrees, rfl, rfl, quiet⟩
  · rw [result]
    exact .inr ⟨refused, fault, rfl⟩

/-- Checking the target again comes first, and then the arguments pass for its parameters. -/
theorem call (hc : c.Keeping) {callee : Expr} {arguments : List Expr} {target : FunctionId}
    {injected : Bool} {type : TypeId} (line : Nat) (returned : returns target type)
    (all : RevisitsAll p c returns Q F Γ (fun _ _ => .ok ()) arguments)
    (rule : callType p target injected (arguments.map p.settledType) =
      .ok (p.function target).returnType) :
    Revisits p c returns Q F Γ (.call callee arguments (some target) injected line) := by
  intro s program scopes answers fine
  rw [visit] at fine ⊢
  unfold Revisited
  dsimp only at fine ⊢
  have fine' : ¬F (c.checkTarget target s) :=
    fun hf => fine (calm.fails (keeps_visitAll hc _ arguments _) hf)
  have quiet := answers target type returned s (calm.refl s) fine'
  have program' := (calm.program _ _ quiet).trans program
  have scopes' := (hc target s).scopes.trans scopes
  rcases all _ program' scopes' (answers.after calm quiet) fine with
    ⟨agrees, result, exprs, quiet'⟩ | ⟨refused, fault, result⟩
  · have program'' := (calm.program _ _ quiet').trans program'
    rw [result, program'', exprs]
    exact .inl ⟨agrees, rule, rfl, calm.trans _ _ _ quiet quiet'⟩
  · rw [result]
    exact .inr ⟨refused, fault, rfl⟩

end Revisits

theorem RevisitsAll.cons (hc : c.Keeping) {accept : Program → TypeId → Except TypeError Unit}
    {e : Expr} {rest : List Expr} (head : Revisits p c returns Q F Γ e)
    (accepted : accept p (p.settledType e) = .ok ())
    (tail : RevisitsAll p c returns Q F Γ accept rest) :
    RevisitsAll p c returns Q F Γ accept (e :: rest) := by
  intro s program scopes answers fine
  have fine' : ¬F (visit c e s).state :=
    fun hf => fine (calm.fails (keeps_of_visitAll hc accept e rest s) hf)
  unfold RevisitedAll
  rcases head s program scopes answers fine' with
    ⟨agrees, result, expr, quiet⟩ | ⟨refused, fault, result⟩
  · have program' := (calm.program _ _ quiet).trans program
    have scopes' := (keeps_visit hc e s).scopes.trans scopes
    obtain ⟨exprs_eq, state_eq, result_eq⟩ :=
      visitAll_cons_ok accept result (program' ▸ accepted)
    rw [state_eq] at fine
    rw [exprs_eq, state_eq, result_eq]
    rcases tail _ program' scopes' (answers.after calm quiet) fine with
      ⟨agrees', result', exprs, quiet'⟩ | ⟨refused, fault, result'⟩
    · rw [result', exprs, expr]
      refine .inl ⟨?_, rfl, rfl, calm.trans _ _ _ quiet quiet'⟩
      rw [Expr.allAgree, agrees, agrees']
      rfl
    · rw [result']
      refine .inr ⟨?_, fault, rfl⟩
      rw [Expr.allAgree, refused, Bool.and_false]
  · rw [visitAll_cons_error result]
    refine .inr ⟨?_, fault, rfl⟩
    rw [Expr.allAgree, refused, Bool.false_and]

end Revisits

theorem HaveTypes.callType_settled (hp : p.Tables)
    (hr : ∀ f type, returns f type → type = (p.function f).returnType ∨ type = .void)
    {arguments : List Expr} {types : List TypeId} (typed : HaveTypes p returns Γ arguments types)
    {target : FunctionId} {injected : Bool}
    (arity : (p.function target).parameters.length = types.length)
    (pairs : checkPairs p ((types.zip (p.function target).parameterTypes).drop
      (if injected then 1 else 0)) = .ok ()) :
    callType p target injected (arguments.map p.settledType) =
      .ok (p.function target).returnType := by
  have parameters : ∀ x ∈ (p.function target).parameterTypes, x ≠ .void := by
    intro x hx
    obtain ⟨parameter, hparameter, rfl⟩ := List.mem_map.1 hx
    exact ((hp.signatures target).parameters parameter hparameter).2
  refine callType_eq_ok.2 ⟨?_, typed.checkPairs_settled hp hr parameters _ pairs, rfl⟩
  rw [arity, typed.length_eq, List.length_map]

mutual

theorem HasType.revisit (calm : Calm Q F) (hc : c.Keeping) (hp : p.Tables)
    (hr : ∀ f type, returns f type → type = (p.function f).returnType ∨ type = .void)
    {e : Expr} {type : TypeId} (h : HasType p returns Γ e type) : Revisits p c returns Q F Γ e := by
  cases h with
  | binary op lhs rhs line a b _ left right rule =>
    exact .binary calm hc op line (left.revisit calm hc hp hr) (right.revisit calm hc hp hr)
  | literal value line =>
    intro s program scopes answers fine
    rw [visit]
    exact .inl ⟨rfl, rfl, rfl, calm.refl s⟩
  | var name _ line bound =>
    intro s program scopes answers fine
    rw [visit, visitVar]
    unfold Revisited
    rw [scopes, bound]
    exact .inl ⟨rfl, rfl, rfl, calm.refl s⟩
  | field base name line owner _ object rule =>
    exact .field calm line (object.revisit calm hc hp hr) (object.fieldType_settled hp hr rule)
  | new _ line known object =>
    intro s program scopes answers fine
    rw [visit]
    exact .inl ⟨rfl, rfl, rfl, calm.refl s⟩
  | allocate element size line count _ sized rule found =>
    obtain rfl := checkSize_eq_ok.1 rule
    exact .allocate calm line (sized.revisit calm hc hp hr) (sized.settled_int hp hr) found
  | array element items line types _ literals typed rule found =>
    have accepts : ∀ e ∈ items, checkItem element p (p.settledType e) = .ok () :=
      fun e he => rule _ (typed.settledType_literals literals e he)
    exact .array calm line (typed.revisit calm hc hp hr accepts) found
  | index base place line array index _ stored rule placed int =>
    obtain rfl := checkIndex_eq_ok.1 int
    exact .index calm hc line (stored.revisit calm hc hp hr) (placed.revisit calm hc hp hr)
      (stored.elementType_settled hp hr rule) (placed.settled_int hp hr)
  | reference expr line referent _ named typed found =>
    exact .reference calm line named (typed.revisit calm hc hp hr)
      (typed.settledType_name named ▸ found)
  | cast expr _ line source typed known => exact .cast _ line (typed.revisit calm hc hp hr)
  | call callee arguments target injected line types _ leads typed arity pairs receiver returned =>
    exact .call calm hc line returned (typed.revisit calm hc hp hr fun _ _ => rfl)
      (typed.callType_settled hp hr arity pairs)
termination_by structural e

theorem HaveTypes.revisit (calm : Calm Q F) (hc : c.Keeping) (hp : p.Tables)
    (hr : ∀ f type, returns f type → type = (p.function f).returnType ∨ type = .void)
    {es : List Expr} {types : List TypeId} (h : HaveTypes p returns Γ es types)
    {accept : Program → TypeId → Except TypeError Unit}
    (accepts : ∀ e ∈ es, accept p (p.settledType e) = .ok ()) :
    RevisitsAll p c returns Q F Γ accept es := by
  cases h with
  | nil =>
    intro s program scopes answers fine
    rw [visitAll]
    exact .inl ⟨rfl, rfl, rfl, calm.refl s⟩
  | cons e rest type types head tail =>
    exact .cons calm hc (head.revisit calm hc hp hr) (accepts e List.mem_cons_self)
      (tail.revisit calm hc hp hr fun x hx => accepts x (List.mem_cons_of_mem _ hx))
termination_by structural es

end

end
end ObjectLang.Typing
