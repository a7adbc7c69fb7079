import ObjectLang.Proofs.Calls.Call
import ObjectLang.Proofs.Machine.Blame
set_option autoImplicit false

/-!
# Functions that are reached

The functions that a run can come to: those it starts from and, with each of them, whatever dispatch
makes of the targets of its calls. Which faults a run can end with depends only on the calls in the
bodies of those functions.
-/

namespace ObjectLang

def Call.Receives (call : Call) (receiver : Option Value) : Prop :=
  call.injected = false → receiver = none

/-- What a run can come to from the functions in `start`. -/
inductive Program.Reaches (p : Program) (start : FunctionId → Prop) : FunctionId → Prop
  | start {f : FunctionId} (first : start f) : Reaches p start f
  | call {f target : FunctionId} {call : Call} {receiver : Option Value} {heap : Heap}
    (reached : Reaches p start f) (written : (p.function f).isNative = false)
    (calls : call ∈ Statement.allCalls (p.function f).body) (bound : call.target = some target)
    (receives : call.Receives receiver) :
    Reaches p start (Machine.dispatch p target receiver heap)

namespace Machine

variable {P : Fault.Cause → Prop}

/-- What an evaluation needs of its context to be blamed on nothing outside `P`: what calls in `ok` do,
    and that `P` has everything else that evaluations are blamed on. -/
structure Context.Answers (P : Fault.Cause → Prop) (ok : Call → Prop) (c : Context) : Prop where
  plain : ∀ cause : Fault.Cause, cause.isPlain = true → P cause
  lookups : ∀ name, P (.unknownVariable name)
  unbound : ∀ call, ok call → call.target = none → ∀ name, P (.unresolvedCall name)
  bound : ∀ call target, ok call → call.target = some target → ∀ receiver heap arguments line,
    call.Receives receiver → arguments.length = call.count →
      Blames P (c.call (dispatch c.program target receiver heap) arguments line)

section Bodies

variable {ok : Call → Prop} {c : Context}

theorem blames_readVar (lookups : ∀ name, P (.unknownVariable name)) (name : String)
    (line : Nat) : Blames P (readVar name line) := by
  refine (Blames.read _).bind fun found => ?_
  cases found with
  | some value => exact .pure value
  | none => exact .fail line (lookups _)

theorem blames_callTarget (h : c.Answers P ok) {call : Call} (known : ok call)
    {target : FunctionId} (bound : call.target = some target) {arguments : List Value}
    (count : arguments.length = call.count) (line : Nat) :
    Blames P (callTarget c target call.injected arguments line) := by
  let receiver := if call.injected then arguments.head? else none
  have receives : call.Receives receiver := fun free => if_neg (Bool.eq_false_iff.1 free)
  intro s
  exact h.bound call target known bound receiver s.heap arguments line receives count s

theorem yields_evalAll (c : Context) (es : List Expr) :
    Yields (fun values => values.length = es.length) (evalAll c es) := by
  induction es with
  | nil => exact fun _ => rfl
  | cons e rest ih =>
    intro s
    refine Eval.meets_bind (R := fun _ _ => True) ?_ fun value t _ => ?_
    · exact Outcome.Meets.mono (Q := fun _ _ => True) (E := fun _ _ => True)
        (by cases eval c e s <;> trivial) (fun _ _ h => h) fun _ _ h => h
    · exact Eval.meets_bind (ih t) fun values u same => congrArg (· + 1) same

mutual

theorem blames_eval (h : c.Answers P ok) (e : Expr) (calls : ∀ call ∈ e.calls, ok call) :
    Blames P (eval c e) := by
  cases e with
  | binary op lhs rhs line =>
    obtain ⟨left, right⟩ := List.forall_mem_append.1 calls
    exact (blames_eval h lhs left).bind fun _ => (blames_eval h rhs right).bind fun _ =>
      .ofPlain h.plain _ (op.plain_apply _ _)
  | literal value line => exact .pure _
  | var name type line => exact blames_readVar h.lookups name line
  | field base name type line =>
    exact (blames_eval h base calls).bind fun _ => blames_readField h.plain _ _ _
  | new type line => exact .onHeap _
  | allocate element size line =>
    refine (blames_eval h size calls).bind fun _ => ?_
    refine (Blames.ofPlain h.plain _ (Value.plain_asInt _)).bind fun _ => ?_
    refine (Blames.ofPlain h.plain _ (Value.plain_count _)).bind fun _ => ?_
    exact (Blames.onHeap _).bind fun _ => blames_allocate h.plain _ _ _
  | array element items line =>
    exact (blames_evalAll h items calls).bind fun _ => .onHeap _
  | index base place line =>
    obtain ⟨stored, placed⟩ := List.forall_mem_append.1 calls
    refine (blames_eval h base stored).bind fun _ => ?_
    refine (Blames.ofPlain h.plain _ (Value.plain_asArray _)).bind fun _ => ?_
    exact (blames_eval h place placed).bind fun _ => blames_readSlot h.plain _ _ _
  | reference expr line => exact blames_eval h expr calls
  | cast expr type line =>
    exact (blames_eval h expr calls).bind fun _ => .ofPlain h.plain _ (Value.plain_cast _ _)
  | call callee arguments target injected line =>
    obtain ⟨known, inside⟩ := List.forall_mem_cons.1 calls
    cases target with
    | some target =>
      exact (blames_evalAll h arguments inside).bind_of (yields_evalAll c arguments)
        fun values count => blames_callTarget h known rfl count line
    | none => exact .fail line (h.unbound _ known rfl _)
termination_by structural e

theorem blames_evalAll (h : c.Answers P ok) (es : List Expr)
    (calls : ∀ call ∈ Expr.allCalls es, ok call) : Blames P (evalAll c es) := by
  cases es with
  | nil => exact .pure _
  | cons e rest =>
    obtain ⟨first, others⟩ := List.forall_mem_append.1 calls
    exact (blames_eval h e first).bind fun _ => (blames_evalAll h rest others).bind fun _ =>
      .pure _
termination_by structural es

end

theorem blames_writeVar (lookups : ∀ name, P (.unknownVariable name)) (name : String)
    (value : Value) (line : Nat) : Blames P (writeVar name value line) := by
  intro s
  unfold writeVar
  split
  · trivial
  · exact lookups name

theorem blames_store (h : c.Answers P ok) (target : Expr) (value : Value) (line : Nat)
    (calls : ∀ call ∈ target.calls, ok call) : Blames P (store c target value line) := by
  cases target with
  | var name type at_ => exact blames_writeVar h.lookups name value line
  | field base name type at_ =>
    exact (blames_eval h base calls).bind fun _ =>
      (Blames.ofPlain h.plain _ (Value.plain_asObject _)).bind fun _ => .onHeap _
  | index base place at_ =>
    obtain ⟨stored, placed⟩ := List.forall_mem_append.1 calls
    refine (blames_eval h base stored).bind fun _ => ?_
    refine (Blames.ofPlain h.plain _ (Value.plain_asArray _)).bind fun _ => ?_
    exact (blames_eval h place placed).bind fun _ => blames_writeSlot h.plain _ _ _ _
  | _ => exact .fail line (h.plain _ rfl)

theorem blames_assign (h : c.Answers P ok) (declares : Bool) (target value : Expr) (line : Nat)
    (given : ∀ call ∈ value.calls, ok call) (stored : ∀ call ∈ target.calls, ok call) :
    Blames P (assign c declares target value line) := by
  refine (blames_eval h value given).bind fun v => ?_
  split
  · exact .declare _ v
  · exact blames_store h target v line stored

theorem blames_condition (h : c.Answers P ok) (e : Expr) (line : Nat)
    (calls : ∀ call ∈ e.calls, ok call) : Blames P (condition c e line) :=
  (blames_eval h e calls).bind fun _ => .ofPlain h.plain _ (Value.plain_asBool _)

theorem Blames.unlessReturned {α : Type} {x : Eval α} (h : Blames P x) (value : α) :
    Blames P (Eval.hasReturned >>= fun returned => if returned then Pure.pure value else x) := by
  refine (Blames.read _).bind fun returned => ?_
  split
  · exact .pure value
  · exact h

mutual

theorem blames_exec (h : c.Answers P ok) (statement : Statement)
    (calls : ∀ call ∈ statement.calls, ok call) : Blames P (exec c statement) := by
  cases statement with
  | block statements line => exact (blames_execAll h statements calls).inScope
  | assign declares target written value line =>
    obtain ⟨given, stored⟩ := List.forall_mem_append.1 calls
    exact blames_assign h declares target value line given stored
  | ret value line => exact (blames_eval h value calls).bind fun v => .setReturned v
  | ifThen test body line =>
    obtain ⟨tested, inside⟩ := List.forall_mem_append.1 calls
    refine (blames_condition h test line tested).bind fun holds => ?_
    split
    · exact (blames_exec h body inside).inScope
    · exact .pure ()
  | ifElse test body otherwise line =>
    obtain ⟨tested, inside⟩ := List.forall_mem_append.1 calls
    obtain ⟨first, second⟩ := List.forall_mem_append.1 inside
    refine (blames_condition h test line tested).bind fun holds => ?_
    split
    · exact (blames_exec h body first).inScope
    · exact (blames_exec h otherwise second).inScope
  | whileLoop test body line =>
    obtain ⟨tested, inside⟩ := List.forall_mem_append.1 calls
    exact .loop ((blames_condition h test line tested).unlessReturned false)
      (blames_exec h body inside).inScope c.rounds
  | forLoop first test step body line =>
    obtain ⟨begins, behind⟩ := List.forall_mem_append.1 calls
    obtain ⟨tested, behind⟩ := List.forall_mem_append.1 behind
    obtain ⟨steps, inside⟩ := List.forall_mem_append.1 behind
    refine Blames.inScope ((blames_exec h first begins).bind fun _ => ?_)
    refine .loop ((blames_condition h test line tested).unlessReturned false) ?_ c.rounds
    exact (blames_exec h body inside).inScope.bind fun _ =>
      (blames_exec h step steps).unlessReturned ()
  | call callee arguments target injected line =>
    obtain ⟨known, inside⟩ := List.forall_mem_cons.1 calls
    cases target with
    | some target =>
      refine (blames_evalAll h arguments inside).bind_of (yields_evalAll c arguments)
        fun values count => ?_
      exact (blames_callTarget h known rfl count line).bind fun _ => .pure ()
    | none => exact .fail line (h.unbound _ known rfl _)
termination_by structural statement

theorem blames_execAll (h : c.Answers P ok) (statements : List Statement)
    (calls : ∀ call ∈ Statement.allCalls statements, ok call) :
    Blames P (execAll c statements) := by
  cases statements with
  | nil => exact .pure ()
  | cons statement rest =>
    obtain ⟨first, others⟩ := List.forall_mem_append.1 calls
    exact Blames.unlessReturned ((blames_exec h statement first).bind fun _ =>
      blames_execAll h rest others) ()
termination_by structural statements

end

end Bodies

structure Upholds (P : Fault.Cause → Prop) (p : Program) (reached : FunctionId → Prop) : Prop where
  plain : ∀ cause : Fault.Cause, cause.isPlain = true → P cause
  lookups : ∀ name, P (.unknownVariable name)
  missing : ∀ name, P (.missingNative name)
  hosted : ∀ f, reached f → (p.function f).isNative = true → ∀ native,
    Native.named? (p.function f).name = some native →
      Fits P native.arity (p.function f).parameters.length
  unbound : ∀ f, reached f → (p.function f).isNative = false →
    ∀ call ∈ Statement.allCalls (p.function f).body, call.target = none →
      ∀ name, P (.unresolvedCall name)
  bound : ∀ f, reached f → (p.function f).isNative = false →
    ∀ call ∈ Statement.allCalls (p.function f).body, ∀ target, call.target = some target →
      ∀ receiver heap, call.Receives receiver → reached (dispatch p target receiver heap) ∧
        Fits P (p.function (dispatch p target receiver heap)).parameters.length call.count

variable {p : Program} {reached : FunctionId → Prop}

/-- Calls of functions that are reached are blamed on nothing outside `P`, however deep they nest. -/
theorem blames_callWithin (h : Upholds P p reached) (rounds depth : Nat) {f : FunctionId}
    (known : reached f) {arguments : List Value}
    (fits : Fits P (p.function f).parameters.length arguments.length) (line : Nat) :
    Blames P (callWithin p rounds depth f arguments line) := by
  induction depth generalizing f arguments line with
  | zero => exact fun _ => trivial
  | succ depth ih =>
    unfold callWithin
    dsimp only
    split
    · rename_i arity
      split
      · rename_i native
        refine blames_callNative h.plain line h.missing fun n found => ?_
        rw [arity]
        exact h.hosted f known native n found
      · rename_i written
        have written : (p.function f).isNative = false := Bool.eq_false_iff.2 written
        have answers : Context.Answers P (· ∈ Statement.allCalls (p.function f).body)
            { program := p, call := callWithin p rounds depth, rounds } := by
          refine ⟨h.plain, h.lookups, h.unbound f known written, ?_⟩
          intro call target mem bound receiver heap values line receives count
          obtain ⟨known', fits'⟩ := h.bound f known written call mem target bound receiver heap receives
          exact ih known' (count.symm ▸ fits') line
        exact (blames_execAll answers _ fun _ mem => mem).inFrame _
    · rename_i differs
      exact .fail line (fits.elim (fun same => absurd same differs) fun all => all _ _ _)

theorem blames_callIfAny (h : Upholds P p reached) (bound : Nat) {id : Option FunctionId}
    (known : ∀ f ∈ id, reached f ∧ Fits P (p.function f).parameters.length 0)
    (line : FunctionId → Nat) (value : Value) : Blames P (callIfAny p bound id line value) := by
  cases id with
  | none => exact .pure value
  | some f =>
    obtain ⟨reached, fits⟩ := known f rfl
    have none : Fits P (p.function f).parameters.length ([] : List Value).length := fits
    exact blames_callWithin h bound bound reached none (line f)

theorem blames_run (h : Upholds P p reached) (bound : Nat) {entry : Option Entry}
    (body : ∀ e ∈ entry, ∀ f ∈ e.body, reached f ∧ Fits P (p.function f).parameters.length 0)
    (main : ∀ e ∈ entry, ∀ f ∈ e.main, reached f ∧ Fits P (p.function f).parameters.length 0) :
    Blames P (run p bound entry) := by
  cases entry with
  | none => exact fun _ => trivial
  | some e =>
    refine (blames_callIfAny h bound (body e rfl) _ _).bind fun value => ?_
    refine (blames_callIfAny h bound (main e rfl) _ _).bind fun value => ?_
    exact (Blames.onPlainConsole h.plain 0 fun c => c.plain_flush).bind fun _ => .pure value

end Machine
end ObjectLang
