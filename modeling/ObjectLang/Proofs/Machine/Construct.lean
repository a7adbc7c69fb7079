import ObjectLang.Proofs.Calls.Constructor
import ObjectLang.Proofs.Machine.Evolution
import ObjectLang.Proofs.Machine.Layout
import ObjectLang.Proofs.Scoping.Segments
import ObjectLang.Proofs.Shapes.Acyclic
set_option autoImplicit false

/-!
# What constructors return

A constructor begins with a new object as `self` and ends with returning `self`, but what is written
in between may return something else before, or let `self` be something else. So a call of a
constructor always makes an object of its type, and it returns such an object if every value that is
returned or becomes `self` in it is `self` itself, a new object, or what a constructor of that type
gives for which the same holds.
-/

namespace ObjectLang

namespace Heap

structure Retains (h h' : Heap) : Prop where
  size_le : h.objects.size ≤ h'.objects.size
  type_eq : ∀ ref : ObjectRef, ref.index < h.objects.size →
    (h'.object ref).type = (h.object ref).type

namespace Retains

variable {h h' h'' : Heap}

theorem refl (h : Heap) : Retains h h := ⟨Nat.le_refl _, fun _ _ => rfl⟩

theorem trans (first : Retains h h') (next : Retains h' h'') : Retains h h'' where
  size_le := Nat.le_trans first.size_le next.size_le
  type_eq ref inside := (next.type_eq ref (Nat.lt_of_lt_of_le inside first.size_le)).trans
    (first.type_eq ref inside)

theorem instantiate (h : Heap) (types : Registry) (type : TypeId) :
    Retains h (h.instantiate types type).2 := by
  have changes := changes_instantiate (A := fun _ => False) (B := fun _ => False) h types type
  refine ⟨?_, fun ref inside => congrArg ObjectCell.type (changes.object ref inside not_false)⟩
  rw [size_instantiate]
  exact Nat.le_succ _

theorem setField (h : Heap) (ref : ObjectRef) (name : String) (value : Value) :
    Retains h (h.setField ref name value) :=
  ⟨Nat.le_of_eq (size_setField h ref name value).symm, fun a _ => type_setField h ref name value a⟩

end Retains

theorem evolution_retains (types : Registry) : Evolution types Retains where
  refl := .refl
  trans := .trans
  newArray _ _ := ⟨Nat.le_refl _, fun _ _ => rfl⟩
  modifyArray _ _ _ := ⟨Nat.le_refl _, fun _ _ => rfl⟩
  instantiate h type := .instantiate h types type
  setField h ref name value := .setField h ref name value

end Heap

/-- The value is an object of the type that the heap had not yet when it had `n` objects. -/
def Value.MadeSince (n : Nat) (type : TypeId) (h : Heap) (v : Value) : Prop :=
  ∃ ref, v = .object ref ∧ n ≤ ref.index ∧ ref.index < h.objects.size ∧ (h.object ref).type = type

namespace Value.MadeSince

variable {n m : Nat} {type : TypeId} {h h' : Heap} {v : Value}

theorem retained (made : v.MadeSince n type h) (retains : h.Retains h') :
    v.MadeSince n type h' := by
  obtain ⟨ref, rfl, new, inside, typed⟩ := made
  exact ⟨ref, rfl, new, Nat.lt_of_lt_of_le inside retains.size_le,
    (retains.type_eq ref inside).trans typed⟩

theorem earlier (made : v.MadeSince n type h) (le : m ≤ n) : v.MadeSince m type h := by
  obtain ⟨ref, rfl, new, rest⟩ := made
  exact ⟨ref, rfl, Nat.le_trans le new, rest⟩

theorem instantiate (h : Heap) (types : Registry) (type : TypeId) :
    (h.instantiate types type).1.MadeSince h.objects.size type (h.instantiate types type).2 := by
  refine ⟨_, h.instantiate_eq types type, Nat.le_refl _, ?_, ?_⟩
  · rw [Heap.size_instantiate]
    exact Nat.lt_succ_self _
  · rw [Heap.object_instantiate]

theorem cast (made : v.MadeSince n type h) {target : TypeId} {w : Value}
    (done : v.cast target = .ok w) : w.MadeSince n type h := by
  obtain ⟨ref, rfl, -⟩ := id made
  cases done
  exact made

end Value.MadeSince

namespace Expr

def isSelf : Expr → Bool
  | var name _ _ => name == receiverName
  | _ => false

/-- Whether a constructor of the type may take the value for what it makes: it is `self`, a new
    object, or what a trusted constructor of the same type gives. -/
def isMade (p : Program) (trusted : List FunctionId) (owner : TypeId) : Expr → Bool
  | var name _ _ => name == receiverName
  | new type _ => type == owner
  | reference expr _ => expr.isMade p trusted owner
  | cast expr _ _ => expr.isMade p trusted owner
  | call _ _ (some target) injected _ =>
    !injected && trusted.contains target && (p.function target).parent == some owner
  | _ => false

end Expr

namespace Statement

mutual

/-- Whether a constructor of the type returns nothing, and lets `self` be nothing, but what it may
    take for what it makes. -/
def constructs (p : Program) (trusted : List FunctionId) (owner : TypeId) (statement : Statement) :
    Bool :=
  match statement with
  | .block statements _ => allConstruct p trusted owner statements
  | .assign _ target _ value _ => !target.isSelf || value.isMade p trusted owner
  | .ret value _ => value.isMade p trusted owner
  | .ifThen _ body _ => body.constructs p trusted owner
  | .ifElse _ body otherwise _ =>
    body.constructs p trusted owner && otherwise.constructs p trusted owner
  | .whileLoop _ body _ => body.constructs p trusted owner
  | .forLoop first _ step body _ =>
    first.constructs p trusted owner && step.constructs p trusted owner &&
      body.constructs p trusted owner
  | .call .. => true
termination_by structural statement

def allConstruct (p : Program) (trusted : List FunctionId) (owner : TypeId)
    (statements : List Statement) : Bool :=
  match statements with
  | [] => true
  | statement :: rest =>
    statement.constructs p trusted owner && allConstruct p trusted owner rest
termination_by structural statements

end
end Statement

namespace Program

/-- A constructor of the type, none of whose parameters is called `self`, that returns nothing and
    lets `self` be nothing but what it makes, if the trusted constructors do too. -/
structure Constructs (p : Program) (trusted : List FunctionId) (owner : TypeId) (f : Function) :
    Prop where
  parent : f.parent = some owner
  named : f.name = constructorName
  written : f.isNative = false
  parameters : receiverName ∉ f.parameters.map Parameter.name
  body : Statement.allConstruct p trusted owner f.body = true

instance (p : Program) (trusted : List FunctionId) (owner : TypeId) (f : Function) :
    Decidable (p.Constructs trusted owner f) :=
  decidable_of_iff
    (f.parent = some owner ∧ f.name = constructorName ∧ f.isNative = false ∧
      receiverName ∉ f.parameters.map Parameter.name ∧
      Statement.allConstruct p trusted owner f.body = true)
    ⟨fun ⟨parent, named, written, parameters, body⟩ => ⟨parent, named, written, parameters, body⟩,
      fun ⟨parent, named, written, parameters, body⟩ => ⟨parent, named, written, parameters, body⟩⟩

/-- Every trusted function is a constructor that returns what it makes, if the others do too. -/
def Trusts (p : Program) (trusted : List FunctionId) : Prop :=
  ∀ id ∈ trusted, ∃ owner ∈ (p.function id).parent, p.Constructs trusted owner (p.function id)

instance (p : Program) (trusted : List FunctionId) : Decidable (p.Trusts trusted) := by
  unfold Trusts
  infer_instance

end Program

namespace Scopes

variable {α : Type} {σ τ : Scopes α} {name : String} {value : α} {x : String × α}

theorem mem_of_mem_replace {bindings behind : List (String × α)}
    (done : replace name value bindings = some behind) (mem : x ∈ behind) :
    x = (name, value) ∨ x ∈ bindings := by
  induction bindings generalizing behind with
  | nil => cases done
  | cons b rest ih =>
    obtain ⟨key, old⟩ := b
    rw [replace] at done
    split at done
    · rename_i same
      subst same
      cases done
      exact (List.mem_cons.1 mem).imp_right (List.mem_cons_of_mem _)
    · obtain ⟨more, found, rfl⟩ := Option.map_eq_some_iff.1 done
      rcases List.mem_cons.1 mem with rfl | mem
      · exact .inr List.mem_cons_self
      · exact (ih found mem).imp_right (List.mem_cons_of_mem _)

theorem mem_of_mem_set? (done : σ.set? name value = some τ) (mem : x ∈ τ.bindings) :
    x = (name, value) ∨ x ∈ σ.bindings := by
  obtain ⟨behind, found, rfl⟩ := Option.map_eq_some_iff.1 done
  exact mem_of_mem_replace found mem

theorem mem_of_mem_closeSegment (mem : x ∈ σ.closeSegment.bindings) : x ∈ σ.bindings := by
  unfold closeSegment at mem
  split at mem
  · cases mem
  · exact List.mem_of_mem_drop mem

theorem mem_of_get? (found : σ.get? name = some value) : (name, value) ∈ σ.bindings := by
  obtain ⟨front, behind, split, -⟩ := List.lookup_eq_some_iff.1 found
  rw [split]
  exact List.mem_append_right _ List.mem_cons_self

end Scopes

namespace Machine

open Eval

variable {n : Nat} {type : TypeId} {s t : State}

/-- Variables called `self`, and what the call returns, are objects of the type that were not among
    the first `n`. -/
structure State.Constructing (n : Nat) (type : TypeId) (s : State) : Prop where
  size_le : n ≤ s.heap.objects.size
  self : ∀ x ∈ s.scopes.bindings, x.1 = receiverName → x.2.MadeSince n type s.heap
  returned : ∀ v ∈ s.returned, v.MadeSince n type s.heap

namespace State.Constructing

theorem framed (h : s.Constructing n type) (frame : SameFrame s t)
    (retains : s.heap.Retains t.heap) : t.Constructing n type where
  size_le := Nat.le_trans h.size_le retains.size_le
  self x mem named := (h.self x (frame.1 ▸ mem) named).retained retains
  returned v known := (h.returned v (frame.2 ▸ known)).retained retains

theorem rebound (h : s.Constructing n type) {scopes : Scopes Value}
    (self : ∀ x ∈ scopes.bindings, x ∈ s.scopes.bindings ∨
      (x.1 = receiverName → x.2.MadeSince n type s.heap)) :
    State.Constructing n type { s with scopes } where
  size_le := h.size_le
  self x mem named := (self x mem).elim (fun old => h.self x old named) fun made => made named
  returned := h.returned

theorem opened (h : s.Constructing n type) : s.opened.Constructing n type :=
  h.rebound fun _ mem => .inl mem

theorem closed (h : s.Constructing n type) :
    State.Constructing n type { s with scopes := s.scopes.closeSegment } :=
  h.rebound fun _ mem => .inl (Scopes.mem_of_mem_closeSegment mem)

end State.Constructing

/-- What a constructor has made so far, the evaluation leaves to it. -/
def KeepsConstructing {α : Type} (n : Nat) (type : TypeId) (x : Eval α) : Prop :=
  ∀ s : State, s.Constructing n type →
    (x s).Meets (fun _ t => t.Constructing n type) fun _ _ => True

namespace KeepsConstructing

variable {α β : Type}

theorem of_keepsFrame {x : Eval α} (frame : KeepsFrame x) (retains : Evolves Heap.Retains x) :
    KeepsConstructing n type x := fun s h =>
  ((frame s).and (retains s)).mono (fun _ _ ends => h.framed ends.1 ends.2) fun _ _ _ => trivial

theorem pure (value : α) : KeepsConstructing n type (Pure.pure value : Eval α) := fun _ h => h

theorem read (f : State → α) : KeepsConstructing n type (read f) := fun _ h => h

theorem bind {x : Eval α} {f : α → Eval β} (hx : KeepsConstructing n type x)
    (hf : ∀ v, KeepsConstructing n type (f v)) : KeepsConstructing n type (x >>= f) := fun s h =>
  meets_bind (hx s h) fun v t constructs => hf v t constructs

theorem inScope {x : Eval α} (hx : KeepsConstructing n type x) :
    KeepsConstructing n type (inScope x) :=
  fun s h => meets_closing ((hx s.opened h.opened).mono (fun _ _ => .closed) fun _ _ => id)

theorem loop {test : Eval Bool} {body : Eval Unit} (htest : KeepsConstructing n type test)
    (hbody : KeepsConstructing n type body) (rounds : Nat) :
    KeepsConstructing n type (loop test body rounds) :=
  meets_loop htest hbody rounds

theorem unlessReturned {x : Eval Unit} (hx : KeepsConstructing n type x) :
    KeepsConstructing n type (do if ← hasReturned then Pure.pure () else x) := by
  refine bind (read _) fun returned => ?_
  cases returned with
  | true => exact pure ()
  | false => exact hx

end KeepsConstructing

variable {c : Context} {p : Program} {trusted : List FunctionId}

structure Context.Constructing (c : Context) (p : Program) (trusted : List FunctionId) : Prop where
  framed : c.Framed
  evolving : c.Evolving p Heap.Retains
  made : ∀ id ∈ trusted, ∀ owner, (p.function id).parent = some owner → ∀ arguments line s,
    (c.call id arguments line s).Meets
      (fun v t => v.MadeSince s.heap.objects.size owner t.heap) fun _ _ => True

section Bodies

variable (hc : c.Constructing p trusted)
include hc

theorem constructing_eval (e : Expr) : KeepsConstructing n type (eval c e) :=
  .of_keepsFrame (keepsFrame_eval hc.framed e)
    (evolves_eval (Heap.evolution_retains _) hc.evolving e)

theorem eval_made (e : Expr) (made : e.isMade p trusted type = true) (h : s.Constructing n type) :
    (eval c e s).Meets (fun v t => v.MadeSince n type t.heap) fun _ _ => True := by
  cases e with
  | var name noted line =>
    obtain rfl : name = receiverName := beq_iff_eq.1 made
    unfold eval readVar
    refine meets_bind (R := fun v t => v = s.scopes.get? receiverName ∧ t = s) ⟨rfl, rfl⟩ ?_
    rintro found t ⟨rfl, rfl⟩
    cases bound : t.scopes.get? receiverName with
    | some value => exact h.self _ (Scopes.mem_of_get? bound) rfl
    | none => trivial
  | new other line =>
    obtain rfl : other = type := beq_iff_eq.1 made
    rw [eval, hc.evolving.program]
    exact (Value.MadeSince.instantiate s.heap p.types other).earlier h.size_le
  | reference expr line => exact eval_made expr made h
  | cast expr target line =>
    rw [eval]
    refine meets_bind (eval_made expr made h) fun v t inner => ?_
    exact meets_ofExcept (fun w done => inner.cast done) fun _ _ => trivial
  | call callee arguments target injected line =>
    cases target with
    | none => cases made
    | some target =>
      simp only [Expr.isMade, Bool.and_eq_true, Bool.not_eq_true', beq_iff_eq,
        List.contains_iff_mem] at made
      obtain ⟨⟨rfl, known⟩, owned⟩ := made
      have before : KeepsConstructing n type (evalAll c arguments) :=
        .of_keepsFrame (keepsFrame_evalAll hc.framed arguments)
          (evolves_evalAll (Heap.evolution_retains _) hc.evolving arguments)
      rw [eval]
      -- A call without a receiver is not dispatched, so the target itself is called.
      refine meets_bind (before s h) fun values t constructs => ?_
      exact (hc.made target known type owned values line t).mono
        (fun v _ new => new.earlier constructs.size_le) fun _ _ => id
  | _ => cases made
termination_by structural e

omit hc in
theorem constructing_writeVar {name : String} {value : Value} (line : Nat)
    (own : name = receiverName → value.MadeSince n type s.heap) (h : s.Constructing n type) :
    (writeVar name value line s).Meets (fun _ t => t.Constructing n type) fun _ _ => True := by
  unfold writeVar
  cases found : s.scopes.set? name value with
  | some scopes =>
    refine h.rebound fun x mem => ?_
    rcases Scopes.mem_of_mem_set? found mem with rfl | old
    · exact .inr own
    · exact .inl old
  | none => trivial

theorem constructing_store {target : Expr} {value : Value} (line : Nat)
    (own : target.isSelf = true → value.MadeSince n type s.heap) (h : s.Constructing n type) :
    (store c target value line s).Meets (fun _ t => t.Constructing n type) fun _ _ => True := by
  cases target with
  | var name noted place =>
    exact constructing_writeVar line (fun same => own (beq_iff_eq.2 same)) h
  | _ =>
    exact KeepsConstructing.of_keepsFrame
      (keepsFrame_store hc.framed value line fun _ _ _ same => by cases same)
      (evolves_store (Heap.evolution_retains _) hc.evolving _ value line) s h

theorem eval_made_if (asked : Bool) {e : Expr}
    (made : (!asked || e.isMade p trusted type) = true) (h : s.Constructing n type) :
    (eval c e s).Meets
      (fun v t => t.Constructing n type ∧ (asked = true → v.MadeSince n type t.heap))
      fun _ _ => True := by
  cases asked with
  | false =>
    exact (constructing_eval hc e s h).mono
      (fun _ _ after => ⟨after, fun no => absurd no Bool.false_ne_true⟩) fun _ _ => id
  | true =>
    exact ((constructing_eval hc e s h).and (eval_made hc e made h)).mono
      (fun _ _ ends => ⟨ends.1, fun _ => ends.2⟩) fun _ _ _ => trivial

theorem constructing_assign {declares : Bool} {target value : Expr} (line : Nat)
    (own : (!target.isSelf || value.isMade p trusted type) = true) :
    KeepsConstructing n type (assign c declares target value line) := by
  intro s h
  refine meets_bind (eval_made_if hc _ own h) fun v t ⟨after, made⟩ => ?_
  split
  · refine after.rebound fun x mem => ?_
    rcases List.mem_cons.1 mem with rfl | old
    · exact .inr fun same => made (beq_iff_eq.2 same)
    · exact .inl old
  · exact constructing_store hc line made after

theorem constructing_condition (e : Expr) (line : Nat) :
    KeepsConstructing n type (condition c e line) :=
  .of_keepsFrame (keepsFrame_condition hc.framed e line)
    (evolves_condition (Heap.evolution_retains _) hc.evolving e line)

theorem constructing_goesOn (e : Expr) (line : Nat) :
    KeepsConstructing n type (goesOn c e line) := by
  refine .bind (.read _) fun returned => ?_
  cases returned with
  | true => exact .pure false
  | false => exact constructing_condition hc e line

end Bodies

mutual

theorem constructing_exec (hc : c.Constructing p trusted) (statement : Statement)
    (own : statement.constructs p trusted type = true) :
    KeepsConstructing n type (exec c statement) := by
  cases statement with
  | block statements line => exact .inScope (constructing_execAll hc statements own)
  | assign declares target written value line => exact constructing_assign hc line own
  | ret value line =>
    intro s h
    refine meets_bind (eval_made_if hc true own h) fun v t ⟨after, made⟩ => ?_
    refine ⟨after.size_le, after.self, ?_⟩
    rintro _ ⟨⟩
    exact made rfl
  | ifThen test body line =>
    refine .bind (constructing_condition hc test line) fun holds => ?_
    cases holds with
    | true => exact .inScope (constructing_exec hc body own)
    | false => exact .pure ()
  | ifElse test body otherwise line =>
    obtain ⟨own, own'⟩ := Bool.and_eq_true_iff.1 own
    refine .bind (constructing_condition hc test line) fun holds => ?_
    cases holds with
    | true => exact .inScope (constructing_exec hc body own)
    | false => exact .inScope (constructing_exec hc otherwise own')
  | whileLoop test body line =>
    exact .loop (constructing_goesOn hc test line) (.inScope (constructing_exec hc body own)) _
  | forLoop first test step body line =>
    obtain ⟨begins, inside⟩ := Bool.and_eq_true_iff.1 own
    obtain ⟨begins, steps⟩ := Bool.and_eq_true_iff.1 begins
    refine .inScope (.bind (constructing_exec hc first begins) fun _ => ?_)
    refine .loop (constructing_goesOn hc test line) ?_ _
    exact .bind (.inScope (constructing_exec hc body inside)) fun _ =>
      .unlessReturned (constructing_exec hc step steps)
  | call callee arguments target injected line =>
    refine .of_keepsFrame ?_ (evolves_exec (Heap.evolution_retains _) hc.evolving _)
    cases target with
    | some target =>
      exact .bind (keepsFrame_evalAll hc.framed arguments) fun _ =>
        .bind (keepsFrame_callTarget hc.framed _ _ _ _) fun _ => .pure ()
    | none => exact .fail _ _
termination_by structural statement

theorem constructing_execAll (hc : c.Constructing p trusted) (statements : List Statement)
    (own : Statement.allConstruct p trusted type statements = true) :
    KeepsConstructing n type (execAll c statements) := by
  cases statements with
  | nil => exact .pure ()
  | cons statement rest =>
    obtain ⟨first, others⟩ := Bool.and_eq_true_iff.1 own
    exact .unlessReturned <| .bind (constructing_exec hc statement first) fun _ =>
      constructing_execAll hc rest others
termination_by structural statements

end

theorem returns_execAll (c : Context) (statements : List Statement) (value : Expr) (line : Nat)
    (s : State) : (execAll c (statements ++ [.ret value line]) s).Meets
      (fun _ t => t.returned.isSome = true) fun _ _ => True := by
  induction statements generalizing s with
  | nil =>
    rw [List.nil_append, execAll, hasReturned_bind]
    cases returned : s.returned.isSome with
    | true => exact returned
    | false =>
      refine meets_bind (R := fun _ t => t.returned.isSome = true) ?_ fun _ _ => id
      rw [exec, bind_run]
      cases eval c value s with
      | done v t => exact rfl
      | _ => trivial
  | cons statement rest ih =>
    rw [List.cons_append, execAll, hasReturned_bind]
    cases returned : s.returned.isSome with
    | true => exact returned
    | false =>
      rw [if_neg Bool.false_ne_true, bind_run]
      cases exec c statement s with
      | done _ t => exact ih t
      | _ => trivial

variable {f : Function} {id : FunctionId} {owner : TypeId}

/-- Where a body begins with an allocation, the object is there when it ends. -/
theorem allocates_execAll (evolving : c.Evolving p Heap.Retains) (noted : Option TypeId)
    (line : Nat) (rest : List Statement) (fresh : s.returned = none) :
    (execAll c (.declare (.var receiverName noted line) (.new owner line) line :: rest) s).Meets
      (fun _ t => (Value.object ⟨s.heap.objects.size⟩).MadeSince s.heap.objects.size owner t.heap)
      fun _ _ => True := by
  have made := Value.MadeSince.instantiate s.heap c.program.types owner
  rw [Heap.instantiate_eq] at made
  rw [execAll, hasReturned_bind, fresh]
  exact (evolves_execAll (Heap.evolution_retains _) evolving rest _).mono
    (fun _ _ retains => made.retained retains) fun _ _ _ => trivial

theorem constructing_inCall (s : State) (constructs : p.Constructs trusted owner f)
    (arguments : List Value) :
    (s.inCall f arguments).Constructing s.heap.objects.size owner := by
  refine ⟨Nat.le_refl _, fun x mem named => ?_, nofun⟩
  have bound : (x.1, x.2) ∈ (f.parameters.map Parameter.name).zip arguments := by
    simpa [State.inCall, Scopes.openSegment, Scopes.empty] using mem
  exact absurd (named ▸ (List.of_mem_zip bound).1) constructs.parameters

theorem made_body (hc : c.Constructing p trusted) (constructs : p.Constructs trusted owner f)
    (allocates : f.Allocates owner) (arguments : List Value) (s : State) :
    (execAll c f.body (s.inCall f arguments)).Meets
      (fun _ t => (t.returned.getD .void).MadeSince s.heap.objects.size owner t.heap)
      fun _ _ => True := by
  obtain ⟨noted, noted', line, statements, body⟩ := allocates
  have inside := constructing_execAll hc f.body constructs.body _
    (constructing_inCall s constructs arguments)
  have ends := returns_execAll c (.declare (.var receiverName noted line) (.new owner line) line ::
    statements) (.var receiverName noted' line) line (s.inCall f arguments)
  rw [List.cons_append, ← body] at ends
  refine (inside.and ends).mono (fun _ t ⟨after, returned⟩ => ?_) fun _ _ _ => trivial
  obtain ⟨v, known⟩ := Option.isSome_iff_exists.1 returned
  rw [known]
  exact after.returned v known

/-- A call of a trusted constructor returns what it makes. -/
theorem made_callWithin (allocate : p.ConstructorsAllocate) (trusts : p.Trusts trusted)
    (rounds depth : Nat) (known : id ∈ trusted) (owned : (p.function id).parent = some owner)
    (arguments : List Value) (line : Nat) (s : State) :
    (callWithin p rounds depth id arguments line s).Meets
      (fun v t => v.MadeSince s.heap.objects.size owner t.heap) fun _ _ => True := by
  induction depth generalizing id owner arguments line s with
  | zero => trivial
  | succ depth ih =>
    -- The trusted constructors that the body calls are called with less depth.
    have hc : (within p rounds depth).Constructing p trusted :=
      ⟨keepsFrame_callWithin p rounds depth,
        evolving_within (Heap.evolution_retains _) rounds depth,
        fun _ known _ owned => ih known owned⟩
    obtain ⟨other, owned', constructs⟩ := trusts id known
    obtain rfl : other = owner := Option.some.inj (owned'.symm.trans owned)
    have allocates := allocate id other owned constructs.named
    simp only [callWithin, constructs.written]
    split
    · exact meets_inFrame (made_body hc constructs allocates arguments s)
    · trivial

theorem allocates_callWithin (allocates : (p.function id).Allocates owner)
    (written : (p.function id).isNative = false) (rounds depth : Nat) (arguments : List Value)
    (line : Nat) (s : State) :
    (callWithin p rounds depth id arguments line s).Meets
      (fun _ t => (Value.object ⟨s.heap.objects.size⟩).MadeSince s.heap.objects.size owner t.heap)
      fun _ _ => True := by
  cases depth with
  | zero => trivial
  | succ depth =>
    obtain ⟨noted, noted', place, statements, body⟩ := allocates
    simp only [callWithin, written, body]
    split
    · exact meets_inFrame (allocates_execAll (c := within p rounds depth)
        (evolving_within (Heap.evolution_retains _) rounds depth) noted place _ rfl)
    · trivial

end Machine

namespace Compilation

/-- In an accepted program, every call of a constructor that is not native makes an object of its
    type, if it returns. It also returns an object of its type that it has made, if the constructor is
    one of any that return nothing, and let `self` be nothing, but what they make. -/
theorem constructors_construct {files : List SourceFile} {c : Compilation}
    (accepted : new.compile files = (.ok (), c)) {id : FunctionId} {owner : TypeId}
    (named : (c.program.function id).name = constructorName)
    (owned : (c.program.function id).parent = some owner)
    (written : (c.program.function id).isNative = false) {rounds depth : Nat}
    {arguments : List Value} {line : Nat} {s t : Machine.State} {v : Value}
    (returns : Machine.callWithin c.program rounds depth id arguments line s = .done v t) :
    (Value.object ⟨s.heap.objects.size⟩).MadeSince s.heap.objects.size owner t.heap ∧
      ∀ trusted, c.program.Trusts trusted → id ∈ trusted →
        v.MadeSince s.heap.objects.size owner t.heap := by
  have allocate := constructorsAllocate accepted
  constructor
  · have made := Machine.allocates_callWithin (allocate id owner owned named) written rounds depth
      arguments line s
    rwa [returns] at made
  · intro trusted trusts known
    have made := Machine.made_callWithin allocate trusts rounds depth known owned arguments line s
    rwa [returns] at made

/-- A constructor that returns early, from itself or from another call of itself, and two
    constructors that return nothing: one early, the other through `self`. -/
def constructing : List SourceFile :=
  [⟨mainPath, "type A { n: Int; }\n" ++
    "fn A.new(n: Int) { self.n = n; if n < 1: { ret self; } ret A.new(n - 1); }\n" ++
    "type B { }\nfn B.new() { ret None; }\ntype C { }\nfn C.new() { self = None; }\n" ++
    "ret B.new() == None;\n"⟩]

theorem constructing_compiled : (new.compile constructing).1 = .ok () ∧
    (∀ i ∈ [6, 7, 8],
      ((compiledFrom constructing).program.function ⟨i + 1⟩).name = constructorName ∧
      ((compiledFrom constructing).program.function ⟨i + 1⟩).parent = some ⟨i⟩ ∧
      ((compiledFrom constructing).program.function ⟨i + 1⟩).isNative = false ∧
      ((compiledFrom constructing).program.Trusts [⟨i + 1⟩] ↔ i = 6)) ∧
    (Machine.callWithin (compiledFrom constructing).program 10 10 ⟨7⟩ [.int 2] 1 {}).ends
      (fun _ _ => true) = true ∧
    ∀ i ∈ [7, 8],
      (Machine.callWithin (compiledFrom constructing).program 10 10 ⟨i + 1⟩ [] 1 {}).ends
        (fun v _ => v matches .void) = true := by
  simp only [compiledFrom_eq, new_eq]
  decide +kernel

/-- The innermost of three calls makes the object that all of them return. -/
theorem constructors_construct_counting :
    new.compile constructing = (.ok (), compiledFrom constructing) ∧
      (compiledFrom constructing).program.Trusts [⟨7⟩] ∧
      ∃ v t, Machine.callWithin (compiledFrom constructing).program 10 10 ⟨7⟩ [.int 2] 1 {} =
          .done v t ∧ v.MadeSince 0 ⟨6⟩ t.heap := by
  obtain ⟨ok, constructors, ends, -⟩ := constructing_compiled
  obtain ⟨named, owned, written, trusts⟩ := constructors 6 (by decide)
  obtain ⟨v, t, returns, -⟩ := Machine.Outcome.exists_of_ends ends
  have accepted := compile_compiledFrom ok
  have made := (constructors_construct accepted named owned written returns).2 [⟨7⟩]
    (trusts.2 rfl) List.mem_cons_self
  exact ⟨accepted, trusts.2 rfl, v, t, returns, made⟩

/-- Constructors of an accepted program return `None`, which is no object at all. -/
theorem constructors_return_none :
    new.compile constructing = (.ok (), compiledFrom constructing) ∧
      ∀ i ∈ [7, 8],
        ((compiledFrom constructing).program.function ⟨i + 1⟩).name = constructorName ∧
        ((compiledFrom constructing).program.function ⟨i + 1⟩).parent = some ⟨i⟩ ∧
        ((compiledFrom constructing).program.function ⟨i + 1⟩).isNative = false ∧
        ∃ t, Machine.callWithin (compiledFrom constructing).program 10 10 ⟨i + 1⟩ [] 1 {} =
            .done .void t ∧ ¬Value.void.MadeSince 0 ⟨i⟩ t.heap := by
  obtain ⟨ok, constructors, -, ends⟩ := constructing_compiled
  refine ⟨compile_compiledFrom ok, fun i listed => ?_⟩
  obtain ⟨named, owned, written, -⟩ := constructors i (List.mem_cons_of_mem 6 listed)
  obtain ⟨v, t, returns, none⟩ := Machine.Outcome.exists_of_ends (ends i listed)
  obtain rfl : v = .void := by
    cases v with
    | void => rfl
    | _ => cases none
  exact ⟨named, owned, written, t, returns, nofun⟩

end Compilation
end ObjectLang
