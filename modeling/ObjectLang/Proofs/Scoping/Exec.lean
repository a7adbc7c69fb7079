import ObjectLang.Proofs.Scoping.Bound
set_option autoImplicit false

/-!
# Statements find their variables

A statement leaves the frame of its call with the names that it found there, and behind a declaration
there is one name more. This holds on every way through branches and loops, and when the call has
returned on the way, because every segment that is opened is closed.
-/

namespace ObjectLang

namespace Scopes

variable {α : Type} {σ τ υ : Scopes α}

structure Alike (σ τ : Scopes α) : Prop where
  names : τ.bindings.map Prod.fst = σ.bindings.map Prod.fst
  counts : τ.counts = σ.counts

namespace Alike

theorem refl (σ : Scopes α) : Alike σ σ := ⟨rfl, rfl⟩

theorem trans (h : Alike σ τ) (h' : Alike τ υ) : Alike σ υ :=
  ⟨h'.names.trans h.names, h'.counts.trans h.counts⟩

theorem symm (h : Alike σ τ) : Alike τ σ := ⟨h.names.symm, h.counts.symm⟩

theorem closeSegment (h : Alike σ τ) : Alike σ.closeSegment τ.closeSegment := by
  obtain ⟨bindings, counts⟩ := σ
  obtain ⟨bindings', counts'⟩ := τ
  obtain ⟨names, same⟩ := h
  dsimp only at names same
  subst same
  cases counts' with
  | nil => exact .refl _
  | cons count outer =>
    refine ⟨?_, rfl⟩
    change (bindings'.drop count).map Prod.fst = (bindings.drop count).map Prod.fst
    rw [List.map_drop, List.map_drop, names]

end Alike

theorem names_replace {name : String} {value : α} {bindings behind : List (String × α)}
    (h : replace name value bindings = some behind) :
    behind.map Prod.fst = bindings.map Prod.fst := by
  induction bindings generalizing behind with
  | nil => cases h
  | cons b rest ih =>
    obtain ⟨key, old⟩ := b
    rw [replace] at h
    split at h
    · cases h
      rfl
    · obtain ⟨more, found, rfl⟩ := Option.map_eq_some_iff.1 h
      rw [List.map_cons, List.map_cons, ih found]

theorem mem_of_replace_eq_none {name : String} {value : α} {bindings : List (String × α)}
    (h : replace name value bindings = none) : name ∉ bindings.map Prod.fst := by
  induction bindings with
  | nil => exact List.not_mem_nil
  | cons b rest ih =>
    obtain ⟨key, old⟩ := b
    rw [replace] at h
    split at h
    · cases h
    · rename_i differs
      rw [List.map_cons, List.mem_cons, not_or]
      exact ⟨fun same => differs same.symm, ih (Option.map_eq_none_iff.1 h)⟩

theorem alike_of_set? {name : String} {value : α} (h : σ.set? name value = some τ) :
    σ.Alike τ := by
  obtain ⟨bindings, found, rfl⟩ := Option.map_eq_some_iff.1 h
  exact ⟨names_replace found, rfl⟩

end Scopes

/-- What a statement makes of scopes: one name more if it declares a variable. -/
def Statement.Leaves {α : Type} (statement : Statement) (σ τ : Scopes α) : Prop :=
  match statement.declared? with
  | some name => ∃ value, (σ.push name value).Alike τ
  | none => σ.Alike τ

namespace Statement.Leaves

variable {α : Type} {statement : Statement} {σ τ υ : Scopes α}

theorem of_none (undeclared : statement.declared? = none) (h : σ.Alike τ) :
    statement.Leaves σ τ := by
  rw [Leaves, undeclared]
  exact h

theorem alike (undeclared : statement.declared? = none) (h : statement.Leaves σ τ) :
    σ.Alike τ := by
  rw [Leaves, undeclared] at h
  exact h

theorem trans (h : statement.Leaves σ τ) (h' : τ.Alike υ) : statement.Leaves σ υ := by
  unfold Leaves at h ⊢
  split
  · rename_i name declared
    rw [declared] at h
    obtain ⟨value, alike⟩ := h
    exact ⟨value, alike.trans h'⟩
  · rename_i undeclared
    rw [undeclared] at h
    exact h.trans h'

theorem names_eq (h : statement.Leaves σ τ) :
    τ.bindings.map Prod.fst = statement.namesBehind (σ.bindings.map Prod.fst) := by
  unfold Leaves at h
  unfold namesBehind
  cases declared : statement.declared? with
  | some name =>
    simp only [declared] at h
    obtain ⟨value, alike⟩ := h
    exact alike.names
  | none =>
    simp only [declared] at h
    exact h.names

theorem closeSegment (h : statement.Leaves σ τ) : σ.closeSegment.Alike τ.closeSegment := by
  unfold Leaves at h
  split at h
  · obtain ⟨value, alike⟩ := h
    have closed := alike.closeSegment
    rw [Scopes.closeSegment_push] at closed
    exact closed
  · exact h.closeSegment

end Statement.Leaves

namespace Machine

variable {α : Type} {names : List String} {callable : FunctionId → Prop} {c : Context} {s : State}

open Eval

def State.opened (s : State) : State := { s with scopes := s.scopes.openSegment [] }

theorem closeSegment_opened (s : State) : s.opened.scopes.closeSegment = s.scopes :=
  s.scopes.closeSegment_openSegment []

/-- The evaluation misses no variable, and `Q` relates the scopes before and behind it. -/
def Ends (Q : Scopes Value → Scopes Value → Prop) (x : Eval α) (s : State) : Prop :=
  (x s).Meets (fun _ t => Q s.scopes t.scopes) (fun e _ => e.Bound)

theorem Finds.ends {x : Eval α} (h : Finds names x) (bound : s.names = names) :
    Ends Scopes.Alike x s :=
  (h s bound).mono (fun _ _ frame => frame.1.symm ▸ Scopes.Alike.refl _) fun _ _ h => h

/-- What runs in a segment of its own leaves the scopes alike. -/
theorem ends_inScope {x : Eval α}
    (h : Ends (fun σ τ => σ.closeSegment.Alike τ.closeSegment) x s.opened) :
    Ends Scopes.Alike (inScope x) s := by
  have closed : (x s.opened).Meets (fun _ t => s.scopes.Alike t.scopes.closeSegment)
      (fun e _ => e.Bound) := closeSegment_opened s ▸ h
  exact meets_closing closed

theorem meets_loop {test : Eval Bool} {body : Eval Unit} {I : State → Prop}
    {E : Fault → State → Prop} (htest : ∀ s, I s → (test s).Meets (fun _ t => I t) E)
    (hbody : ∀ s, I s → (body s).Meets (fun _ t => I t) E) (rounds : Nat) (s : State) (h : I s) :
    (loop test body rounds s).Meets (fun _ t => I t) E := by
  induction rounds generalizing s with
  | zero => trivial
  | succ rounds ih =>
    rw [loop_succ]
    refine meets_bind (htest s h) fun goes t ht => ?_
    cases goes with
    | false => exact ht
    | true => exact meets_bind (hbody t ht) fun _ u hu => ih u hu

theorem ends_writeVar {name : String} (value : Value) (line : Nat) (visible : name ∈ s.names) :
    Ends Scopes.Alike (writeVar name value line) s := by
  unfold Ends writeVar
  cases found : s.scopes.set? name value with
  | some scopes => exact Scopes.alike_of_set? found
  | none =>
    exact absurd visible (Scopes.mem_of_replace_eq_none (Option.map_eq_none_iff.1 found))

theorem finds_writeSlot (ref : ArrayRef) (index value : Value) (line : Nat) :
    Finds names (writeSlot ref index value line) := by
  refine (Finds.ofExcept _ index.plain_asInt.bound).bind fun _ => (Finds.read _).bind fun _ => ?_
  exact (Finds.ofExcept _ (Value.plain_place _ _).bound).bind fun _ => Finds.onHeap _

theorem ends_store (safe : c.Safe callable) {target : Expr} (value : Value) (line : Nat)
    (sees : target.Scoped callable names) (bound : s.names = names) :
    Ends Scopes.Alike (store c target value line) s := by
  cases target with
  | var name type place =>
    exact ends_writeVar value line (bound.symm ▸ sees)
  | field base name type place =>
    refine Finds.ends ?_ bound
    exact (finds_eval safe base sees).bind fun _ =>
      (Finds.ofExcept _ (Value.plain_asObject _).bound).bind fun _ => Finds.onHeap _
  | index base place at_ =>
    refine Finds.ends ?_ bound
    refine (finds_eval safe base sees.1).bind fun _ => ?_
    refine (Finds.ofExcept _ (Value.plain_asArray _).bound).bind fun _ => ?_
    exact (finds_eval safe place sees.2).bind fun _ => finds_writeSlot _ _ _ _
  | _ => exact Finds.ends (Finds.fail line trivial) bound

theorem finds_condition (safe : c.Safe callable) {e : Expr} (line : Nat)
    (sees : e.Scoped callable names) : Finds names (condition c e line) :=
  (finds_eval safe e sees).bind fun _ => Finds.ofExcept _ (Value.plain_asBool _).bound

theorem finds_goesOn (safe : c.Safe callable) {e : Expr} (line : Nat)
    (sees : e.Scoped callable names) : Finds names (goesOn c e line) := by
  refine (Finds.read _).bind fun returned => ?_
  split
  · exact Finds.pure _
  · exact finds_condition safe line sees

theorem Finds.bind_ends {β : Type} {x : Eval α} {f : α → Eval β}
    {Q : Scopes Value → Scopes Value → Prop} (hx : Finds names x) (bound : s.names = names)
    (hf : ∀ v t, SameFrame s t → Ends Q (f v) t) : Ends Q (x >>= f) s := by
  refine meets_bind (hx s bound) fun v t frame => ?_
  have ends := hf v t frame
  unfold Ends at ends
  rw [frame.1] at ends
  exact ends

theorem ends_assign (safe : c.Safe callable) {declares : Bool} {target value : Expr}
    {written : Option TypeId} (line : Nat)
    (sees : (Statement.assign declares target written value line).Scoped callable names)
    (bound : s.names = names) :
    Ends (Statement.assign declares target written value line).Leaves
      (assign c declares target value line) s := by
  obtain ⟨seen, ⟨rfl, name, type, place, rfl⟩ | ⟨rfl, seen'⟩⟩ := sees
  · exact (finds_eval safe value seen).bind_ends bound fun v t _ => ⟨v, Scopes.Alike.refl _⟩
  · refine (finds_eval safe value seen).bind_ends bound fun v t frame => ?_
    exact (ends_store safe v line seen' (frame.names_eq.trans bound)).mono
      (fun _ _ => Statement.Leaves.of_none rfl) fun _ _ h => h

theorem ends_loop {test : Eval Bool} {body : Eval Unit} (htest : Finds names test)
    (hbody : ∀ t, t.names = names → Ends Scopes.Alike body t) (rounds : Nat)
    (bound : s.names = names) : Ends Scopes.Alike (loop test body rounds) s := by
  refine meets_loop (I := fun t => s.scopes.Alike t.scopes) (fun t ht => ?_) (fun t ht => ?_)
    rounds s (.refl _)
  · refine (htest t (ht.names.trans bound)).mono (fun _ u frame => ?_) fun _ _ h => h
    rw [frame.1]
    exact ht
  · exact (hbody t (ht.names.trans bound)).mono (fun _ _ => ht.trans) fun _ _ h => h

theorem ends_branch {statement : Statement} {x : Eval Unit}
    (h : Ends statement.Leaves x s.opened) : Ends Scopes.Alike (inScope x) s :=
  ends_inScope (h.mono (fun _ _ => Statement.Leaves.closeSegment) fun _ _ h => h)

theorem ends_round {body step : Eval Unit} (hbody : Ends Scopes.Alike body s)
    (hstep : ∀ t, s.scopes.Alike t.scopes → Ends Scopes.Alike step t) :
    Ends Scopes.Alike (do body; if ← hasReturned then pure () else step) s := by
  refine meets_bind hbody fun _ t alike => ?_
  rw [hasReturned_bind]
  split
  · exact alike
  · exact (hstep t alike).mono (fun _ _ => alike.trans) fun _ _ h => h

mutual

theorem exec_ends (safe : c.Safe callable) (statement : Statement) {names : List String}
    (sees : statement.Scoped callable names) {s : State} (bound : s.names = names) :
    Ends statement.Leaves (exec c statement) s := by
  cases statement with
  | block statements line =>
    exact ends_inScope (execAll_ends safe statements sees bound)
  | assign declares target written value line => exact ends_assign safe line sees bound
  | ret value line =>
    exact (finds_eval safe value sees).bind_ends bound fun v t _ => Scopes.Alike.refl t.scopes
  | ifThen test body line =>
    refine (finds_condition safe line sees.1).bind_ends bound fun holds t frame => ?_
    have bound' := frame.names_eq.trans bound
    cases holds with
    | true => exact ends_branch (exec_ends safe body sees.2 (s := t.opened) bound')
    | false => exact Scopes.Alike.refl t.scopes
  | ifElse test body otherwise line =>
    refine (finds_condition safe line sees.1).bind_ends bound fun holds t frame => ?_
    have bound' := frame.names_eq.trans bound
    cases holds with
    | true => exact ends_branch (exec_ends safe body sees.2.1 (s := t.opened) bound')
    | false => exact ends_branch (exec_ends safe otherwise sees.2.2 (s := t.opened) bound')
  | whileLoop test body line =>
    exact ends_loop (finds_goesOn safe line sees.1)
      (fun t ht => ends_branch (exec_ends safe body sees.2 (s := t.opened) ht)) c.rounds bound
  | forLoop first test step body line =>
    obtain ⟨begins, holds, ⟨steps, undeclared⟩, inside⟩ := sees
    refine ends_inScope (meets_bind (exec_ends safe first begins (s := s.opened) bound) ?_)
    intro _ t leaves
    have bound' : t.names = first.namesBehind names := bound ▸ leaves.names_eq
    have looped := ends_loop (finds_goesOn safe line holds)
      (fun u hu => ends_round (ends_branch (exec_ends safe body inside (s := u.opened) hu))
        fun v alike => (exec_ends safe step steps (alike.names.trans hu)).mono
          (fun _ _ => Statement.Leaves.alike undeclared) fun _ _ h => h)
      c.rounds bound'
    exact looped.mono (fun _ u alike => leaves.closeSegment.trans alike.closeSegment) fun _ _ h => h
  | call callee arguments target injected line =>
    cases target with
    | some target =>
      refine (finds_evalAll safe arguments sees.1).bind_ends bound fun values t frame => ?_
      have bound' := frame.names_eq.trans bound
      refine (finds_callTarget safe (sees.2 target rfl) injected values line).bind_ends bound' ?_
      exact fun _ u _ => Scopes.Alike.refl u.scopes
    | none => exact trivial
termination_by structural statement

theorem execAll_ends (safe : c.Safe callable) (statements : List Statement)
    {names : List String} (sees : Statement.AllScoped callable names statements) {s : State}
    (bound : s.names = names) :
    Ends (fun σ τ => σ.closeSegment.Alike τ.closeSegment) (execAll c statements) s := by
  cases statements with
  | nil => exact Scopes.Alike.refl s.scopes.closeSegment
  | cons statement rest =>
    unfold Ends execAll
    rw [hasReturned_bind]
    split
    · exact Scopes.Alike.refl s.scopes.closeSegment
    · refine meets_bind (exec_ends safe statement sees.1 bound) fun _ t leaves => ?_
      have bound' : t.names = statement.namesBehind names := bound ▸ leaves.names_eq
      exact (execAll_ends safe rest sees.2 bound').mono
        (fun _ u => leaves.closeSegment.trans) fun _ _ h => h
termination_by structural statements

end

end Machine

def Function.frameNames (f : Function) : List String := (f.parameters.map Parameter.name).reverse

/-- The functions that may be called find their variables and call only such functions, and every
    method is one of them. -/
structure Program.Scoped (callable : FunctionId → Prop) (p : Program) : Prop where
  bodies : ∀ id, callable id → (p.function id).isNative = true ∨
    Statement.AllScoped callable (p.function id).frameNames (p.function id).body
  methods : ∀ type name id, p.types.findMethod? type name = some id → callable id

namespace Machine

variable {callable : FunctionId → Prop} {p : Program} {names : List String}

theorem names_frame {parameters : List String} {arguments : List Value}
    (arity : arguments.length = parameters.length) :
    (Scopes.empty.openSegment (parameters.zip arguments)).bindings.map Prod.fst =
      parameters.reverse := by
  change ((parameters.zip arguments).reverse ++ []).map Prod.fst = parameters.reverse
  rw [List.append_nil, List.map_reverse, List.map_fst_zip (Nat.le_of_eq arity.symm)]

theorem finds_inFrame {bindings : List (String × Value)} {body : Eval Unit}
    {Q : Scopes Value → Scopes Value → Prop}
    (h : ∀ s, s.scopes = Scopes.empty.openSegment bindings → Ends Q body s) :
    Finds names (Eval.inFrame bindings body) := by
  intro s _
  rw [Eval.inFrame_run]
  have ends := h { s with scopes := Scopes.empty.openSegment bindings, returned := none } rfl
  unfold Ends at ends
  cases found : body { s with scopes := Scopes.empty.openSegment bindings, returned := none } with
  | done value t => exact ⟨rfl, rfl⟩
  | fault e t =>
    rw [found] at ends
    exact ends
  | exhausted => trivial

theorem callable_dispatch (h : p.Scoped callable) {target : FunctionId} (known : callable target)
    (receiver : Option Value) (heap : Heap) : callable (dispatch p target receiver heap) := by
  unfold dispatch
  dsimp only
  split
  · rename_i ref
    split
    · cases found : p.types.findMethod? (heap.object ref).type (p.function target).name with
      | none => exact known
      | some id => exact h.methods _ _ id found
    · exact known
  · exact known

/-- Calls of functions that may be called miss no variable, however deep they nest. -/
theorem finds_callWithin (h : p.Scoped callable) (rounds depth : Nat) {id : FunctionId}
    (known : callable id) (arguments : List Value) (line : Nat) :
    Finds names (callWithin p rounds depth id arguments line) := by
  induction depth generalizing id arguments line names with
  | zero => exact fun _ _ => trivial
  | succ depth ih =>
    have safe : Context.Safe callable { program := p, call := callWithin p rounds depth, rounds } :=
      ⟨fun _ arguments line _ known => ih known arguments line,
        fun _ receiver heap known => callable_dispatch h known receiver heap⟩
    unfold callWithin
    dsimp only
    split
    · rename_i arity
      split
      · exact finds_callNative _ _ _
      · rename_i written
        rcases h.bodies id known with native | sees
        · exact absurd native written
        · refine finds_inFrame fun s scopes => execAll_ends safe _ sees ?_
          rw [State.names, scopes]
          exact names_frame (arity.trans (List.length_map _).symm)
    · exact Finds.fail line trivial

end Machine
end ObjectLang
