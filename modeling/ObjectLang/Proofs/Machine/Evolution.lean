import ObjectLang.Proofs.Machine.Watch
set_option autoImplicit false

/-!
# How heaps evolve

Whatever a program does, its heap changes by few operations: arrays and objects are made, slots change
and fields are stored. A relation between heaps that all of them keep holds between the beginning and
the end of every expression, statement and call, also when a fault ends it. So what all of them keep
true of a heap is true all along every run that begins with it.
-/

namespace ObjectLang

/-- The relation holds between a heap and what any operations make of it. -/
structure Heap.Evolution (types : Registry) (R : Heap → Heap → Prop) : Prop where
  refl : ∀ h, R h h
  trans : ∀ {h h' h''}, R h h' → R h' h'' → R h h''
  newArray : ∀ h items, R h (h.newArray items).2
  modifyArray : ∀ (h : Heap) (ref : ArrayRef) change,
    R h { h with arrays := h.arrays.modify ref.index change }
  instantiate : ∀ (h : Heap) type, R h (h.instantiate types type).2
  setField : ∀ (h : Heap) ref name value, R h (h.setField ref name value)

namespace Heap.Evolution

variable {types : Registry} {R : Heap → Heap → Prop}

theorem default (ev : Evolution types R) (h : Heap) (type : TypeId) :
    R h (h.default types type).2 := by
  unfold Heap.default
  split
  · exact ev.refl h
  split
  · exact ev.refl h
  split
  · exact ev.refl h
  split
  · exact ev.refl h
  split
  · exact ev.newArray h _
  · exact ev.refl h

theorem fill (ev : Evolution types R) {h : Heap} {element : Value} {size : Nat} {made : Value × Heap}
    (done : h.fill element size = .ok made) : R h made.2 := by
  unfold Heap.fill at done
  split at done
  · cases done
    exact ev.newArray h _
  · cases done

/-- The host gives arrays as much room in the end as it gave them in the beginning. -/
theorem room (types : Registry) : Evolution types fun h h' => h'.room = h.room where
  refl _ := rfl
  trans first next := next.trans first
  newArray _ _ := rfl
  modifyArray _ _ _ := rfl
  instantiate h type := h.room_instantiate types type
  setField _ _ _ _ := rfl

/-- A claim on heaps that every operation keeps. -/
theorem of_claim {P : Heap → Prop} (newArray : ∀ h items, P h → P (h.newArray items).2)
    (modifyArray : ∀ (h : Heap) (ref : ArrayRef) change, P h →
      P { h with arrays := h.arrays.modify ref.index change })
    (instantiate : ∀ (h : Heap) type, P h → P (h.instantiate types type).2)
    (setField : ∀ (h : Heap) ref name value, P h → P (h.setField ref name value)) :
    Evolution types fun h h' => P h → P h' where
  refl _ holds := holds
  trans first next holds := next (first holds)
  newArray := newArray
  modifyArray := modifyArray
  instantiate := instantiate
  setField := setField

end Heap.Evolution

namespace Machine

open Eval

variable {α β : Type} {p : Program} {R : Heap → Heap → Prop}

/-- The heap evolves from where the evaluation begins to where it ends. -/
def Evolves (R : Heap → Heap → Prop) (x : Eval α) : Prop :=
  ∀ s, (x s).Meets (fun _ t => R s.heap t.heap) fun _ t => R s.heap t.heap

structure Context.Evolving (c : Context) (p : Program) (R : Heap → Heap → Prop) : Prop where
  program : c.program = p
  call : ∀ id arguments line, Evolves R (c.call id arguments line)

section Evolution

variable (ev : Heap.Evolution p.types R)
include ev

namespace Evolves

theorem pure (value : α) : Evolves R (Pure.pure value : Eval α) := fun s => ev.refl s.heap

theorem bind {x : Eval α} {f : α → Eval β} (hx : Evolves R x) (hf : ∀ v, Evolves R (f v)) :
    Evolves R (x >>= f) := by
  intro s
  refine meets_bind (hx s) fun v t first => ?_
  exact (hf v t).mono (fun _ _ => ev.trans first) fun _ _ => ev.trans first

theorem fail (line : Nat) (cause : Fault.Cause) : Evolves R (fail line cause : Eval α) :=
  fun s => ev.refl s.heap

theorem ofExcept (line : Nat) (result : Except Fault.Cause α) :
    Evolves R (ofExcept line result) := by
  cases result with
  | ok v => exact Evolves.pure ev v
  | error cause => exact Evolves.fail ev line cause

theorem read (f : State → α) : Evolves R (read f) := fun s => ev.refl s.heap

omit ev in
theorem onHeap {f : Heap → α × Heap} (h : ∀ heap, R heap (f heap).2) : Evolves R (onHeap f) :=
  fun s => h s.heap

theorem onConsole (line : Nat) (f : Console → Except Fault.Cause α × Console) :
    Evolves R (onConsole line f) := by
  intro s
  simp only [Eval.onConsole]
  cases (f s.console).1 with
  | ok v => exact ev.refl s.heap
  | error cause => exact ev.refl s.heap

omit ev in
theorem inScope {x : Eval α} (h : Evolves R x) : Evolves R (inScope x) :=
  fun s => meets_closing (h s.opened)

omit ev in
theorem inFrame (bindings : List (String × Value)) {body : Eval Unit} (h : Evolves R body) :
    Evolves R (inFrame bindings body) := fun _ => meets_inFrame (h _)

theorem loop {test : Eval Bool} {body : Eval Unit} (htest : Evolves R test)
    (hbody : Evolves R body) (rounds : Nat) : Evolves R (loop test body rounds) := fun s =>
  meets_loop (I := fun t => R s.heap t.heap)
    (fun t before => (htest t).mono (fun _ _ => ev.trans before) fun _ _ => ev.trans before)
    (fun t before => (hbody t).mono (fun _ _ => ev.trans before) fun _ _ => ev.trans before)
    rounds s (ev.refl s.heap)

theorem unlessReturned {x : Eval Unit} (h : Evolves R x) :
    Evolves R (do if ← hasReturned then Pure.pure () else x) := by
  refine bind ev (read ev _) fun returned => ?_
  cases returned with
  | true => exact pure ev ()
  | false => exact h

end Evolves

theorem evolves_display (value : Value) : Evolves R (display value) := by
  intro s
  unfold display
  split
  · exact ev.refl s.heap
  · trivial

theorem evolves_print (line : Nat) (value : Value) : Evolves R (print line value) :=
  .bind ev (evolves_display ev value) fun _ => .onConsole ev line _

theorem evolves_allocate (line : Nat) (element : Value) (size : Nat) :
    Evolves R (allocate line element size) := by
  intro s
  refine meets_bind (R := fun heap t => heap = s.heap ∧ t = s) ⟨rfl, rfl⟩ ?_
  rintro heap t ⟨rfl, rfl⟩
  cases filled : t.heap.fill element size with
  | ok made => exact ev.fill filled
  | error cause => exact ev.refl t.heap

theorem evolves_copy (line : Nat) (dest src size : Value) : Evolves R (copy line dest src size) := by
  refine .bind ev (.ofExcept ev _ _) fun d => .bind ev (.ofExcept ev _ _) fun r =>
    .bind ev (.ofExcept ev _ _) fun requested => .bind ev (.ofExcept ev _ _) fun count => ?_
  split
  · exact .pure ev _
  · refine .bind ev (.read ev _) fun heap => ?_
    dsimp only
    split
    · exact .onHeap fun h => ev.modifyArray h d _
    · exact .fail ev _ _

theorem evolves_callNative (f : Function) (arguments : List Value) (line : Nat) :
    Evolves R (callNative f arguments line) := by
  unfold callNative
  split
  · unfold Native.call
    split
    · exact .bind ev (evolves_print ev _ _) fun _ => .pure ev _
    · exact .bind ev (evolves_print ev _ _) fun _ => .bind ev (.onConsole ev _ _) fun _ =>
        .bind ev (.onConsole ev _ _) fun _ => .pure ev _
    · exact .bind ev (.ofExcept ev _ _) fun _ => .bind ev (.ofExcept ev _ _) fun _ =>
        evolves_allocate ev _ _ _
    · exact evolves_copy ev _ _ _ _
    · exact .bind ev (evolves_display ev _) fun _ => .fail ev _ _
    · exact .fail ev _ _
  · exact .fail ev _ _

section Bodies

variable {c : Context}

theorem evolves_callTarget (hc : c.Evolving p R) (target : FunctionId) (injected : Bool)
    (arguments : List Value) (line : Nat) : Evolves R (callTarget c target injected arguments line) :=
  .bind ev (.read ev _) fun _ => hc.call _ _ _

theorem evolves_readVar (name : String) (line : Nat) : Evolves R (readVar name line) := by
  refine .bind ev (.read ev _) fun found => ?_
  cases found with
  | some value => exact .pure ev value
  | none => exact .fail ev _ _

theorem evolves_readField (base : Value) (name : String) (line : Nat) :
    Evolves R (readField base name line) := by
  refine .bind ev (.ofExcept ev _ _) fun ref => .bind ev (.read ev _) fun found => ?_
  cases found with
  | some value => exact .pure ev value
  | none => exact .fail ev _ _

theorem evolves_readSlot (ref : ArrayRef) (index : Value) (line : Nat) :
    Evolves R (readSlot ref index line) :=
  .bind ev (.ofExcept ev _ _) fun _ => .bind ev (.read ev _) fun _ =>
    .bind ev (.ofExcept ev _ _) fun _ => .pure ev _

mutual

theorem evolves_eval (hc : c.Evolving p R) (e : Expr) : Evolves R (eval c e) := by
  cases e with
  | binary op lhs rhs line =>
    exact .bind ev (evolves_eval hc lhs) fun _ => .bind ev (evolves_eval hc rhs) fun _ =>
      .ofExcept ev _ _
  | literal value line => exact .pure ev _
  | var name type line => exact evolves_readVar ev name line
  | field base name type line =>
    exact .bind ev (evolves_eval hc base) fun _ => evolves_readField ev _ _ _
  | new type line => exact .onHeap fun h => hc.program ▸ ev.instantiate h type
  | allocate element size line =>
    exact .bind ev (evolves_eval hc size) fun _ => .bind ev (.ofExcept ev _ _) fun _ =>
      .bind ev (.ofExcept ev _ _) fun _ =>
        .bind ev (.onHeap fun h => hc.program ▸ ev.default h element) fun _ =>
          evolves_allocate ev _ _ _
  | array element items line =>
    exact .bind ev (evolves_evalAll hc items) fun _ => .onHeap fun h => ev.newArray h _
  | index array index line =>
    exact .bind ev (evolves_eval hc array) fun _ => .bind ev (.ofExcept ev _ _) fun _ =>
      .bind ev (evolves_eval hc index) fun _ => evolves_readSlot ev _ _ _
  | reference expr line => exact evolves_eval hc expr
  | cast expr type line => exact .bind ev (evolves_eval hc expr) fun _ => .ofExcept ev _ _
  | call callee arguments target injected line =>
    cases target with
    | some target =>
      exact .bind ev (evolves_evalAll hc arguments) fun _ => evolves_callTarget ev hc _ _ _ _
    | none => exact .fail ev _ _
termination_by structural e

theorem evolves_evalAll (hc : c.Evolving p R) (es : List Expr) : Evolves R (evalAll c es) := by
  cases es with
  | nil => exact .pure ev _
  | cons e rest =>
    exact .bind ev (evolves_eval hc e) fun _ => .bind ev (evolves_evalAll hc rest) fun _ => .pure ev _
termination_by structural es

end

theorem evolves_condition (hc : c.Evolving p R) (e : Expr) (line : Nat) :
    Evolves R (condition c e line) :=
  .bind ev (evolves_eval ev hc e) fun _ => .ofExcept ev _ _

theorem evolves_goesOn (hc : c.Evolving p R) (e : Expr) (line : Nat) :
    Evolves R (goesOn c e line) := by
  refine .bind ev (.read ev _) fun returned => ?_
  cases returned with
  | true => exact .pure ev false
  | false => exact evolves_condition ev hc e line

theorem evolves_writeVar (name : String) (value : Value) (line : Nat) :
    Evolves R (writeVar name value line) := by
  intro s
  unfold writeVar
  split
  · exact ev.refl s.heap
  · exact ev.refl s.heap

theorem evolves_store (hc : c.Evolving p R) (target : Expr) (value : Value) (line : Nat) :
    Evolves R (store c target value line) := by
  cases target with
  | var name type place => exact evolves_writeVar ev name value line
  | field base name type place =>
    exact .bind ev (evolves_eval ev hc base) fun _ => .bind ev (.ofExcept ev _ _) fun _ =>
      .onHeap fun h => ev.setField h _ _ _
  | index array index place =>
    exact .bind ev (evolves_eval ev hc array) fun _ => .bind ev (.ofExcept ev _ _) fun ref =>
      .bind ev (evolves_eval ev hc index) fun _ => .bind ev (.ofExcept ev _ _) fun _ =>
        .bind ev (.read ev _) fun _ => .bind ev (.ofExcept ev _ _) fun _ =>
          .onHeap fun h => ev.modifyArray h ref _
  | _ => exact .fail ev _ _

theorem evolves_assign (hc : c.Evolving p R) (declares : Bool) (target value : Expr)
    (line : Nat) : Evolves R (assign c declares target value line) := by
  refine .bind ev (evolves_eval ev hc value) fun v => ?_
  split
  · exact fun s => ev.refl s.heap
  · exact evolves_store ev hc target v line

mutual

theorem evolves_exec (hc : c.Evolving p R) (statement : Statement) : Evolves R (exec c statement) := by
  cases statement with
  | block statements line => exact .inScope (evolves_execAll hc statements)
  | assign declares target written value line => exact evolves_assign ev hc declares target value line
  | ret value line => exact .bind ev (evolves_eval ev hc value) fun _ s => ev.refl s.heap
  | ifThen test body line =>
    refine .bind ev (evolves_condition ev hc test line) fun holds => ?_
    cases holds with
    | true => exact .inScope (evolves_exec hc body)
    | false => exact .pure ev ()
  | ifElse test body otherwise line =>
    refine .bind ev (evolves_condition ev hc test line) fun holds => ?_
    cases holds with
    | true => exact .inScope (evolves_exec hc body)
    | false => exact .inScope (evolves_exec hc otherwise)
  | whileLoop test body line =>
    exact .loop ev (evolves_goesOn ev hc test line) (.inScope (evolves_exec hc body)) _
  | forLoop first test step body line =>
    refine .inScope (.bind ev (evolves_exec hc first) fun _ => ?_)
    refine .loop ev (evolves_goesOn ev hc test line) ?_ _
    exact .bind ev (.inScope (evolves_exec hc body)) fun _ => .unlessReturned ev (evolves_exec hc step)
  | call callee arguments target injected line =>
    cases target with
    | some target =>
      exact .bind ev (evolves_evalAll ev hc arguments) fun _ =>
        .bind ev (evolves_callTarget ev hc _ _ _ _) fun _ => .pure ev ()
    | none => exact .fail ev _ _
termination_by structural statement

theorem evolves_execAll (hc : c.Evolving p R) (statements : List Statement) :
    Evolves R (execAll c statements) := by
  cases statements with
  | nil => exact .pure ev ()
  | cons statement rest =>
    exact .unlessReturned ev <| .bind ev (evolves_exec hc statement) fun _ => evolves_execAll hc rest
termination_by structural statements

end
end Bodies

theorem evolves_callWithin (rounds depth : Nat) (id : FunctionId) (arguments : List Value)
    (line : Nat) : Evolves R (callWithin p rounds depth id arguments line) := by
  induction depth generalizing id arguments line with
  | zero => exact fun _ => trivial
  | succ depth ih =>
    simp only [callWithin]
    split
    · split
      · exact evolves_callNative ev _ _ _
      · exact .inFrame _ (evolves_execAll ev ⟨rfl, ih⟩ _)
    · exact .fail ev _ _

theorem evolving_within (rounds depth : Nat) : (within p rounds depth).Evolving p R :=
  ⟨rfl, evolves_callWithin ev rounds depth⟩

end Evolution

section Lasting

variable {P : Heap → Prop} {s : State}

theorem Evolves.after {x : Eval α} (h : Evolves R x) :
    After x s fun _ t => R s.heap t.heap := by
  intro v t done
  have := h s
  rwa [done] at this

theorem Evolves.around {x : Eval α} (h : Evolves (fun h h' => P h → P h') x) (holds : P s.heap)
    (values : α → List Value) : Watch.Around (fun _ => P) values x s :=
  ⟨holds, (h s).mono (fun _ _ keeps => keeps holds) fun _ _ keeps => keeps holds⟩

structure Watch.Lasting (w : Watch) (p : Program) (P : Heap → Prop) : Prop where
  kept : Heap.Evolution p.types fun h h' => P h → P h'
  context : w.context.Evolving p fun h h' => P h → P h'
  claim : w.claim = fun _ => P
  calls : ∀ id arguments line (s : State), P s.heap → w.call id arguments line s

namespace Watch.Lasting

variable {w : Watch}

theorem around (l : w.Lasting p P) {x : Eval α} (h : Evolves (fun h h' => P h → P h') x)
    (holds : P s.heap) (values : α → List Value) : Watch.Around w.claim values x s :=
  l.claim ▸ h.around holds values

mutual

theorem expr (l : w.Lasting p P) (e : Expr) {s : State} (holds : P s.heap) : w.expr e s := by
  have around := l.around (evolves_eval l.kept l.context e) holds fun v => [v]
  have after (e : Expr) {s : State} (holds : P s.heap) :
      After (eval w.context e) s fun _ t => P t.heap :=
    fun v t done => (evolves_eval l.kept l.context e).after v t done holds
  cases e with
  | binary op lhs rhs line =>
    exact ⟨around, l.expr lhs holds, fun v t done => l.expr rhs (after lhs holds v t done)⟩
  | literal value line => exact ⟨around, trivial⟩
  | var name type line => exact ⟨around, trivial⟩
  | field base name type line => exact ⟨around, l.expr base holds⟩
  | new type line => exact ⟨around, trivial⟩
  | allocate element size line => exact ⟨around, l.expr size holds⟩
  | array element items line => exact ⟨around, l.exprs items holds⟩
  | index base place line =>
    exact ⟨around, l.expr base holds, fun v t done _ _ => l.expr place (after base holds v t done)⟩
  | reference e line => exact ⟨around, l.expr e holds⟩
  | cast e type line => exact ⟨around, l.expr e holds⟩
  | call callee arguments target injected line =>
    cases target with
    | none => exact ⟨around, trivial⟩
    | some target =>
      refine ⟨around, l.exprs arguments holds, fun v t done => l.calls _ _ _ _ ?_⟩
      exact (evolves_evalAll l.kept l.context arguments).after v t done holds
termination_by structural e

theorem exprs (l : w.Lasting p P) (es : List Expr) {s : State} (holds : P s.heap) :
    w.exprs es s := by
  cases es with
  | nil => trivial
  | cons e rest =>
    refine ⟨l.expr e holds, fun v t done => l.exprs rest ?_⟩
    exact (evolves_eval l.kept l.context e).after v t done holds
termination_by structural es

end

theorem place (l : w.Lasting p P) (target : Expr) (holds : P s.heap) : w.place target s := by
  cases target with
  | field base name type line => exact l.expr base holds
  | index base place line =>
    refine ⟨l.expr base holds, fun v t done _ _ => l.expr place ?_⟩
    exact (evolves_eval l.kept l.context base).after v t done holds
  | _ => trivial

theorem loop {test : Eval Bool} {body : Eval Unit} (htest : Evolves (fun h h' => P h → P h') test)
    (hbody : Evolves (fun h h' => P h → P h') body) {tested round : State → Prop}
    (first : ∀ t : State, P t.heap → tested t) (second : ∀ t : State, P t.heap → round t)
    (holds : P s.heap) : Watch.loop test body s tested round := by
  intro t head
  have here : P t.heap := by
    induction head with
    | first => exact holds
    | next t u v head again done ih => exact hbody.after () v done (htest.after true u again ih)
  exact ⟨fun _ => first t here, fun again u done _ => second u (htest.after again u done here)⟩

mutual

theorem statement (l : w.Lasting p P) (st : Statement) {s : State} (holds : P s.heap) :
    w.statement st s := by
  have around := l.around (evolves_exec l.kept l.context st) holds fun _ => []
  have tested (e : Expr) (line : Nat) {s : State} (holds : P s.heap) :
      After (condition w.context e line) s fun _ t => P t.heap :=
    fun v t done => (evolves_condition l.kept l.context e line).after v t done holds
  cases st with
  | block statements line => exact ⟨around, l.statements statements holds⟩
  | assign declares target written value line =>
    refine ⟨around, l.expr value holds, fun v t done => l.place target ?_⟩
    exact (evolves_eval l.kept l.context value).after v t done holds
  | ret value line => exact ⟨around, l.expr value holds⟩
  | ifThen test body line =>
    exact ⟨around, l.expr test holds, fun v t done _ =>
      l.statement body (tested test line holds v t done)⟩
  | ifElse test body otherwise line =>
    exact ⟨around, l.expr test holds, fun v t done =>
      ⟨fun _ => l.statement body (tested test line holds v t done),
        fun _ => l.statement otherwise (tested test line holds v t done)⟩⟩
  | whileLoop test body line =>
    exact ⟨around, loop (evolves_goesOn l.kept l.context test line)
      (.inScope (evolves_exec l.kept l.context body)) (fun _ here => l.expr test here)
      (fun _ here => l.statement body here) holds⟩
  | forLoop first test step body line =>
    have inside := Evolves.inScope (evolves_exec l.kept l.context body)
    refine ⟨around, l.statement first holds, fun v t done => ?_⟩
    refine loop (evolves_goesOn l.kept l.context test line)
      (.bind l.kept inside fun _ => .unlessReturned l.kept (evolves_exec l.kept l.context step))
      (fun _ here => l.expr test here) (fun u here => ⟨l.statement body here, ?_⟩)
      ((evolves_exec l.kept l.context first).after v t done holds)
    exact fun w x done _ => l.statement step (inside.after w x done here)
  | call callee arguments target injected line =>
    cases target with
    | none => exact ⟨around, trivial⟩
    | some target =>
      refine ⟨around, l.exprs arguments holds, fun v t done => l.calls _ _ _ _ ?_⟩
      exact (evolves_evalAll l.kept l.context arguments).after v t done holds
termination_by structural st

theorem statements (l : w.Lasting p P) (sts : List Statement) {s : State} (holds : P s.heap) :
    w.statements sts s := by
  cases sts with
  | nil => trivial
  | cons st rest =>
    refine fun _ => ⟨l.statement st holds, fun v t done => l.statements rest ?_⟩
    exact (evolves_exec l.kept l.context st).after v t done holds
termination_by structural sts

end

end Watch.Lasting

variable (kept : Heap.Evolution p.types fun h h' => P h → P h')
include kept

/-- What every operation keeps holds all along a call. -/
theorem lasts_call (rounds depth : Nat) (id : FunctionId) (arguments : List Value) (line : Nat)
    {s : State} (holds : P s.heap) :
    callThroughout (fun _ => P) p rounds depth id arguments line s := by
  induction depth generalizing id arguments line s with
  | zero => exact holds
  | succ depth ih =>
    refine ⟨holds, (evolves_callWithin kept rounds (depth + 1) id arguments line).around holds _,
      fun _ _ => ?_⟩
    exact Watch.Lasting.statements (p := p)
      ⟨kept, evolving_within kept rounds depth, rfl, fun id arguments line _ => ih id arguments line⟩
      _ holds

theorem evolves_callIfAny (bound : Nat) (id : Option FunctionId) (line : FunctionId → Nat)
    (value : Value) : Evolves (fun h h' => P h → P h') (callIfAny p bound id line value) := by
  cases id with
  | none => exact .pure kept value
  | some id => exact evolves_callWithin kept bound bound id [] (line id)

theorem evolves_run (bound : Nat) (entry : Option Entry) :
    Evolves (fun h h' => P h → P h') (run p bound entry) := by
  cases entry with
  | none => exact fun _ holds => holds
  | some entry =>
    exact .bind kept (evolves_callIfAny kept bound _ _ _) fun _ =>
      .bind kept (evolves_callIfAny kept bound _ _ _) fun _ =>
        .bind kept (.onConsole kept 0 _) fun _ => .pure kept _

end Lasting
end Machine

/-- What holds of an empty heap and is kept by every operation holds all along every run. -/
theorem Compilation.lasts {c : Compilation} {P : Heap → Prop}
    (kept : Heap.Evolution c.program.types fun h h' => P h → P h') (start : P {}) (bound : Nat)
    (console : Console) : c.Throughout (fun _ => P) bound console where
  start := start
  outcome := (Machine.evolves_run kept bound _ { console }).mono (fun _ _ keeps => keeps start)
    fun _ _ keeps => keeps start
  body _ _ f _ := Machine.lasts_call kept bound bound f [] _ start
  main _ _ := fun v t done f _ => Machine.lasts_call kept bound bound f [] _
    ((Machine.evolves_callIfAny kept bound _ _ _).after v t done start)

end ObjectLang
