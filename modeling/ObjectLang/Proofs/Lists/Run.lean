import ObjectLang.Proofs.Lists.Heap
import ObjectLang.Proofs.Lists.Ready
import ObjectLang.Proofs.Machine.Outcome
set_option autoImplicit false

/-!
# Runs of list methods

What the bound trees of the list methods do, statement by statement: how each of them ends, and what
the heap is then.
-/

namespace ObjectLang

/-- Objects of a list type begin with an array of their own. -/
structure Program.ListLayout (p : Program) (element list array : TypeId) : Prop where
  primitives : ∀ t : Primitive, p.types.get t.id = .primitive t
  storage : p.types.get array = .array element
  distinct : ((p.types.fields list).map Prod.fst).Nodup
  field : (p.types.fields list).lookup "_arr" = some array

namespace Machine

open Eval ListMethod

theorem count_of_toInt {n : Word} {k : Nat} (hn : n.toInt = k) : Value.count n = .ok k := by
  rw [Value.count, Word.count?, if_pos (by omega), hn]
  rfl

theorem place_of_toInt {n : Word} {k length : Nat} (hn : n.toInt = k) (hk : k < length) :
    Value.place n length = .ok k := by
  rw [Value.place, Word.place?, if_pos (by omega), hn]
  rfl

section Steps

variable {α β : Type} {c : Context} {s t : State} {a : ObjectRef} {line : Nat}

theorem bind_done {x : Eval α} {value : α} (h : x s = .done value t) (f : α → Eval β) :
    (x >>= f) s = f value t := by
  rw [bind_run, h]

theorem bind_fault {x : Eval α} {e : Fault} (h : x s = .fault e t) (f : α → Eval β) :
    (x >>= f) s = .fault e t := by
  rw [bind_run, h]

theorem ofExcept_ok {result : Except Fault.Cause α} {value : α} (h : result = .ok value) :
    ofExcept line result s = .done value s := by
  rw [h]
  rfl

theorem eval_var {name : String} {value : Value} (bound : s.scopes.get? name = some value) :
    eval c (var name) s = .done value s := by
  rw [var, eval, readVar, bind_done (rfl : Eval.read _ s = .done (s.scopes.get? name) s), bound]
  rfl

theorem readField_object {name : String} {value : Value}
    (found : (s.heap.object a).fields.find? name = some value) :
    readField (.object a) name line s = .done value s := by
  have object : (Value.object a).asObject = .ok a := rfl
  rw [readField, bind_done (ofExcept_ok object),
    bind_done (rfl : Eval.read _ s = .done ((s.heap.object a).fields.find? name) s), found]
  rfl

theorem eval_own {field : String} {value : Value}
    (self : s.scopes.get? receiverName = some (.object a))
    (found : (s.heap.object a).fields.find? field = some value) :
    eval c (own field) s = .done value s := by
  have base : eval c (.var receiverName none 0) s = .done (.object a) s := eval_var self
  rw [own, var, eval, bind_done base]
  exact readField_object found

theorem eval_binary {op : BinaryOperator} {lhs rhs : Expr} {x y value : Value}
    (left : eval c lhs s = .done x s) (right : eval c rhs s = .done y s)
    (applied : op.apply x y = .ok value) : eval c (binary op lhs rhs) s = .done value s := by
  rw [binary, eval, bind_done left, bind_done right, applied]
  rfl

theorem evalAll_nil : evalAll c [] s = .done [] s := rfl

theorem evalAll_cons {e : Expr} {es : List Expr} {value : Value} {values : List Value} {u : State}
    (head : eval c e s = .done value t) (tail : evalAll c es t = .done values u) :
    evalAll c (e :: es) s = .done (value :: values) u := by
  rw [evalAll, bind_done head, bind_done tail]
  rfl

theorem execAll_cons {statement : Statement} {rest : List Statement} (goes : s.returned = none)
    (done : exec c statement s = .done () t) :
    execAll c (statement :: rest) s = execAll c rest t := by
  rw [execAll, hasReturned_bind, goes]
  exact bind_done done _

theorem execAll_nil : execAll c [] s = .done () s := rfl

theorem execAll_cons_fault {statement : Statement} {rest : List Statement} {e : Fault}
    (goes : s.returned = none) (faults : exec c statement s = .fault e t) :
    execAll c (statement :: rest) s = .fault e t := by
  rw [execAll, hasReturned_bind, goes]
  exact bind_fault faults _

theorem exec_assign_own {field : String} {value : Expr} {v : Value}
    (evaluated : eval c value s = .done v t)
    (self : t.scopes.get? receiverName = some (.object a)) :
    exec c (ListMethod.assign (own field) value) s =
      .done () { t with heap := t.heap.setField a field v } := by
  have base : eval c (.var receiverName none 0) t = .done (.object a) t := eval_var self
  rw [ListMethod.assign, exec, Machine.assign, bind_done evaluated, own]
  dsimp only
  rw [store, var, bind_done base]
  rfl

theorem exec_assign_slot {b : ArrayRef} {n : Word} {k : Nat} {value : Expr} {v : Value}
    (evaluated : eval c value s = .done v s)
    (self : s.scopes.get? receiverName = some (.object a))
    (storage : (s.heap.object a).fields.find? "_arr" = some (.array b))
    (size : (s.heap.object a).fields.find? "size" = some (.int n)) (hn : n.toInt = k)
    (room : k < (s.heap.array b).size) :
    exec c (ListMethod.assign (.index (own "_arr") (own "size") 0) value) s =
      .done () { s with heap := s.heap.setSlot b k v } := by
  have array : (Value.array b).asArray = .ok b := rfl
  have index : (Value.int n).asInt = .ok n := rfl
  rw [ListMethod.assign, exec, Machine.assign, bind_done evaluated]
  dsimp only
  rw [store, bind_done (eval_own self storage), bind_done (ofExcept_ok array),
    bind_done (eval_own self size), writeSlot, bind_done (ofExcept_ok index),
    bind_done (rfl : Eval.read _ s = .done (s.heap.array b).size s),
    bind_done (ofExcept_ok (place_of_toInt hn room))]
  rfl

theorem exec_assign_fault {declares : Bool} {target value : Expr} {written : Option TypeId}
    {e : Fault} (faults : eval c value s = .fault e t) :
    exec c (.assign declares target written value 0) s = .fault e t := by
  rw [exec, Machine.assign, bind_fault faults]

theorem exec_declare {name : String} {value : Expr} {v : Value}
    (evaluated : eval c value s = .done v t) :
    exec c (.declare (var name) value 0) s =
      .done () { t with scopes := t.scopes.push name v } := by
  rw [Statement.declare, exec, Machine.assign, bind_done evaluated]
  rfl

theorem exec_ret {value : Expr} {v : Value} (evaluated : eval c value s = .done v t) :
    exec c (.ret value 0) s = .done () { t with returned := some v } := by
  rw [exec, bind_done evaluated]
  rfl

theorem exec_ifThen {test : Expr} (body : Statement) {holds : Bool}
    (evaluated : eval c test s = .done (.bool holds) s) :
    exec c (.ifThen test body 0) s =
      if holds then inScope (exec c body) s else .done () s := by
  have tested : condition c test 0 s = .done holds s := by
    rw [condition, bind_done evaluated]
    rfl
  rw [exec, bind_done tested]
  cases holds <;> rfl

theorem inScope_done {x : Eval Unit}
    (done : x { s with scopes := s.scopes.openSegment [] } = .done () t) :
    inScope x s = .done () { t with scopes := t.scopes.closeSegment } := by
  rw [inScope, closing, done]

theorem inScope_fault {x : Eval Unit} {e : Fault}
    (faults : x { s with scopes := s.scopes.openSegment [] } = .fault e t) :
    inScope x s = .fault e { t with scopes := t.scopes.closeSegment } := by
  rw [inScope, closing, faults]

end Steps

section Calls

variable {c : Context} {s t u : State} {p : Program} {f : FunctionId} {line : Nat}
  {rounds depth : Nat}

theorem callTarget_free (arguments : List Value) :
    callTarget c f false arguments line s = c.call f arguments line s := rfl

theorem callTarget_method (fixed : (c.program.function f).traits.isVirtual = false)
    (own : (c.program.function f).traits.isOverride = false) (arguments : List Value) :
    callTarget c f true arguments line s = c.call f arguments line s := by
  have same : dispatch c.program f arguments.head? s.heap = f := by
    unfold dispatch
    dsimp only
    split
    · rw [fixed, own]
      rfl
    · rfl
  rw [callTarget, if_pos rfl, bind_done (rfl : Eval.read _ s = .done _ s), same]

theorem exec_call (callee : Expr) {arguments : List Expr} {injected : Bool} {values : List Value}
    {value : Value} (evaluated : evalAll c arguments s = .done values t)
    (called : callTarget c f injected values 0 t = .done value u) :
    exec c (.call callee arguments (some f) injected 0) s = .done () u := by
  rw [exec, bind_done evaluated, bind_done called]
  rfl

theorem exec_call_fault (callee : Expr) {arguments : List Expr} {injected : Bool}
    {values : List Value} {e : Fault} (evaluated : evalAll c arguments s = .done values t)
    (called : callTarget c f injected values 0 t = .fault e u) :
    exec c (.call callee arguments (some f) injected 0) s = .fault e u := by
  rw [exec, bind_done evaluated, bind_fault called]

theorem callWithin_host {native : Native} (hosts : p.Hosts native f) {arguments : List Value}
    (arity : arguments.length = native.arity) :
    callWithin p rounds (depth + 1) f arguments line = native.call line arguments := by
  have named : Native.named? (p.function f).name = some native := by
    rw [hosts.named]
    cases native <;> rfl
  rw [callWithin, if_pos (arity.trans hosts.arity.symm), if_pos hosts.host, callNative, named]

variable {host : String → FunctionId} {resize : FunctionId} {list : TypeId} {g : Function}

theorem callWithin_method (runs : p.Runs host resize list g f)
    (written : (g.asMethod list).isNative = false) {arguments : List Value}
    (arity : arguments.length = (g.asMethod list).parameters.length) :
    callWithin p rounds (depth + 1) f arguments line =
      inFrame (((g.asMethod list).parameters.map Parameter.name).zip arguments)
        (execAll { program := p, call := callWithin p rounds depth, rounds }
          ((g.asMethod list).body.map (·.bound host resize))) := by
  have parameters := congrArg Function.parameters runs.declared
  have native := congrArg Function.isNative runs.declared
  change (p.function f).parameters = (g.asMethod list).parameters at parameters
  change (p.function f).isNative = (g.asMethod list).isNative at native
  rw [callWithin, parameters, if_pos arity, native, written, if_neg (by decide), runs.body]

theorem inFrame_done {bindings : List (String × Value)} {body : Eval Unit}
    (done : body { s with scopes := Scopes.empty.openSegment bindings, returned := none } =
      .done () t) :
    inFrame bindings body s =
      .done (t.returned.getD .void) { t with scopes := s.scopes, returned := s.returned } := by
  rw [inFrame_run, done]

theorem inFrame_fault {bindings : List (String × Value)} {body : Eval Unit} {e : Fault}
    (faults : body { s with scopes := Scopes.empty.openSegment bindings, returned := none } =
      .fault e t) :
    inFrame bindings body s = .fault e { t with scopes := s.scopes, returned := s.returned } := by
  rw [inFrame_run, faults]

end Calls

section Arrays

variable {c : Context} {s t : State} {line : Nat}

theorem panic_text (text : String) :
    Native.panic.call line [.char text] s = .fault (.at line (.panic text)) s := by
  have parts : s.heap.parts? (.char text) = some [text] := by
    rw [Heap.parts?, Heap.partsWithin]
  have shown : display (.char text) s = .done [text] s := by
    rw [display, parts]
  have joined : String.join [text] = text := by simp [String.join]
  rw [Native.call, bind_done shown, joined]
  rfl

theorem copy_of_toInt (dest src : ArrayRef) {n : Word} {k : Nat} (hn : n.toInt = k) :
    let length := min (s.heap.array src).size (s.heap.array dest).size
    copy line (.array dest) (.array src) (.int n) s =
      if dest = src then .done .void s
      else if k ≤ length then .done .void { s with heap := s.heap.copySlots dest src k }
      else .fault (.at line (.indexOutOfBounds length n.toInt)) s := by
  intro length
  have array (b : ArrayRef) : (Value.array b).asArray = .ok b := rfl
  have int : (Value.int n).asInt = .ok n := rfl
  rw [copy, bind_done (ofExcept_ok (array dest)), bind_done (ofExcept_ok (array src)),
    bind_done (ofExcept_ok int), bind_done (ofExcept_ok (count_of_toInt hn))]
  by_cases same : dest = src
  · rw [if_pos same, if_pos same]
    rfl
  rw [if_neg same, if_neg same, bind_done (rfl : Eval.read _ s = .done _ s)]
  by_cases inside : k ≤ length
  · rw [if_pos inside, if_pos inside]
    rfl
  · rw [if_neg inside, if_neg inside]
    rfl

theorem copy_done {dest src : ArrayRef} {n : Word} {k : Nat} (hn : n.toInt = k) (ne : dest ≠ src)
    (hs : k ≤ (s.heap.array src).size) (hd : k ≤ (s.heap.array dest).size) :
    copy line (.array dest) (.array src) (.int n) s =
      .done .void { s with heap := s.heap.copySlots dest src k } := by
  rw [copy_of_toInt dest src hn, if_neg ne, if_pos (Nat.le_min.2 ⟨hs, hd⟩)]

theorem eval_allocate {element : TypeId} {size : Expr} {n : Word} {k : Nat} (hn : n.toInt = k)
    (evaluated : eval c size s = .done (.int n) s) (bounded : k ≤ s.heap.room) :
    let first := s.heap.default c.program.types element
    let new := first.2.newArray (.replicate k first.1)
    eval c (.allocate element size 0) s = .done new.1 { s with heap := new.2 } := by
  intro first new
  have int : (Value.int n).asInt = .ok n := rfl
  have room : first.2.room = s.heap.room := Heap.room_default ..
  have filled : first.2.fill first.1 k = .ok new := if_pos (room ▸ bounded)
  rw [eval, bind_done evaluated, bind_done (ofExcept_ok int),
    bind_done (ofExcept_ok (count_of_toInt hn)),
    bind_done (rfl : onHeap _ s = .done first.1 { s with heap := first.2 }), Machine.allocate,
    bind_done (rfl : Eval.read _ _ = .done first.2 _), filled]
  rfl

theorem eval_allocate_fails (element : TypeId) {size : Expr} {n : Word} {k : Nat}
    (hn : n.toInt = k) (evaluated : eval c size s = .done (.int n) s)
    (large : s.heap.room < k) : ∃ t : State,
      eval c (.allocate element size 0) s = .fault (.at 0 (.allocationFailed k)) t := by
  let first := s.heap.default c.program.types element
  have int : (Value.int n).asInt = .ok n := rfl
  have room : first.2.room = s.heap.room := Heap.room_default ..
  have refused : first.2.fill first.1 k = .error (.allocationFailed k) :=
    if_neg (Nat.not_le.2 (room ▸ large))
  refine ⟨{ s with heap := first.2 }, ?_⟩
  rw [eval, bind_done evaluated, bind_done (ofExcept_ok int),
    bind_done (ofExcept_ok (count_of_toInt hn)),
    bind_done (rfl : onHeap _ s = .done first.1 { s with heap := first.2 }), Machine.allocate,
    bind_done (rfl : Eval.read _ _ = .done first.2 _), refused]
  rfl

end Arrays

section Methods

variable {s : State} {p : Program} {host : String → FunctionId} {resize f : FunctionId}
  {list element array : TypeId} {rounds depth line : Nat} {a : ObjectRef} {b : ArrayRef}
  {xs : List Value}

variable (rounds depth line) in
/-- What `reSize` finds and leaves: the elements move to new storage of the given size. -/
theorem reSize_done (runs : p.Runs host resize list (reSize element) f)
    (hosts : p.Hosts .memcpy (host "memcpy")) (stores : s.heap.Stores a b xs) {m : Word} {k : Nat}
    (hm : m.toInt = k) (room : xs.length ≤ k) (bounded : k ≤ s.heap.room) :
    ∃ h b', callWithin p rounds (depth + 2) f [.object a, .int m] line s =
        .done .void { s with heap := h } ∧
      h.Holds a b' xs ∧ (h.array b').size = k ∧ s.heap.arrays.size ≤ b'.index ∧
      Heap.Changes (· = a) (fun _ => False) s.heap h := by
  obtain ⟨n, size, hn⟩ := stores.size
  let c : Context := { program := p, call := callWithin p rounds (depth + 1), rounds }
  let first := s.heap.default p.types element
  let new := first.2.newArray (.replicate k first.1)
  let b' : ArrayRef := ⟨first.2.arrays.size⟩
  have changes : Heap.Changes (fun _ => False) (fun _ => False) s.heap new.2 :=
    (Heap.changes_default _ _ _).trans (Heap.changes_newArray _ _)
  have fresh : s.heap.arrays.size ≤ b'.index :=
    (Heap.changes_default (A := fun _ => False) (B := fun _ => False) s.heap p.types element).arrays
  have inside : b'.index < new.2.arrays.size :=
    Nat.lt_of_lt_of_eq (Nat.lt_succ_self _) (Array.size_push _).symm
  have slots : (new.2.array b').size = k := by
    rw [Heap.array_newArray, Array.size_replicate]
  obtain ⟨holds, changed, same⟩ := stores.moves changes fresh inside (slots ▸ room)
    (slots ▸ Nat.le_trans bounded s.heap.room_le) (hm.trans (congrArg Nat.cast slots.symm))
  refine ⟨_, b', ?_, holds, same.trans slots, fresh, changed⟩
  rw [callWithin_method runs rfl rfl]
  let σ : Scopes Value := Scopes.empty.openSegment [(receiverName, .object a), ("new_size", .int m)]
  let s₀ : State := { s with scopes := σ, returned := none }
  let s₁ : State := { s₀ with scopes := σ.push "arr" (.array b) }
  let s₂ : State := { s₁ with heap := new.2.setField a "_arr" (.array b') }
  let s₃ : State := { s₂ with heap := s₂.heap.copySlots b' b xs.length }
  let s₄ : State := { s₃ with heap := s₃.heap.setField a "max_size" (.int m) }
  have kept := stores.changes changes not_false not_false
  have reads := Heap.find?_setField new.2 kept.object "_arr" (.array b')
  have ne : b' ≠ b := fun same => absurd stores.array (Nat.not_lt.2 (same ▸ fresh))
  have held : exec c (.declare (var "arr") (own "_arr") 0) s₀ = .done () s₁ :=
    exec_declare (eval_own rfl stores.storage)
  have allocated : exec c (ListMethod.assign (own "_arr")
      (.allocate element (var "new_size") 0)) s₁ = .done () s₂ :=
    exec_assign_own (eval_allocate (s := s₁) hm (eval_var rfl) bounded) rfl
  have copied : exec c (.call (var "memcpy") [own "_arr", var "arr", own "size"]
      (some (host "memcpy")) false 0) s₂ = .done () s₃ := by
    have size' : (s₂.heap.object a).fields.find? "size" = some (.int n) := by
      rw [← size, ← changes.object a stores.object not_false]
      exact reads "size"
    have called : callTarget c (host "memcpy") false [.array b', .array b, .int n] 0 s₂ =
        .done .void s₃ :=
      (congrFun (callWithin_host hosts rfl) s₂).trans
        (copy_done hn ne kept.length_le (slots ▸ room))
    exact exec_call _ (evalAll_cons (eval_own rfl (reads "_arr")) (evalAll_cons (eval_var rfl)
      (evalAll_cons (eval_own rfl size') evalAll_nil))) called
  have resized : exec c (ListMethod.assign (own "max_size") (var "new_size")) s₃ = .done () s₄ :=
    exec_assign_own (eval_var rfl) rfl
  refine inFrame_done (t := s₄) ?_
  exact (execAll_cons rfl held).trans ((execAll_cons rfl allocated).trans
    ((execAll_cons rfl copied).trans ((execAll_cons rfl resized).trans execAll_nil)))

variable (rounds depth line) in
theorem reSize_fails (runs : p.Runs host resize list (reSize element) f)
    (stores : s.heap.Stores a b xs) {m : Word} {k : Nat} (hm : m.toInt = k)
    (large : s.heap.room < k) :
    ∃ t, callWithin p rounds (depth + 1) f [.object a, .int m] line s =
      .fault (.at 0 (.allocationFailed k)) t := by
  let c : Context := { program := p, call := callWithin p rounds depth, rounds }
  let σ : Scopes Value := Scopes.empty.openSegment [(receiverName, .object a), ("new_size", .int m)]
  let s₀ : State := { s with scopes := σ, returned := none }
  let s₁ : State := { s₀ with scopes := σ.push "arr" (.array b) }
  have held : exec c (.declare (var "arr") (own "_arr") 0) s₀ = .done () s₁ :=
    exec_declare (eval_own rfl stores.storage)
  have size : eval c (var "new_size") s₁ = .done (.int m) s₁ := eval_var rfl
  obtain ⟨t, refused⟩ := eval_allocate_fails element hm size large
  have failed : exec c (ListMethod.assign (own "_arr")
      (.allocate element (var "new_size") 0)) s₁ = .fault (.at 0 (.allocationFailed k)) t :=
    exec_assign_fault refused
  rw [callWithin_method runs rfl rfl]
  exact ⟨_, inFrame_fault ((execAll_cons rfl held).trans (execAll_cons_fault rfl failed))⟩

theorem callTarget_reSize {c : Context} (program : c.program = p)
    (calls : c.call = callWithin p rounds (depth + 2))
    (runs : p.Runs host resize list (reSize element) f) (arguments : List Value) :
    callTarget c f true arguments line s = callWithin p rounds (depth + 2) f arguments line s := by
  have traits := congrArg Function.traits runs.declared
  change (p.function f).traits = _ at traits
  rw [callTarget_method (program ▸ traits ▸ rfl) (program ▸ traits ▸ rfl), calls]

variable (rounds depth line) in
theorem getSize_done (runs : p.Runs host resize list getSize f) (stores : s.heap.Stores a b xs) :
    ∃ n : Word, n.toInt = xs.length ∧
      callWithin p rounds (depth + 1) f [.object a] line s = .done (.int n) s := by
  obtain ⟨n, size, hn⟩ := stores.size
  refine ⟨n, hn, ?_⟩
  rw [callWithin_method runs rfl rfl]
  let c : Context := { program := p, call := callWithin p rounds depth, rounds }
  let s₀ : State :=
    { s with scopes := Scopes.empty.openSegment [(receiverName, .object a)], returned := none }
  have found : exec c (.ret (own "size") 0) s₀ = .done () { s₀ with returned := some (.int n) } :=
    exec_ret (eval_own rfl size)
  exact inFrame_done ((execAll_cons rfl found).trans execAll_nil)

theorem eval_outside {c : Context} {i n : Word} (index : s.scopes.get? "index" = some (.int i))
    (self : s.scopes.get? receiverName = some (.object a))
    (size : (s.heap.object a).fields.find? "size" = some (.int n)) :
    eval c (binary .or (binary .less (var "index") (int 0))
      (binary .greaterEqual (var "index") (own "size"))) s =
      .done (.bool (decide (i.toInt < 0) || decide (n.toInt ≤ i.toInt))) s := by
  have zero : eval c (int 0) s = .done (.int 0) s := rfl
  have less : BinaryOperator.less.apply (.int i) (.int 0) = .ok (.bool (decide (i.toInt < 0))) := by
    change Except.ok (Value.bool (decide (i < 0))) = _
    rw [decide_eq_decide.2 Int64.lt_iff_toInt_lt]
    rfl
  have greater : BinaryOperator.greaterEqual.apply (.int i) (.int n) =
      .ok (.bool (decide (n.toInt ≤ i.toInt))) := by
    change Except.ok (Value.bool (decide (n ≤ i))) = _
    rw [decide_eq_decide.2 Int64.le_iff_toInt_le]
  exact eval_binary (eval_binary (eval_var index) zero less)
    (eval_binary (eval_var index) (eval_own self size) greater) rfl

theorem at_done (runs : p.Runs host resize list (elementAt element) f)
    (stores : s.heap.Stores a b xs) {i : Word} {k : Nat} (hi : i.toInt = k) (hk : k < xs.length) :
    callWithin p rounds (depth + 1) f [.object a, .int i] line s = .done xs[k] s := by
  obtain ⟨n, size, hn⟩ := stores.size
  rw [callWithin_method runs rfl rfl]
  let c : Context := { program := p, call := callWithin p rounds depth, rounds }
  let s₀ : State := { s with
    scopes := Scopes.empty.openSegment [(receiverName, .object a), ("index", .int i)]
    returned := none }
  have inside : eval c (binary .or (binary .less (var "index") (int 0))
      (binary .greaterEqual (var "index") (own "size"))) s₀ = .done (.bool false) s₀ := by
    have tested := eval_outside (c := c) (s := s₀) (i := i) rfl rfl size
    rwa [decide_eq_false (by omega), decide_eq_false (by omega)] at tested
  have slot : eval c (.index (own "_arr") (var "index") 0) s₀ = .done xs[k] s₀ := by
    have array : (Value.array b).asArray = .ok b := rfl
    have index : (Value.int i).asInt = .ok i := rfl
    have full : k < (s.heap.array b).size := Nat.lt_of_lt_of_le hk stores.length_le
    have element : (s.heap.array b)[k]? = some xs[k] := by
      obtain ⟨more, same⟩ := stores.elements
      rw [← Array.getElem?_toList, ← same, List.getElem?_append_left hk, List.getElem?_eq_getElem hk]
    rw [eval, bind_done (eval_own (s := s₀) rfl stores.storage), bind_done (ofExcept_ok array),
      bind_done (eval_var (rfl : s₀.scopes.get? "index" = some (.int i))), readSlot,
      bind_done (ofExcept_ok index),
      bind_done (rfl : Eval.read _ s₀ = .done (s.heap.array b) s₀),
      bind_done (ofExcept_ok (place_of_toInt hi full)), element]
    rfl
  have found : exec c (.ret (.index (own "_arr") (var "index") 0) 0) s₀ =
      .done () { s₀ with returned := some xs[k] } := exec_ret slot
  exact inFrame_done ((execAll_cons rfl (exec_ifThen _ inside)).trans
    ((execAll_cons rfl found).trans execAll_nil))

theorem at_panics (runs : p.Runs host resize list (elementAt element) f)
    (hosts : p.Hosts .panic (host "panic")) (stores : s.heap.Stores a b xs) {i : Word}
    (hi : ¬(0 ≤ i.toInt ∧ i.toInt < xs.length)) :
    callWithin p rounds (depth + 2) f [.object a, .int i] line s =
      .fault (.at 0 (.panic "list index out of range")) s := by
  obtain ⟨n, size, hn⟩ := stores.size
  rw [callWithin_method runs rfl rfl]
  let c : Context := { program := p, call := callWithin p rounds (depth + 1), rounds }
  let s₀ : State := { s with
    scopes := Scopes.empty.openSegment [(receiverName, .object a), ("index", .int i)]
    returned := none }
  have outside : eval c (binary .or (binary .less (var "index") (int 0))
      (binary .greaterEqual (var "index") (own "size"))) s₀ = .done (.bool true) s₀ := by
    have tested := eval_outside (c := c) (s := s₀) (i := i) rfl rfl size
    by_cases negative : i.toInt < 0
    · rwa [decide_eq_true negative, Bool.true_or] at tested
    · rwa [decide_eq_true (show n.toInt ≤ i.toInt by omega), Bool.or_true] at tested
  let message : Value := .char "list index out of range"
  let s₁ : State := { s₀ with scopes := s₀.scopes.openSegment [] }
  have called : callTarget c (host "panic") false [message] 0 s₁ =
      .fault (.at 0 (.panic "list index out of range")) s₁ :=
    (congrFun (callWithin_host hosts rfl) s₁).trans (panic_text _)
  have panicked : inScope (exec c (.call (var "panic")
      [.literal (.char "list index out of range") 0] (some (host "panic")) false 0)) s₀ =
      .fault (.at 0 (.panic "list index out of range")) s₀ :=
    inScope_fault (exec_call_fault _ (evalAll_cons rfl rfl) called)
  exact inFrame_fault (t := s₀) (execAll_cons_fault rfl ((exec_ifThen _ outside).trans panicked))

theorem eval_full {c : Context} (self : s.scopes.get? receiverName = some (.object a))
    (holds : s.heap.Holds a b xs) : eval c (binary .equal (own "size") (own "max_size")) s =
      .done (.bool (decide (xs.length = (s.heap.array b).size))) s := by
  obtain ⟨n, size, hn⟩ := holds.size
  obtain ⟨m, slots, hm⟩ := holds.slots
  have same : (n == m) = decide (xs.length = (s.heap.array b).size) := by
    rw [Bool.eq_iff_iff, beq_iff_eq, decide_eq_true_iff, ← Int64.toInt_inj, hn, hm, Int.natCast_inj]
  refine eval_binary (eval_own self size) (eval_own self slots) ?_
  rw [← same]
  rfl

theorem ofInt?_of_bounds {i : Int} (low : -9223372036854775808 ≤ i) (high : i < 9223372036854775808) :
    ∃ w, Word.ofInt? i = some w ∧ w.toInt = i :=
  ⟨Int64.ofInt i, if_pos ⟨low, high⟩, Int64.toInt_ofInt_of_le low (by omega)⟩

theorem apply_add {x y : Word} (low : -9223372036854775808 ≤ x.toInt + y.toInt)
    (high : x.toInt + y.toInt < 9223372036854775808) :
    ∃ w : Word, BinaryOperator.add.apply (.int x) (.int y) = .ok (.int w) ∧
      w.toInt = x.toInt + y.toInt := by
  obtain ⟨w, exact_, hw⟩ := ofInt?_of_bounds low high
  refine ⟨w, ?_, hw⟩
  change Value.exact (Word.add? x y) = _
  rw [Word.add?, exact_]
  rfl

theorem eval_grown {c : Context} (self : s.scopes.get? receiverName = some (.object a))
    (holds : s.heap.Holds a b xs) :
    ∃ k : Word, k.toInt = ((2 * (s.heap.array b).size + 1 : Nat) : Int) ∧
      eval c (binary .add (binary .multiply (own "max_size") (int 2)) (int 1)) s =
        .done (.int k) s := by
  obtain ⟨m, slots, hm⟩ := holds.slots
  have bounded := holds.bounded
  rw [Heap.addressable] at bounded
  have two : (2 : Word).toInt = 2 := rfl
  have one : (1 : Word).toInt = 1 := rfl
  obtain ⟨d, exact_, hd⟩ := ofInt?_of_bounds (i := (s.heap.array b).size * 2) (by omega) (by omega)
  have doubled : BinaryOperator.multiply.apply (.int m) (.int 2) = .ok (.int d) := by
    change Value.exact (Word.mul? m 2) = _
    rw [Word.mul?, hm, two, exact_]
    rfl
  obtain ⟨k, applied, hk⟩ := apply_add (x := d) (y := 1) (by omega) (by omega)
  refine ⟨k, by omega, ?_⟩
  exact eval_binary (eval_binary (eval_own self slots) rfl doubled) rfl applied

/-- `append` first makes room, if no slot is free. -/
theorem exec_makeRoom {c : Context} (program : c.program = p)
    (calls : c.call = callWithin p rounds (depth + 2))
    (moving : p.Runs host resize list (reSize element) resize)
    (hosts : p.Hosts .memcpy (host "memcpy"))
    (self : s.scopes.get? receiverName = some (.object a)) (holds : s.heap.Holds a b xs)
    (room : xs.length < (s.heap.array b).size ∨
      2 * (s.heap.array b).size + 1 ≤ s.heap.room) :
    ∃ h b', exec c (.ifThen (binary .equal (own "size") (own "max_size"))
        (.call (own "reSize") [var receiverName, binary .add (binary .multiply (own "max_size")
          (int 2)) (int 1)] (some resize) true 0) 0) s = .done () { s with heap := h } ∧
      h.Holds a b' xs ∧ xs.length < (h.array b').size ∧
      (b' = b ∨ s.heap.arrays.size ≤ b'.index) ∧ Heap.Changes (· = a) (· = b) s.heap h := by
  have short := holds.length_le
  have test := eval_full (c := c) self holds
  by_cases free : xs.length < (s.heap.array b).size
  · refine ⟨s.heap, b, ?_, holds, free, .inl rfl, .refl _⟩
    rw [exec_ifThen _ test, decide_eq_false (Nat.ne_of_lt free)]
    rfl
  · have full : xs.length = (s.heap.array b).size := by omega
    have fits : xs.length < 2 * (s.heap.array b).size + 1 := by omega
    let s₁ : State := { s with scopes := s.scopes.openSegment [] }
    obtain ⟨k, grown, grows⟩ := eval_grown (c := c) (s := s₁) self holds
    obtain ⟨h, b', called, holds', size, fresh, changes⟩ := reSize_done rounds depth 0 (s := s₁)
      moving hosts holds.toStores grown (Nat.le_of_lt fits) (room.resolve_left free)
    have receiver : eval c (var receiverName) s₁ = .done (.object a) s₁ := eval_var self
    have done := exec_call (own "reSize")
      (evalAll_cons receiver (evalAll_cons grows evalAll_nil))
      ((callTarget_reSize program calls moving _).trans called)
    refine ⟨h, b', ?_, holds', size ▸ fits, .inr fresh, changes.mono (fun _ _ same => same) nofun⟩
    rw [exec_ifThen _ test, decide_eq_true full, if_pos rfl, inScope_done done]
    dsimp only
    rw [Scopes.closeSegment_openSegment]

/-- `append` puts the value behind the elements, in more storage if there was no free slot. -/
theorem append_done (runs : p.Runs host resize list (append element) f)
    (moving : p.Runs host resize list (reSize element) resize)
    (hosts : p.Hosts .memcpy (host "memcpy")) (holds : s.heap.Holds a b xs) (value : Value)
    (room : xs.length < (s.heap.array b).size ∨
      2 * (s.heap.array b).size + 1 ≤ s.heap.room) :
    ∃ h b', callWithin p rounds (depth + 3) f [.object a, value] line s =
        .done .void { s with heap := h } ∧
      h.Holds a b' (xs ++ [value]) ∧ (b' = b ∨ s.heap.arrays.size ≤ b'.index) ∧
      Heap.Changes (· = a) (· = b) s.heap h := by
  let c : Context := { program := p, call := callWithin p rounds (depth + 2), rounds }
  let σ : Scopes Value := Scopes.empty.openSegment [(receiverName, .object a), ("item", value)]
  let s₀ : State := { s with scopes := σ, returned := none }
  obtain ⟨h₁, b₁, grown, holds₁, room₁, place₁, changes₁⟩ := exec_makeRoom (c := c) (s := s₀) rfl rfl
    moving hosts rfl holds room
  let s₁ : State := { s₀ with heap := h₁ }
  obtain ⟨n, size, hn⟩ := holds₁.size
  have one : (1 : Word).toInt = 1 := rfl
  have bounded := holds₁.bounded
  rw [Heap.addressable] at bounded
  obtain ⟨n', applied, hn'⟩ := apply_add (x := n) (y := 1) (by omega) (by omega)
  rw [hn, one] at hn'
  obtain ⟨holds₂, changes₂⟩ := holds₁.append room₁ value hn'
  let s₂ : State := { s₁ with heap := h₁.setSlot b₁ xs.length value }
  let s₃ : State := { s₂ with heap := s₂.heap.setField a "size" (.int n') }
  have item : eval c (var "item") s₁ = .done value s₁ := eval_var rfl
  have stored : exec c (ListMethod.assign (.index (own "_arr") (own "size") 0) (var "item")) s₁ =
      .done () s₂ := exec_assign_slot (a := a) item rfl holds₁.storage size hn room₁
  have next : eval c (binary .add (own "size") (int 1)) s₂ = .done (.int n') s₂ :=
    eval_binary (eval_own (a := a) rfl size) rfl applied
  have counted : exec c (ListMethod.assign (own "size") (binary .add (own "size") (int 1))) s₂ =
      .done () s₃ := exec_assign_own next rfl
  refine ⟨s₃.heap, b₁, ?_, holds₂, place₁, ?_⟩
  · rw [callWithin_method runs rfl rfl]
    refine inFrame_done (t := s₃) ?_
    exact (execAll_cons rfl grown).trans ((execAll_cons rfl stored).trans
      ((execAll_cons rfl counted).trans execAll_nil))
  · have all : Heap.Changes (· = a) (fun x => x = b ∨ x = b₁) s.heap s₃.heap :=
      (changes₁.mono (fun _ _ same => same) fun _ _ => .inl).trans
        (changes₂.mono (fun _ _ same => same) fun _ _ => .inr)
    refine all.mono (fun _ _ same => same) fun x old same => same.elim id ?_
    rintro rfl
    exact place₁.resolve_right (Nat.not_le.2 old)

theorem append_fails (runs : p.Runs host resize list (append element) f)
    (moving : p.Runs host resize list (reSize element) resize) (holds : s.heap.Holds a b xs)
    (value : Value) (full : xs.length = (s.heap.array b).size)
    (large : s.heap.room < 2 * (s.heap.array b).size + 1) :
    ∃ t, callWithin p rounds (depth + 3) f [.object a, value] line s =
      .fault (.at 0 (.allocationFailed (2 * (s.heap.array b).size + 1))) t := by
  let c : Context := { program := p, call := callWithin p rounds (depth + 2), rounds }
  let σ : Scopes Value := Scopes.empty.openSegment [(receiverName, .object a), ("item", value)]
  let s₀ : State := { s with scopes := σ, returned := none }
  let s₁ : State := { s₀ with scopes := σ.openSegment [] }
  have test := eval_full (c := c) (s := s₀) (a := a) rfl holds
  obtain ⟨k, grown, grows⟩ := eval_grown (c := c) (s := s₁) (a := a) rfl holds
  obtain ⟨t, failed⟩ := reSize_fails rounds (depth + 1) 0 (s := s₁)
    moving holds.toStores grown large
  have receiver : eval c (var receiverName) s₁ = .done (.object a) s₁ := eval_var rfl
  have faults := exec_call_fault (own "reSize")
    (evalAll_cons receiver (evalAll_cons grows evalAll_nil))
    ((callTarget_reSize (c := c) rfl rfl moving _).trans failed)
  have branch := (exec_ifThen (.call (own "reSize") [var receiverName, binary .add
    (binary .multiply (own "max_size") (int 2)) (int 1)] (some resize) true 0) test).trans
      (by rw [decide_eq_true full, if_pos rfl, inScope_fault faults])
  rw [callWithin_method runs rfl rfl]
  exact ⟨_, inFrame_fault (execAll_cons_fault rfl branch)⟩

theorem execAll_empty {c : Context} (program : c.program = p)
    (layout : p.ListLayout element list array) (goes : s.returned = none)
    (rest : List Statement) : ∃ h a b',
      execAll c (.declare (var receiverName) (.new list 0) 0 ::
        ListMethod.assign (own "size") (int 0) :: rest) s =
        execAll c rest { s with scopes := s.scopes.push receiverName (.object a), heap := h } ∧
      h.Stores a b' [] ∧ s.heap.objects.size ≤ a.index ∧ h.room = s.heap.room ∧
      Heap.Changes (· = a) (fun _ => False) s.heap h := by
  obtain ⟨a, b', made, fresh, -, stores⟩ := Heap.stores_instantiate (h := s.heap)
    layout.primitives layout.storage layout.distinct layout.field
  have changes := Heap.changes_instantiate (A := (· = a)) (B := fun _ => False) s.heap p.types list
  let s₁ : State := { s with
    scopes := s.scopes.push receiverName (.object a)
    heap := (s.heap.instantiate p.types list).2 }
  have evaluated : eval c (.new list 0) s =
      .done (.object a) { s with heap := (s.heap.instantiate p.types list).2 } := by
    rw [← made, ← program]
    rfl
  have self : s₁.scopes.get? receiverName = some (.object a) := Scopes.get?_push_self _ _ _
  have emptied : exec c (ListMethod.assign (own "size") (int 0)) s₁ =
      .done () { s₁ with heap := s₁.heap.setField a "size" (.int 0) } := exec_assign_own rfl self
  exact ⟨_, a, b', (execAll_cons goes (exec_declare evaluated)).trans (execAll_cons goes emptied),
    stores, fresh, Heap.room_instantiate .., changes.trans (Heap.changes_setField _ a _ _)⟩

variable (rounds depth line) in
/-- The constructor makes a list of the items of an array. -/
theorem constructor_done (runs : p.Runs host resize list (constructor array) f)
    (moving : p.Runs host resize list (reSize element) resize)
    (hosts : p.Hosts .memcpy (host "memcpy")) (layout : p.ListLayout element list array)
    (given : b.index < s.heap.arrays.size) (items : (s.heap.array b).toList = xs) {n : Word}
    (hn : n.toInt = xs.length) (bounded : xs.length ≤ s.heap.room) :
    ∃ h a b', callWithin p rounds (depth + 3) f [.array b, .int n] line s =
        .done (.object a) { s with heap := h } ∧
      h.Holds a b' xs ∧ s.heap.objects.size ≤ a.index ∧ s.heap.arrays.size ≤ b'.index ∧
      Heap.Changes (fun _ => False) (fun _ => False) s.heap h := by
  let c : Context := { program := p, call := callWithin p rounds (depth + 2), rounds }
  let σ : Scopes Value := Scopes.empty.openSegment [("initializer", .array b), ("arr_size", .int n)]
  let s₀ : State := { s with scopes := σ, returned := none }
  obtain ⟨h₂, a, b₂, emptied, stores, freshObject, room, first⟩ := execAll_empty (c := c) (s := s₀) rfl
    layout rfl [.call (own "reSize") [var receiverName, var "arr_size"] (some resize) true 0,
      .call (var "memcpy") [own "_arr", var "initializer", var "arr_size"] (some (host "memcpy"))
        false 0,
      ListMethod.assign (own "size") (var "arr_size"), .ret (var receiverName) 0]
  let s₂ : State := { s₀ with scopes := σ.push receiverName (.object a), heap := h₂ }
  obtain ⟨h₃, b', moved, holds, size, fresh, changes⟩ := reSize_done rounds depth 0 (s := s₂) moving
    hosts stores hn (Nat.zero_le _) (room ▸ bounded)
  have before : Heap.Changes (· = a) (fun _ => False) s.heap h₃ := first.trans changes
  have kept : h₃.array b = s.heap.array b := before.array b given not_false
  have freshArray : s.heap.arrays.size ≤ b'.index := Nat.le_trans first.arrays fresh
  have full : (h₃.array b).size = xs.length := by
    rw [kept, ← items, Array.length_toList]
  have ne : b' ≠ b := by
    rintro rfl
    exact absurd given (Nat.not_lt.2 freshArray)
  obtain ⟨holds', changes'⟩ := holds.fill b (kept ▸ items) size.symm hn
  let s₃ : State := { s₂ with heap := h₃ }
  let s₄ : State := { s₃ with heap := h₃.copySlots b' b xs.length }
  let s₅ : State := { s₄ with heap := s₄.heap.setField a "size" (.int n) }
  have bound (t : State) (same : t.scopes = s₂.scopes) :
      eval c (var receiverName) t = .done (.object a) t ∧
        eval c (var "initializer") t = .done (.array b) t ∧
        eval c (var "arr_size") t = .done (.int n) t :=
    ⟨eval_var (same ▸ rfl), eval_var (same ▸ rfl), eval_var (same ▸ rfl)⟩
  have sized : exec c (.call (own "reSize") [var receiverName, var "arr_size"] (some resize) true 0)
      s₂ = .done () s₃ :=
    exec_call _ (evalAll_cons (bound s₂ rfl).1 (evalAll_cons (bound s₂ rfl).2.2 evalAll_nil))
      ((callTarget_reSize (c := c) rfl rfl moving _).trans moved)
  have copied : exec c (.call (var "memcpy") [own "_arr", var "initializer", var "arr_size"]
      (some (host "memcpy")) false 0) s₃ = .done () s₄ := by
    have called : callTarget c (host "memcpy") false [.array b', .array b, .int n] 0 s₃ =
        .done .void s₄ :=
      (congrFun (callWithin_host hosts rfl) s₃).trans
        (copy_done hn ne (Nat.le_of_eq full.symm) (Nat.le_of_eq size.symm))
    exact exec_call _ (evalAll_cons (eval_own (a := a) rfl holds.storage)
      (evalAll_cons (bound s₃ rfl).2.1 (evalAll_cons (bound s₃ rfl).2.2 evalAll_nil))) called
  have counted : exec c (ListMethod.assign (own "size") (var "arr_size")) s₄ = .done () s₅ :=
    exec_assign_own (bound s₄ rfl).2.2 rfl
  have returned : exec c (.ret (var receiverName) 0) s₅ =
      .done () { s₅ with returned := some (.object a) } := exec_ret (bound s₅ rfl).1
  refine ⟨s₅.heap, a, b', ?_, holds', freshObject, freshArray, ?_⟩
  · rw [callWithin_method runs rfl rfl]
    refine inFrame_done (t := { s₅ with returned := some (.object a) }) ?_
    exact emptied.trans ((execAll_cons rfl sized).trans ((execAll_cons rfl copied).trans
      ((execAll_cons rfl counted).trans ((execAll_cons rfl returned).trans execAll_nil))))
  · have all : Heap.Changes (· = a) (· = b') s.heap s₅.heap :=
      (before.mono (fun _ _ same => same) nofun).trans changes'
    refine all.mono (fun x old same => ?_) fun x old same => ?_
    · exact absurd old (Nat.not_lt.2 (same ▸ freshObject))
    · exact absurd old (Nat.not_lt.2 (same ▸ freshArray))

variable (rounds depth line) in
theorem constructor_fails (runs : p.Runs host resize list (constructor array) f)
    (moving : p.Runs host resize list (reSize element) resize)
    (layout : p.ListLayout element list array) {n : Word} {k : Nat} (hn : n.toInt = k)
    (large : s.heap.room < k) :
    ∃ t, callWithin p rounds (depth + 3) f [.array b, .int n] line s =
      .fault (.at 0 (.allocationFailed k)) t := by
  let c : Context := { program := p, call := callWithin p rounds (depth + 2), rounds }
  let σ : Scopes Value := Scopes.empty.openSegment [("initializer", .array b), ("arr_size", .int n)]
  let s₀ : State := { s with scopes := σ, returned := none }
  obtain ⟨h₂, a, b₂, emptied, stores, -, room, -⟩ := execAll_empty (c := c) (s := s₀) rfl
    layout rfl [.call (own "reSize") [var receiverName, var "arr_size"] (some resize) true 0,
      .call (var "memcpy") [own "_arr", var "initializer", var "arr_size"] (some (host "memcpy"))
        false 0,
      ListMethod.assign (own "size") (var "arr_size"), .ret (var receiverName) 0]
  let s₂ : State := { s₀ with scopes := σ.push receiverName (.object a), heap := h₂ }
  obtain ⟨t, failed⟩ := reSize_fails rounds (depth + 1) 0 (s := s₂)
    moving stores hn (room ▸ large)
  have receiver : eval c (var receiverName) s₂ = .done (.object a) s₂ := eval_var rfl
  have count : eval c (var "arr_size") s₂ = .done (.int n) s₂ := eval_var rfl
  have faults := exec_call_fault (own "reSize")
    (evalAll_cons receiver (evalAll_cons count evalAll_nil))
    ((callTarget_reSize (c := c) rfl rfl moving _).trans failed)
  rw [callWithin_method runs rfl rfl]
  exact ⟨_, inFrame_fault (emptied.trans (execAll_cons_fault rfl faults))⟩

end Methods
end Machine
end ObjectLang
