import ObjectLang.Syntax.Splice
import ObjectLang.Typing.Function
set_option autoImplicit false

/-!
# Checking with books

The checker reads off a stack which function is being checked, and it walks every list of statements
inside the lists that are being walked already. Both are handed on from visit to visit and through
the checks of the targets of calls, so they are to be in order again whenever a check comes back. Here
they are kept in books, together with the faults that were found. Nothing else says which function is
the current one.
-/

namespace ObjectLang.Typing

structure Fault where
  function : FunctionId
  statement : Statement
  error : TypeError

structure Books where
  /-- The functions that are being checked, the innermost first. -/
  stack : List FunctionId := []
  walk : Walk Statement := {}
  faults : List Fault := []
  deriving Inhabited

namespace Books

def current? (b : Books) : Option FunctionId := b.stack.head?

def push (b : Books) (id : FunctionId) : Books := { b with stack := id :: b.stack }

def pop (b : Books) : Books := { b with stack := b.stack.tail }

def note (b : Books) (statement : Statement) (e : TypeError) : Books :=
  { b with faults := b.faults ++ b.current?.toList.map fun id => ⟨id, statement, e⟩ }

def module? (b : Books) (modules : List Module) (s : State) : Option Module :=
  b.current?.bind fun id => modules[(s.program.function id).module]?

end Books

structure Desk where
  modules : List Module
  /-- Checks a function before its return type is used. -/
  checkTarget : FunctionId → State → Books → State × Books

namespace Booked

def next {n : Nat} (v : Visited n × Books) {e : Expr}
    (visit : State → Books → Visited e.weight × Books) : Visited e.weight × Books :=
  match v.1.result with
  | .ok _ => visit v.1.state v.2
  | .error fault => (.leaf e v.1.state (.error fault), v.2)

mutual

def visit (d : Desk) (e : Expr) (s : State) (b : Books) : Visited e.weight × Books :=
  match e with
  | .binary op lhs rhs line =>
    let l := visit d lhs s b
    let r := next l (visit d rhs)
    (⟨.binary op l.1.expr r.1.expr line,
      Nat.succ_le_succ (Nat.add_le_add l.1.weight_le r.1.weight_le), r.1.state,
      do binaryType r.1.state.program op (← l.1.result) (← r.1.result)⟩, r.2)
  | .literal value line => (.leaf (.literal value line) s (.ok value.type), b)
  | .var name noted line => (visitVar name noted line s, b)
  | .field base name noted line =>
    let v := visit d base s b
    (fieldOf v.1 name noted line, v.2)
  | .new type line => (.leaf (.new type line) s (.ok type), b)
  | .allocate element size line =>
    let v := visit d size s b
    let (t, result) := arrayType element v.1.state (v.1.result.bind (checkSize v.1.state.program))
    (⟨.allocate element v.1.expr line, Nat.succ_le_succ v.1.weight_le, t, result⟩, v.2)
  | .array element items line =>
    let v := visitAll d (checkItem element) items s b
    let (t, result) := arrayType element v.1.state (v.1.result.map fun _ => ())
    (⟨.array element v.1.exprs line, Nat.succ_le_succ v.1.weights_le, t, result⟩, v.2)
  | .index array index line =>
    let v := visit d array s b
    let a := v.1.judge elementType
    let i := next (a, v.2) (visit d index)
    (⟨.index a.expr i.1.expr line, Nat.succ_le_succ (Nat.add_le_add a.weight_le i.1.weight_le),
      i.1.state,
      do
        checkIndex i.1.state.program (← i.1.result)
        a.result⟩, i.2)
  | .reference expr line =>
    if expr.isName then
      let v := visit d expr s b
      let (t, result) := referenceType v.1
      (⟨.reference v.1.expr line, Nat.succ_le_succ v.1.weight_le, t, result⟩, v.2)
    else (.leaf (.reference expr line) s (.error .referenceOfNonVariable), b)
  | .cast expr type line =>
    let v := visit d expr s b
    (⟨.cast v.1.expr type line, Nat.succ_le_succ v.1.weight_le, v.1.state,
      v.1.result.map fun _ => type⟩, v.2)
  | .call callee arguments (some target) injected line =>
    let t := d.checkTarget target s b
    let v := visitAll d (fun _ _ => .ok ()) arguments t.1 t.2
    (⟨.call callee v.1.exprs (some target) injected line, Nat.succ_le_succ v.1.weights_le,
      v.1.state, v.1.result.bind (callType v.1.state.program target injected)⟩, v.2)
  | .call callee arguments none injected line =>
    match resolve d callee arguments injected s b with
    | (.failed e callee arguments t le, b) =>
      (⟨.call callee arguments none injected line, Nat.succ_le_succ le, t, .error e⟩, b)
    | (.bound target callee bound injected t le, b) =>
      let t := d.checkTarget target t b
      let v := visitAll d (fun _ _ => .ok ()) bound t.1 t.2
      (⟨.call callee v.1.exprs (some target) injected line,
        Nat.succ_le_succ (Nat.le_trans v.1.weights_le le), v.1.state,
        v.1.result.bind (callType v.1.state.program target injected)⟩, v.2)
termination_by 2 * e.weight
decreasing_by all_goals simp only [Expr.weight]; omega

def visitAll (d : Desk) (accept : Program → TypeId → Except TypeError Unit) (es : List Expr)
    (s : State) (b : Books) : VisitedList (Expr.weights es) × Books :=
  match es with
  | [] => (⟨[], Nat.le_refl _, s, .ok []⟩, b)
  | e :: rest =>
    have _ := e.weight_pos
    let v := visit d e s b
    match v.1.result.bind fun type => (accept v.1.state.program type).map fun _ => type with
    | .error fault =>
      (⟨v.1.expr :: rest, Nat.add_le_add_right v.1.weight_le _, v.1.state, .error fault⟩, v.2)
    | .ok type =>
      let vs := visitAll d accept rest v.1.state v.2
      (⟨v.1.expr :: vs.1.exprs, Nat.add_le_add v.1.weight_le vs.1.weights_le, vs.1.state,
        vs.1.result.map fun types => type :: types⟩, vs.2)
termination_by 2 * Expr.weights es + 1
decreasing_by all_goals simp only [Expr.weights]; omega

/-- A free function is looked for in the module of the function that is current behind the
    arguments. -/
def resolve (d : Desk) (callee : Expr) (arguments : List Expr) (injected : Bool) (s : State)
    (b : Books) : Resolved (callee.weight + Expr.weights arguments) × Books :=
  match callee with
  | .var name noted line =>
    let v := visitAll d (fun _ _ => .ok ()) arguments s b
    (match v.1.result.bind
        (freeTarget (v.2.module? d.modules v.1.state) v.1.state.program name) with
      | .ok target =>
        .bound target (.var name noted line) v.1.exprs injected v.1.state
          (Nat.le_trans v.1.weights_le (Nat.le_add_left _ _))
      | .error e =>
        .failed e (.var name noted line) v.1.exprs v.1.state
          (Nat.add_le_add_left v.1.weights_le _), v.2)
  | .field base name noted line =>
    match namedType? s base with
    | some type =>
      (match methodTarget s.program type name with
        | .ok target =>
          .bound target (.field base name noted line) arguments injected s (Nat.le_add_left _ _)
        | .error e => .failed e (.field base name noted line) arguments s (Nat.le_refl _), b)
    | none =>
      let v := visit d base s b
      (bindMethod v.1 name noted line arguments injected (Nat.le_refl _), v.2)
  | callee => (.failed .notCallable callee arguments s (Nat.le_refl _), b)
termination_by 2 * (callee.weight + Expr.weights arguments) + 1
decreasing_by all_goals simp only [Expr.weight]; omega

end

def checkAssign (d : Desk) (declares : Bool) (target : Expr) (written : Option TypeId)
    (value : Expr) (line : Nat) (s : State) (b : Books) : Checked × Books :=
  let v := visit d value s b
  match v.1.result with
  | .error e => (⟨.assign declares target written v.1.expr line, v.1.state, .error e⟩, v.2)
  | .ok type =>
    if declares then
      match declare target written type v.1.state with
      | .error e => (⟨.assign declares target written v.1.expr line, v.1.state, .error e⟩, v.2)
      | .ok (target, t) => (⟨.assign declares target written v.1.expr line, t, .ok ()⟩, v.2)
    else
      let w := visit d target v.1.state v.2
      (⟨.assign declares w.1.expr written v.1.expr line, w.1.state,
        w.1.result.bind (checkAssigned w.1.state.program type)⟩, w.2)

def acceptReturned (d : Desk) (b : Books) (value : Expr) (type : TypeId) (s : State) :
    Except TypeError State :=
  match b.current? with
  | none => .ok s
  | some current =>
    Typing.acceptReturned { modules := d.modules, current, checkTarget := fun _ s => s } value type s

def checkReturn (d : Desk) (value : Expr) (line : Nat) (s : State) (b : Books) :
    Checked × Books :=
  let v := visit d value s b
  match v.1.result.bind fun type => acceptReturned d v.2 v.1.expr type v.1.state with
  | .ok t => (⟨.ret v.1.expr line, t, .ok ()⟩, v.2)
  | .error e => (⟨.ret v.1.expr line, v.1.state, .error e⟩, v.2)

def visitCondition (d : Desk) (condition : Expr) (s : State) (b : Books) :
    (Expr × State × Except TypeError Unit) × Books :=
  let v := visit d condition s b
  ((v.1.expr, v.1.state, v.1.result.bind (checkCondition v.1.state.program)), v.2)

def checkCall (d : Desk) (callee : Expr) (arguments : List Expr) (target : Option FunctionId)
    (injected : Bool) (line : Nat) (s : State) (b : Books) : Checked × Books :=
  let v := visit d (.call callee arguments target injected line) s b
  let result := v.1.result.map fun _ => ()
  (match v.1.expr with
    | .call callee arguments target injected line =>
      ⟨.call callee arguments target injected line, v.1.state, result⟩
    | _ => ⟨.call callee arguments target injected line, v.1.state, result⟩, v.2)

def nextChecked (v : Checked × Books) (statement : Statement)
    (check : State → Books → Checked × Books) : Checked × Books :=
  match v.1.result with
  | .ok () => check v.1.state v.2
  | .error e => (⟨statement, v.1.state, .error e⟩, v.2)

def inScope (check : State → Books → Checked × Books) (s : State) (b : Books) : Checked × Books :=
  let v := check (s.openScope []) b
  (v.1.close, v.2)

def settle (statement : Statement) (v : Checked × Books) : State × Books :=
  match v.1.result with
  | .ok () => (v.1.state, v.2)
  | .error e => (v.1.state.record statement.line e, v.2.note statement e)

mutual

def check (d : Desk) (statement : Statement) (s : State) (b : Books) : Checked × Books :=
  match statement with
  | .block statements line =>
    let r := members d statements 0 (s.openScope []) { b with walk := b.walk.enter }
    (⟨.block r.1 line, r.2.1.closeScope, .ok ()⟩, { r.2.2 with walk := r.2.2.walk.leave })
  | .assign declares target written value line =>
    checkAssign d declares target written value line s b
  | .ret value line => checkReturn d value line s b
  | .ifThen condition body line =>
    let ((condition, t, result), b) := visitCondition d condition s b
    let v := nextChecked (⟨body, t, result⟩, b) body (inScope (check d body))
    (⟨.ifThen condition v.1.statement line, v.1.state, v.1.result⟩, v.2)
  | .ifElse condition body otherwise line =>
    let ((condition, t, result), b) := visitCondition d condition s b
    let v := nextChecked (⟨body, t, result⟩, b) body (inScope (check d body))
    let w := nextChecked v otherwise (inScope (check d otherwise))
    (⟨.ifElse condition v.1.statement w.1.statement line, w.1.state, w.1.result⟩, w.2)
  | .whileLoop condition body line =>
    let ((condition, t, result), b) := visitCondition d condition s b
    let v := nextChecked (⟨body, t, result⟩, b) body (inScope (check d body))
    (⟨.whileLoop condition v.1.statement line, v.1.state, v.1.result⟩, v.2)
  | .forLoop first condition step body line =>
    let f := check d first (s.openScope []) b
    let ((condition, t, result), b) :=
      match f.1.result with
      | .ok () => visitCondition d condition f.1.state f.2
      | .error e => ((condition, f.1.state, .error e), f.2)
    let p := nextChecked (⟨step, t, result⟩, b) step (check d step)
    let v := nextChecked p body (inScope (check d body))
    (⟨.forLoop f.1.statement condition p.1.statement v.1.statement line, v.1.state.closeScope,
      v.1.result⟩, v.2)
  | .call callee arguments target injected line =>
    checkCall d callee arguments target injected line s b
termination_by structural statement

/-- Checks the members of a list from `place` on. What is queued in front of a member takes its place
    when the member has been checked. -/
def members (d : Desk) (statements : List Statement) (place : Nat) (s : State) (b : Books) :
    List Statement × State × Books :=
  match statements with
  | [] => ([], s, b)
  | statement :: rest =>
    let v := check d statement s { b with walk := b.walk.moveTo place }
    let t := settle statement v
    let (queued, walk) := t.2.walk.takeQueued
    let r := members d rest (place + queued.length + 1) t.1 { t.2 with walk }
    (queued ++ v.1.statement :: r.1, r.2)
termination_by structural statements

end

def checkAll (d : Desk) (statements : List Statement) (s : State) (b : Books) :
    List Statement × State × Books :=
  let r := members d statements 0 s { b with walk := b.walk.enter }
  (r.1, r.2.1, { r.2.2 with walk := r.2.2.walk.leave })

def visitMember (d : Desk) (x : State × Books) (w : Walk Statement) (statement : Statement) :
    Except Empty Unit × Statement × (State × Books) × Walk Statement :=
  let v := check d statement x.1 { x.2 with walk := w }
  let t := settle statement v
  (.ok (), v.1.statement, (t.1, { t.2 with walk := {} }), t.2.walk)

theorem members_eq (d : Desk) (statements : List Statement) (place : Nat) (s : State) (b : Books) :
    let r := members d statements place s b
    Walk.members (visitMember d) (s, { b with walk := {} }) b.walk place statements =
      (.ok (), r.1, (r.2.1, { r.2.2 with walk := {} }), r.2.2.walk) := by
  induction statements generalizing place s b with
  | nil => rfl
  | cons statement rest ih =>
    let t := settle statement (check d statement s { b with walk := b.walk.moveTo place })
    have others := ih (place + t.2.walk.takeQueued.1.length + 1) t.1
      { t.2 with walk := t.2.walk.takeQueued.2 }
    simp only [Walk.members, visitMember]
    dsimp only at others
    rw [others]
    rfl

/-- A list of statements is checked by walking it. -/
theorem checkAll_eq_list (d : Desk) (statements : List Statement) (s : State) (b : Books) :
    let r := checkAll d statements s b
    Walk.list (visitMember d) (s, { b with walk := {} }) b.walk statements =
      (.ok (), r.1, (r.2.1, { r.2.2 with walk := {} }), r.2.2.walk) := by
  have walked := members_eq d statements 0 s { b with walk := b.walk.enter }
  dsimp only at walked ⊢
  unfold Walk.list
  rw [walked]
  rfl

def checkBody (d : Desk) (id : FunctionId) (m : Module) (s : State) (b : Books) : State × Books :=
  let f := s.program.function id
  let r := checkAll d f.body (s.enter m f) (b.push id)
  (r.2.1.leave s id r.1, r.2.2.pop)

def checkWithin (modules : List Module) : Nat → FunctionId → State → Books → State × Books
  | 0, _, s, b => (s, b)
  | depth + 1, id, s, b =>
    if s.isChecked id then (s, b)
    else
      let t := s.markChecked id
      let f := t.program.function id
      if f.isNative then (t, b)
      else
        match modules[f.module]? with
        | none => (t, b)
        | some m => checkBody { modules, checkTarget := checkWithin modules depth } id m t b

def checkFunction (modules : List Module) (id : FunctionId) (s : State) (b : Books) :
    State × Books :=
  checkWithin modules (s.program.functions.size + 1) id s b

end Booked
end ObjectLang.Typing
