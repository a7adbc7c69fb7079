import ObjectLang.Typing.Expression
set_option autoImplicit false

/-!
# Types in statements

A statement with an error is recorded at its line, and checking goes on with the next one of its
list. Blocks, branches and loops have segments of their own for the names they declare.
-/

namespace ObjectLang.Typing

structure Checked where
  statement : Statement
  state : State
  result : Except TypeError Unit

def declare (target : Expr) (written : Option TypeId) (value : TypeId) (s : State) :
    Except TypeError (Expr × State) :=
  match target with
  | .var name _ line => do
    ensure (!s.scopes.isDeclaredLocal name) (.redeclaration name)
    ensure (value != .void) (.voidAssignment name)
    let type ← declaredType s.program value written
    pure (.var name (some type) line, { s with scopes := s.scopes.push name (.value type) })
  | _ => .error .invalidDeclaration

/-- Checks an assignment or a declaration. The value comes before the target. -/
def checkAssign (c : Context) (declares : Bool) (target : Expr) (written : Option TypeId)
    (value : Expr) (line : Nat) (s : State) : Checked :=
  let v := visit c value s
  match v.result with
  | .error e => ⟨.assign declares target written v.expr line, v.state, .error e⟩
  | .ok type =>
    if declares then
      match declare target written type v.state with
      | .error e => ⟨.assign declares target written v.expr line, v.state, .error e⟩
      | .ok (target, t) => ⟨.assign declares target written v.expr line, t, .ok ()⟩
    else
      let w := visit c target v.state
      ⟨.assign declares w.expr written v.expr line, w.state,
        w.result.bind (checkAssigned w.state.program type)⟩

def isCallOf (target : FunctionId) : Expr → Bool
  | .call _ _ (some bound) _ _ => bound == target
  | _ => false

/-- Accepts a returned value of a type, which decides a return type that is still open. A function
    may return what a call of itself returns, whatever that is. -/
def acceptReturned (c : Context) (value : Expr) (type : TypeId) (s : State) :
    Except TypeError State :=
  if isCallOf c.current value then .ok s
  else if type = .void then .error .returnVoid
  else if infersReturnType (s.program.function c.current) then
    .ok { s with program := s.program.modifyFunction c.current ({ · with returnType := type }) }
  else do
    checkReturned s.program (s.program.function c.current) type
    pure s

def checkReturn (c : Context) (value : Expr) (line : Nat) (s : State) : Checked :=
  let v := visit c value s
  match v.result.bind fun type => acceptReturned c v.expr type v.state with
  | .ok t => ⟨.ret v.expr line, t, .ok ()⟩
  | .error e => ⟨.ret v.expr line, v.state, .error e⟩

def visitCondition (c : Context) (condition : Expr) (s : State) :
    Expr × State × Except TypeError Unit :=
  let v := visit c condition s
  (v.expr, v.state, v.result.bind (checkCondition v.state.program))

def checkCall (c : Context) (callee : Expr) (arguments : List Expr) (target : Option FunctionId)
    (injected : Bool) (line : Nat) (s : State) : Checked :=
  let v := visit c (.call callee arguments target injected line) s
  let result := v.result.map fun _ => ()
  match v.expr with
  | .call callee arguments target injected line =>
    ⟨.call callee arguments target injected line, v.state, result⟩
  | _ => ⟨.call callee arguments target injected line, v.state, result⟩

namespace Checked

/-- Ends a statement that ran in a segment of its own. -/
def close (v : Checked) : Checked := { v with state := v.state.closeScope }

def next (v : Checked) (statement : Statement) (check : State → Checked) : Checked :=
  match v.result with
  | .ok () => check v.state
  | .error e => ⟨statement, v.state, .error e⟩

def inScope (check : State → Checked) (s : State) : Checked := (check (s.openScope [])).close

end Checked

mutual

def check (c : Context) (statement : Statement) (s : State) : Checked :=
  match statement with
  | .block statements line =>
    let (statements, t) := checkAll c statements (s.openScope [])
    ⟨.block statements line, t.closeScope, .ok ()⟩
  | .assign declares target written value line =>
    checkAssign c declares target written value line s
  | .ret value line => checkReturn c value line s
  | .ifThen condition body line =>
    let (condition, t, result) := visitCondition c condition s
    let b := (Checked.mk body t result).next body (Checked.inScope (check c body))
    ⟨.ifThen condition b.statement line, b.state, b.result⟩
  | .ifElse condition body otherwise line =>
    let (condition, t, result) := visitCondition c condition s
    let b := (Checked.mk body t result).next body (Checked.inScope (check c body))
    let o := b.next otherwise (Checked.inScope (check c otherwise))
    ⟨.ifElse condition b.statement o.statement line, o.state, o.result⟩
  | .whileLoop condition body line =>
    let (condition, t, result) := visitCondition c condition s
    let b := (Checked.mk body t result).next body (Checked.inScope (check c body))
    ⟨.whileLoop condition b.statement line, b.state, b.result⟩
  | .forLoop first condition step body line =>
    let f := check c first (s.openScope [])
    let (condition, t, result) :=
      match f.result with
      | .ok () => visitCondition c condition f.state
      | .error e => (condition, f.state, .error e)
    let p := (Checked.mk step t result).next step (check c step)
    let b := p.next body (Checked.inScope (check c body))
    ⟨.forLoop f.statement condition p.statement b.statement line, b.state.closeScope, b.result⟩
  | .call callee arguments target injected line =>
    checkCall c callee arguments target injected line s
termination_by structural statement

def checkAll (c : Context) (statements : List Statement) (s : State) : List Statement × State :=
  match statements with
  | [] => ([], s)
  | statement :: rest =>
    let v := check c statement s
    let t := match v.result with
      | .ok () => v.state
      | .error e => v.state.record statement.line e
    let (rest, u) := checkAll c rest t
    (v.statement :: rest, u)
termination_by structural statements

end

end ObjectLang.Typing
