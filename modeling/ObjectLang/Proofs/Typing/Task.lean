import ObjectLang.Proofs.Typing.Trusted
set_option autoImplicit false

/-!
# What a checker comes to

The work of a checker is a tree of tasks: a body is checked statement by statement, a call by
looking for its target, checking that and visiting the arguments, and so on down to names and
literals. Every task begins in the state that the tasks before it have left. A checker begins with a
program in which no handle dangles, and is asked for one function after another; each of them, unless
it was entered before, is the root of a tree.
-/

namespace ObjectLang

inductive Statement.Tests : Statement → Expr → Statement → Prop
  | ifThen (condition : Expr) (body : Statement) (line : Nat) :
    Tests (.ifThen condition body line) condition body
  | ifElse (condition : Expr) (body otherwise : Statement) (line : Nat) :
    Tests (.ifElse condition body otherwise line) condition body
  | whileLoop (condition : Expr) (body : Statement) (line : Nat) :
    Tests (.whileLoop condition body line) condition body

theorem Statement.Tests.rooted {p : Program} {statement body : Statement} {condition : Expr}
    (tests : statement.Tests condition body) (rooted : statement.Rooted p) :
    condition.Rooted p ∧ body.Rooted p := by
  cases tests with
  | ifThen => exact rooted
  | ifElse => exact ⟨rooted.1, rooted.2.1⟩
  | whileLoop => exact rooted

namespace Typing

/-- What is done while the body of a function is checked, and the state that it begins in. -/
inductive Task
  | statements (statements : List Statement) (s : State)
  | statement (statement : Statement) (s : State)
  | expression (e : Expr) (s : State)
  | expressions (accept : Program → TypeId → Except TypeError Unit) (es : List Expr) (s : State)
  /-- The target of a call is looked for. -/
  | callee (callee : Expr) (arguments : List Expr) (injected : Bool) (s : State)
  /-- The target of a call is checked. -/
  | target (id : FunctionId) (s : State)

/-- One task comes to another. What stands behind an error is not come to, except for the statements
    of a list. -/
inductive Task.Calls (c : Context) : Task → Task → Prop
  -- Lists of statements
  | first (statement : Statement) (rest : List Statement) (s : State) :
    Calls c (.statements (statement :: rest) s) (.statement statement s)
  | rest {statement checked : Statement} (rest : List Statement) {s t : State}
      (passed : check c statement s = ⟨checked, t, .ok ()⟩) :
    Calls c (.statements (statement :: rest) s) (.statements rest t)
  | recorded {statement checked : Statement} (rest : List Statement) {s t : State} {e : TypeError}
      (refused : check c statement s = ⟨checked, t, .error e⟩) :
    Calls c (.statements (statement :: rest) s)
      (.statements rest (t.record statement.line e))
  -- Statements
  | block (statements : List Statement) (line : Nat) (s : State) :
    Calls c (.statement (.block statements line) s) (.statements statements (s.openScope []))
  | value (declares : Bool) (target : Expr) (written : Option TypeId) (value : Expr) (line : Nat)
      (s : State) :
    Calls c (.statement (.assign declares target written value line) s) (.expression value s)
  | place (target : Expr) (written : Option TypeId) {value : Expr} (line : Nat) {s : State}
      {type : TypeId} (visited : (visit c value s).result = .ok type) :
    Calls c (.statement (.assign false target written value line) s)
      (.expression target (visit c value s).state)
  | returned (value : Expr) (line : Nat) (s : State) :
    Calls c (.statement (.ret value line) s) (.expression value s)
  | condition {statement body : Statement} {condition : Expr}
      (tests : statement.Tests condition body) (s : State) :
    Calls c (.statement statement s) (.expression condition s)
  | branch {statement body : Statement} {condition visited : Expr} {s t : State}
      (tests : statement.Tests condition body)
      (tested : visitCondition c condition s = (visited, t, .ok ())) :
    Calls c (.statement statement s) (.statement body (t.openScope []))
  | otherwise {condition visited : Expr} {body checked : Statement} (otherwise : Statement)
      (line : Nat) {s t u : State} (tested : visitCondition c condition s = (visited, t, .ok ()))
      (passed : Checked.inScope (check c body) t = ⟨checked, u, .ok ()⟩) :
    Calls c (.statement (.ifElse condition body otherwise line) s)
      (.statement otherwise (u.openScope []))
  | loopFirst (first : Statement) (condition : Expr) (step body : Statement) (line : Nat)
      (s : State) :
    Calls c (.statement (.forLoop first condition step body line) s)
      (.statement first (s.openScope []))
  | loopCondition {first begun : Statement} (condition : Expr) (step body : Statement) (line : Nat)
      {s t : State} (begins : check c first (s.openScope []) = ⟨begun, t, .ok ()⟩) :
    Calls c (.statement (.forLoop first condition step body line) s) (.expression condition t)
  | loopStep {first begun : Statement} {condition visited : Expr} (step body : Statement)
      (line : Nat) {s t u : State} (begins : check c first (s.openScope []) = ⟨begun, t, .ok ()⟩)
      (tested : visitCondition c condition t = (visited, u, .ok ())) :
    Calls c (.statement (.forLoop first condition step body line) s) (.statement step u)
  | loopBody {first begun step stepped : Statement} {condition visited : Expr} (body : Statement)
      (line : Nat) {s t u w : State} (begins : check c first (s.openScope []) = ⟨begun, t, .ok ()⟩)
      (tested : visitCondition c condition t = (visited, u, .ok ()))
      (steps : check c step u = ⟨stepped, w, .ok ()⟩) :
    Calls c (.statement (.forLoop first condition step body line) s)
      (.statement body (w.openScope []))
  | call (callee : Expr) (arguments : List Expr) (target : Option FunctionId) (injected : Bool)
      (line : Nat) (s : State) :
    Calls c (.statement (.call callee arguments target injected line) s)
      (.expression (.call callee arguments target injected line) s)
  -- Expressions
  | lhs (op : BinaryOperator) (lhs rhs : Expr) (line : Nat) (s : State) :
    Calls c (.expression (.binary op lhs rhs line) s) (.expression lhs s)
  | rhs (op : BinaryOperator) {lhs : Expr} (rhs : Expr) (line : Nat) {s : State} {type : TypeId}
      (visited : (visit c lhs s).result = .ok type) :
    Calls c (.expression (.binary op lhs rhs line) s) (.expression rhs (visit c lhs s).state)
  | base (base : Expr) (name : String) (noted : Option TypeId) (line : Nat) (s : State) :
    Calls c (.expression (.field base name noted line) s) (.expression base s)
  | size (element : TypeId) (size : Expr) (line : Nat) (s : State) :
    Calls c (.expression (.allocate element size line) s) (.expression size s)
  | items (element : TypeId) (items : List Expr) (line : Nat) (s : State) :
    Calls c (.expression (.array element items line) s) (.expressions (checkItem element) items s)
  | array (array index : Expr) (line : Nat) (s : State) :
    Calls c (.expression (.index array index line) s) (.expression array s)
  | index {array : Expr} (index : Expr) (line : Nat) {s : State} {type : TypeId}
      (stored : ((visit c array s).judge elementType).result = .ok type) :
    Calls c (.expression (.index array index line) s) (.expression index (visit c array s).state)
  | referent {expr : Expr} (named : expr.isName = true) (line : Nat) (s : State) :
    Calls c (.expression (.reference expr line) s) (.expression expr s)
  | operand (expr : Expr) (type : TypeId) (line : Nat) (s : State) :
    Calls c (.expression (.cast expr type line) s) (.expression expr s)
  -- Calls
  | boundTarget (callee : Expr) (arguments : List Expr) (target : FunctionId) (injected : Bool)
      (line : Nat) (s : State) :
    Calls c (.expression (.call callee arguments (some target) injected line) s) (.target target s)
  | boundArguments (callee : Expr) (arguments : List Expr) (target : FunctionId) (injected : Bool)
      (line : Nat) (s : State) :
    Calls c (.expression (.call callee arguments (some target) injected line) s)
      (.expressions (fun _ _ => .ok ()) arguments (c.checkTarget target s))
  | callee (callee : Expr) (arguments : List Expr) (injected : Bool) (line : Nat) (s : State) :
    Calls c (.expression (.call callee arguments none injected line) s)
      (.callee callee arguments injected s)
  | foundTarget {callee callee' : Expr} {arguments bound : List Expr} {injected injected' : Bool}
      (line : Nat) {s t : State} {target : FunctionId}
      {le : Expr.weights bound ≤ callee.weight + Expr.weights arguments}
      (found : resolve c callee arguments injected s = .bound target callee' bound injected' t le) :
    Calls c (.expression (.call callee arguments none injected line) s) (.target target t)
  | foundArguments {callee callee' : Expr} {arguments bound : List Expr} {injected injected' : Bool}
      (line : Nat) {s t : State} {target : FunctionId}
      {le : Expr.weights bound ≤ callee.weight + Expr.weights arguments}
      (found : resolve c callee arguments injected s = .bound target callee' bound injected' t le) :
    Calls c (.expression (.call callee arguments none injected line) s)
      (.expressions (fun _ _ => .ok ()) bound (c.checkTarget target t))
  | arguments (name : String) (noted : Option TypeId) (line : Nat) (arguments : List Expr)
      (injected : Bool) (s : State) :
    Calls c (.callee (.var name noted line) arguments injected s)
      (.expressions (fun _ _ => .ok ()) arguments s)
  | receiver {base : Expr} (name : String) (noted : Option TypeId) (line : Nat)
      (arguments : List Expr) (injected : Bool) {s : State} (unnamed : namedType? s base = none) :
    Calls c (.callee (.field base name noted line) arguments injected s) (.expression base s)
  -- Lists of expressions
  | head (accept : Program → TypeId → Except TypeError Unit) (e : Expr) (rest : List Expr)
      (s : State) :
    Calls c (.expressions accept (e :: rest) s) (.expression e s)
  | tail {accept : Program → TypeId → Except TypeError Unit} {e : Expr} (rest : List Expr)
      {s : State} {type : TypeId} (visited : (visit c e s).result = .ok type)
      (accepted : accept (visit c e s).state.program type = .ok ()) :
    Calls c (.expressions accept (e :: rest) s) (.expressions accept rest (visit c e s).state)

def Context.within (modules : List Module) (depth : Nat) (current : FunctionId) : Context :=
  ⟨modules, current, checkWithin modules depth⟩

structure Enters (modules : List Module) (id : FunctionId) (s : State) (m : Module) : Prop where
  fresh : id ∉ s.checked
  written : (s.program.function id).isNative = false
  found : modules[(s.program.function id).module]? = some m

/-- The states of a checker between the functions that it is asked for. -/
inductive Life (modules : List Module) : State → Prop
  | start {p : Program} (linked : Linked modules p) (diagnostics : Diagnostics) :
    Life modules { program := p, diagnostics }
  | check {s : State} (life : Life modules s) {id : FunctionId} (declared : s.program.Declares id) :
    Life modules (checkFunction modules id s)

def Task.body (s : State) (id : FunctionId) (m : Module) : Task :=
  .statements (s.program.function id).body ((s.markChecked id).enter m (s.program.function id))

/-- A checker comes to the task, in the body of the function `current` and with `depth` more to be
    nested. -/
inductive Reached (modules : List Module) : Nat → FunctionId → Task → Prop
  | asked {s : State} {id : FunctionId} {m : Module} (life : Life modules s)
      (declared : s.program.Declares id) (enters : Enters modules id s m) :
    Reached modules s.program.functions.size id (.body s id m)
  | nested {depth : Nat} {current id : FunctionId} {s : State} {m : Module}
      (reached : Reached modules (depth + 1) current (.target id s))
      (enters : Enters modules id s m) : Reached modules depth id (.body s id m)
  | step {depth : Nat} {current : FunctionId} {task next : Task}
      (reached : Reached modules depth current task)
      (calls : task.Calls (.within modules depth current) next) : Reached modules depth current next

variable {modules : List Module} {depth : Nat} {c : Context} {s t : State}

def Task.Fit (modules : List Module) (depth : Nat) (current : FunctionId) : Task → Prop
  | .statements body s =>
    Prepared modules depth s ∧ current ∈ s.checked ∧ Statement.RootedAll s.program body
  | .statement tree s => Prepared modules depth s ∧ current ∈ s.checked ∧ tree.Rooted s.program
  | .expression e s => Prepared modules depth s ∧ e.Rooted s.program
  | .expressions _ es s => Prepared modules depth s ∧ Expr.RootedAll s.program es
  | .callee named arguments _ s =>
    Prepared modules depth s ∧ named.Rooted s.program ∧ Expr.RootedAll s.program arguments
  | .target id s => Orderly modules depth s ∧ s.program.Declares id

section Statements

variable {statement body checked : Statement} {condition visited : Expr}

theorem fit_of_check (hc : c.Trusted modules depth) {result : Except TypeError Unit}
    (rooted : statement.Rooted s.program) (ready : Prepared modules depth s)
    (entered : c.current ∈ s.checked) (passed : check c statement s = ⟨checked, t, result⟩) :
    Prepared modules depth t ∧ Later (· = c.current) s t := by
  have leaves := check_leaves hc statement s rooted ready entered
  have later := later_check hc.keeping statement entered
  rw [passed] at leaves later
  exact ⟨leaves.ready, later⟩

theorem fit_of_first (hc : c.Trusted modules depth) {result : Except TypeError Unit}
    (rooted : statement.Rooted s.program) (ready : Prepared modules depth s)
    (entered : c.current ∈ s.checked)
    (begins : check c statement (s.openScope []) = ⟨checked, t, result⟩) :
    Prepared modules depth t ∧ Later (· = c.current) s t := by
  obtain ⟨ready', later⟩ := fit_of_check hc (s := s.openScope []) rooted ready.openScope entered
    begins
  exact ⟨ready', (later_scopes _ s _).trans later⟩

theorem fit_of_condition (hc : c.Trusted modules depth) {result : Except TypeError Unit}
    (rooted : condition.Rooted s.program) (ready : Prepared modules depth s)
    (tested : visitCondition c condition s = (visited, t, result)) :
    Prepared modules depth t ∧ Later (· = c.current) s t := by
  have leaves := (visitCondition_leaves hc ready rooted).1
  have later := later_visitCondition hc.keeping (· = c.current) condition s
  rw [tested] at leaves later
  exact ⟨leaves, later⟩

theorem fit_of_branch (hc : c.Trusted modules depth) {result : Except TypeError Unit}
    (rooted : body.Rooted s.program) (ready : Prepared modules depth s)
    (entered : c.current ∈ s.checked)
    (passed : Checked.inScope (check c body) s = ⟨checked, t, result⟩) :
    Prepared modules depth t ∧ Later (· = c.current) s t := by
  have leaves := Leaves.inScope
    (check_leaves hc body (s.openScope []) rooted ready.openScope entered)
  have later := later_inScope (later_check hc.keeping body (s := s.openScope []) entered)
  rw [passed] at leaves later
  exact ⟨leaves.ready, later⟩

end Statements

theorem fit_of_bound (hc : c.Trusted modules depth) {callee callee' : Expr}
    {arguments bound : List Expr} {injected injected' : Bool} {target : FunctionId}
    {le : Expr.weights bound ≤ callee.weight + Expr.weights arguments}
    (ready : Prepared modules depth s) (rooted : callee.Rooted s.program)
    (rootedAll : Expr.RootedAll s.program arguments)
    (found : resolve c callee arguments injected s = .bound target callee' bound injected' t le) :
    Prepared modules depth t ∧ Expr.RootedAll t.program bound ∧ t.program.Declares target := by
  have resolved := resolve_rooted hc callee arguments injected ready rooted rootedAll
  have keeps := keeps_resolve hc.keeping callee arguments injected s
  rw [found] at resolved keeps
  obtain ⟨orderly, -, hbound, declared⟩ := resolved
  exact ⟨ready.keeps keeps orderly, hbound, declared⟩

theorem fit_of_target (hc : c.Trusted modules depth) {arguments : List Expr} {target : FunctionId}
    (ready : Prepared modules depth s) (rooted : Expr.RootedAll s.program arguments)
    (declared : s.program.Declares target) :
    Prepared modules depth (c.checkTarget target s) ∧
      Expr.RootedAll (c.checkTarget target s).program arguments := by
  have keeps := hc.keeping target s
  exact ⟨ready.keeps keeps (hc.enters target s ready.toOrderly declared).1,
    Expr.rootedAll_mono keeps.evolves.extension arguments rooted⟩

theorem Task.Calls.fit (hc : c.Trusted modules depth) {task next : Task}
    (calls : task.Calls c next) (fit : task.Fit modules depth c.current) :
    next.Fit modules depth c.current := by
  cases calls with
  | first statement rest s => exact ⟨fit.1, fit.2.1, fit.2.2.1⟩
  | rest rest passed =>
    obtain ⟨ready, entered, rooted, others⟩ := fit
    obtain ⟨ready', later⟩ := fit_of_check hc rooted ready entered passed
    exact ⟨ready', later.mem entered, Statement.rootedAll_mono later.evolves.extension rest others⟩
  | recorded rest refused =>
    obtain ⟨ready, entered, rooted, others⟩ := fit
    obtain ⟨ready', later⟩ := fit_of_check hc rooted ready entered refused
    exact ⟨ready'.record _ _, later.mem entered,
      Statement.rootedAll_mono later.evolves.extension rest others⟩
  | block statements line s => exact ⟨fit.1.openScope, fit.2⟩
  | value declares target written value line s => exact ⟨fit.1, fit.2.2.2.2⟩
  | place target written line visited =>
    obtain ⟨ready, -, htarget, -, hvalue⟩ := fit
    exact ⟨ready.visit hc hvalue,
      target.rooted_mono (keeps_visit hc.keeping _ _).evolves.extension htarget⟩
  | returned value line s => exact ⟨fit.1, fit.2.2⟩
  | condition tests s => exact ⟨fit.1, (tests.rooted fit.2.2).1⟩
  | branch tests tested =>
    obtain ⟨ready, entered, rooted⟩ := fit
    obtain ⟨hcondition, hbody⟩ := tests.rooted rooted
    obtain ⟨ready', later⟩ := fit_of_condition hc hcondition ready tested
    exact ⟨ready'.openScope, later.mem entered,
      Statement.rooted_mono later.evolves.extension _ hbody⟩
  | otherwise otherwise line tested passed =>
    obtain ⟨ready, entered, hcondition, hbody, hotherwise⟩ := fit
    obtain ⟨ready', later⟩ := fit_of_condition hc hcondition ready tested
    have hbody' := Statement.rooted_mono later.evolves.extension _ hbody
    obtain ⟨ready'', later'⟩ := fit_of_branch hc hbody' ready' (later.mem entered) passed
    have total := later.trans later'
    exact ⟨ready''.openScope, total.mem entered,
      otherwise.rooted_mono total.evolves.extension hotherwise⟩
  | loopFirst first condition step body line s => exact ⟨fit.1.openScope, fit.2.1, fit.2.2.1⟩
  | loopCondition condition step body line begins =>
    obtain ⟨ready, entered, hfirst, hcondition, -⟩ := fit
    obtain ⟨ready', later⟩ := fit_of_first hc hfirst ready entered begins
    exact ⟨ready', condition.rooted_mono later.evolves.extension hcondition⟩
  | loopStep step body line begins tested =>
    obtain ⟨ready, entered, hfirst, hcondition, hstep, -⟩ := fit
    obtain ⟨ready', later⟩ := fit_of_first hc hfirst ready entered begins
    have hcondition' := Expr.rooted_mono later.evolves.extension _ hcondition
    obtain ⟨ready'', later'⟩ := fit_of_condition hc hcondition' ready' tested
    have total := later.trans later'
    exact ⟨ready'', total.mem entered, step.rooted_mono total.evolves.extension hstep⟩
  | loopBody body line begins tested steps =>
    obtain ⟨ready, entered, hfirst, hcondition, hstep, hbody⟩ := fit
    obtain ⟨ready', later⟩ := fit_of_first hc hfirst ready entered begins
    have hcondition' := Expr.rooted_mono later.evolves.extension _ hcondition
    obtain ⟨ready'', later'⟩ := fit_of_condition hc hcondition' ready' tested
    have tested := later.trans later'
    have hstep' := Statement.rooted_mono tested.evolves.extension _ hstep
    obtain ⟨ready, later''⟩ := fit_of_check hc hstep' ready'' (tested.mem entered) steps
    have total := tested.trans later''
    exact ⟨ready.openScope, total.mem entered, body.rooted_mono total.evolves.extension hbody⟩
  | call callee arguments target injected line s => exact ⟨fit.1, fit.2.2⟩
  | lhs op lhs rhs line s => exact ⟨fit.1, fit.2.1⟩
  | rhs op rhs line visited =>
    exact ⟨fit.1.visit hc fit.2.1,
      rhs.rooted_mono (keeps_visit hc.keeping _ _).evolves.extension fit.2.2⟩
  | base base name noted line s => exact fit
  | size element size line s => exact ⟨fit.1, fit.2.2⟩
  | items element items line s => exact ⟨fit.1, fit.2.2⟩
  | array array index line s => exact ⟨fit.1, fit.2.1⟩
  | index index line stored =>
    exact ⟨fit.1.visit hc fit.2.1,
      index.rooted_mono (keeps_visit hc.keeping _ _).evolves.extension fit.2.2⟩
  | referent named line s => exact fit
  | operand expr type line s => exact ⟨fit.1, fit.2.1⟩
  | boundTarget callee arguments target injected line s =>
    exact ⟨fit.1.toOrderly, fit.2.2.2 target rfl⟩
  | boundArguments callee arguments target injected line s =>
    exact fit_of_target hc fit.1 fit.2.2.1 (fit.2.2.2 target rfl)
  | callee callee arguments injected line s => exact ⟨fit.1, fit.2.1, fit.2.2.1⟩
  | foundTarget line found =>
    obtain ⟨ready, -, declared⟩ := fit_of_bound hc fit.1 fit.2.1 fit.2.2.1 found
    exact ⟨ready.toOrderly, declared⟩
  | foundArguments line found =>
    obtain ⟨ready, rooted, declared⟩ := fit_of_bound hc fit.1 fit.2.1 fit.2.2.1 found
    exact fit_of_target hc ready rooted declared
  | arguments name noted line arguments injected s => exact ⟨fit.1, fit.2.2⟩
  | receiver name noted line arguments injected unnamed => exact ⟨fit.1, fit.2.1⟩
  | head accept e rest s => exact ⟨fit.1, fit.2.1⟩
  | tail rest visited accepted =>
    exact ⟨fit.1.visit hc fit.2.1,
      Expr.rootedAll_mono (keeps_visit hc.keeping _ _).evolves.extension rest fit.2.2⟩

/-- Between two functions that it is asked for, a checker may nest as many as there are. -/
theorem Life.orderly (life : Life modules s) :
    Orderly modules (s.program.functions.size + 1) s := by
  induction life with
  | start linked diagnostics =>
    exact ⟨linked, List.nodup_nil, nofun, Nat.lt_succ_self _⟩
  | @check s life id declared ih =>
    have same := (keeps_checkFunction modules id s).evolves.size
    rw [same]
    exact (checkWithin_orderly modules _ id s ih declared).1

/-- Whatever was checked, another checker may begin with what is left. -/
theorem Life.linked (life : Life modules s) : Linked modules s.program := life.orderly.toLinked

theorem Life.foldl {ids : List FunctionId} (life : Life modules s)
    (declared : ∀ id ∈ ids, s.program.Declares id) :
    Life modules (ids.foldl (fun s id => checkFunction modules id s) s) := by
  induction ids generalizing s with
  | nil => exact life
  | cons id rest ih =>
    have evolves := (keeps_checkFunction modules id s).evolves
    exact ih (life.check (declared id List.mem_cons_self)) fun other mem =>
      evolves.extension.declares (declared other (List.mem_cons_of_mem _ mem))

theorem Life.checkModule (life : Life modules s) (index : Nat) :
    Life modules (checkModule modules index s) := by
  unfold Typing.checkModule
  split
  · exact life
  · rename_i m found
    have closed := life.linked.visible m (List.mem_of_getElem? found)
    exact life.foldl fun id mem => closed.functions id (List.mem_append_right _ mem)

theorem Task.fit_body (h : Orderly modules (depth + 1) s) {id : FunctionId}
    (declared : s.program.Declares id) {m : Module} (enters : Enters modules id s m) :
    (Task.body s id m).Fit modules depth id :=
  ⟨h.enter declared enters.fresh m, List.mem_cons_self, h.bodies id⟩

/-- Every task that a checker comes to begins in a state in order, with trees that are rooted. -/
theorem Reached.fit {current : FunctionId} {task : Task}
    (reached : Reached modules depth current task) : task.Fit modules depth current := by
  induction reached with
  | asked life declared enters => exact Task.fit_body life.orderly declared enters
  | nested reached enters ih => exact Task.fit_body ih.1 ih.2 enters
  | step reached calls ih => exact calls.fit (trusted_checkWithin modules _ _) ih

end Typing

namespace Compilation

variable {c : Compilation}

/-- What holds all along the life of a checker holds when a compilation has checked its modules. -/
theorem life_checkFrom (linked : Linked c.modules c.program) (first : Nat) :
    Typing.Life c.modules (c.checkFrom first c.unchecked) := by
  have begun : Typing.Life c.modules c.unchecked := .start linked c.diagnostics
  unfold checkFrom
  generalize (List.range c.modules.length).drop first = numbers
  generalize c.unchecked = s at begun
  induction numbers generalizing s with
  | nil => exact begun
  | cons index rest ih => exact ih _ (begun.checkModule index)

end Compilation
end ObjectLang
