import ObjectLang.Proofs.Shapes.Call
set_option autoImplicit false

/-!
# Heaps are as described all along

Whatever follows from a description of the heap holds at every moment of a run of a program that
keeps shapes, and of all values at hand.
-/

namespace ObjectLang.Machine

open Eval Typing

variable {α : Type} {p : Program} {entered : List FunctionId}
  {returns : FunctionId → TypeId → Prop} {types : Registry} {W : World} {s : State}
  {claim : List Value → Heap → Prop}

/-- The claim follows from a description of the heap that has a place for the values. -/
def Follows (types : Registry) (claim : List Value → Heap → Prop) : Prop :=
  ∀ W values h, World.Describes types W h → (∀ v ∈ values, v.Fits types W .any) → claim values h

theorem Sound.after {Q : World → α → Prop} {x : Eval α} (h : Sound types W Q x s) :
    After x s fun v t => ∃ W', Moved types W s W' t ∧ Q W' v := by
  intro v t done
  unfold Sound at h
  rw [done] at h
  exact h

theorem Runs.after {P : World → α → State → Prop} {x : Eval α} (h : Runs types W P x s) :
    After x s fun v t => ∃ W', W.Grows W' ∧ P W' v t := by
  intro v t done
  unfold Runs at h
  rw [done] at h
  exact h

theorem Follows.here (follows : Follows types claim) (hW : W.Describes types s.heap) :
    claim [] s.heap := follows W [] s.heap hW fun _ mem => absurd mem List.not_mem_nil

theorem Follows.around (follows : Follows types claim) (hW : W.Describes types s.heap) {d : Shape}
    {x : Eval Value} (h : Sound types W (fun W' v => v.Fits types W' d) x s) :
    Watch.Around claim (fun v => [v]) x s := by
  refine ⟨follows.here hW, Outcome.Meets.mono h (fun v t ⟨W', moved, fits⟩ => ?_) ?_⟩
  · exact follows W' [v] t.heap moved.heap fun u mem => List.mem_singleton.1 mem ▸ fits.toAny
  · exact fun _ _ ⟨_, hW'⟩ => follows.here hW'

theorem Follows.around_runs (follows : Follows types claim) (hW : W.Describes types s.heap)
    {R : Shape} {depth : Nat} {Γ : Scopes Meaning} {x : Eval α}
    (h : Runs types W (fun W' _ t => Lasts types R depth Γ W' t) x s) :
    Watch.Around claim (fun _ => []) x s :=
  ⟨follows.here hW, Outcome.Meets.mono h (fun _ _ ⟨_, _, lasts⟩ => follows.here lasts.heap)
    fun _ _ ⟨_, hW'⟩ => follows.here hW'⟩

/-- Where a loop comes to its test, what its rounds keep has lasted. -/
theorem Heads.keeps {J : World → State → Prop} {test : Eval Bool} {body : Eval Unit} {t : State}
    (htest : ∀ W s, J W s →
      Runs types W (fun W' again t => J W' t ∧ (again = true → t.returned = none)) test s)
    (hbody : ∀ W s, J W s → s.returned = none → Runs types W (fun W' _ t => J W' t) body s)
    (head : Heads test body s t) (h : J W s) : ∃ W', J W' t := by
  induction head with
  | first => exact ⟨W, h⟩
  | next t u v head holds round ih =>
    obtain ⟨W₁, here⟩ := ih
    obtain ⟨W₂, -, tested, goes⟩ := (htest W₁ t here).after true u holds
    obtain ⟨W₃, -, done⟩ := (hbody W₂ u tested (goes rfl)).after () v round
    exact ⟨W₃, done⟩

theorem watch_loop {J : World → State → Prop} {test : Eval Bool} {body : Eval Unit}
    {tested round : State → Prop}
    (htest : ∀ W s, J W s →
      Runs types W (fun W' again t => J W' t ∧ (again = true → t.returned = none)) test s)
    (hbody : ∀ W s, J W s → s.returned = none → Runs types W (fun W' _ t => J W' t) body s)
    (first : ∀ W s, J W s → s.returned = none → tested s)
    (second : ∀ W s, J W s → s.returned = none → round s) (h : J W s) :
    Watch.loop test body s tested round := by
  intro t head
  obtain ⟨W', here⟩ := head.keeps htest hbody h
  refine ⟨first W' t here, fun again u done goes => ?_⟩
  obtain ⟨W'', -, holds, open_⟩ := (htest W' t here).after again u done
  exact second W'' u holds (open_ goes)

structure Upheld (watch : Watch) (p : Program) (entered : List FunctionId)
    (returns : FunctionId → TypeId → Prop) : Prop where
  setting : Setting p entered returns watch.context
  follows : Follows p.types watch.claim
  calls : ∀ f ∈ entered, ∀ W s arguments line, World.Describes p.types W s.heap →
    p.Takes W (p.function f) arguments → watch.call f arguments line s

section Bodies

variable {watch : Watch} {depth : Nat} {Γ Γ' : Scopes Meaning} {current : FunctionId}

theorem upheld_target (u : Upheld watch p entered returns) (hW : W.Describes p.types s.heap)
    {f : FunctionId} (known : f ∈ entered) {injected : Bool}
    (dynamic : injected = true → (p.function f).traits.isStatic = false) {es : List Expr}
    {arguments : List Value}
    (fits : List.Forall₂ (fun s v => Value.Fits p.types W s v) (p.expects (p.function f) es)
      arguments) (line : Nat) : watch.target f injected line arguments s := by
  obtain ⟨reached, takes, -⟩ :=
    dispatch_takes hW known (u.setting.shapes.methods f known) dynamic fits
  unfold Watch.target
  rw [u.setting.calls.program]
  exact u.calls _ reached W s arguments line hW takes

mutual

theorem upheld_expr (u : Upheld watch p entered returns) (e : Expr) {type : TypeId}
    (typed : HasType p returns Γ e type) (keeps : e.keepsShapes p = true) {W : World} {s : State}
    (h : Stands p.types depth Γ W s) : watch.expr e s := by
  have around := u.follows.around h.heap (sound_eval u.setting e typed keeps (e.flows_any p) h)
  cases typed with
  | binary op lhs rhs line a b _ left right rule =>
    obtain ⟨keepsL, keepsR⟩ := Bool.and_eq_true_iff.1 keeps
    refine ⟨around, upheld_expr u lhs left keepsL h, fun v t done => ?_⟩
    obtain ⟨W', moved, -⟩ :=
      (sound_eval u.setting lhs left keepsL (lhs.flows_any p) h).after v t done
    exact upheld_expr u rhs right keepsR (h.moved moved)
  | literal value line => exact ⟨around, trivial⟩
  | var name _ line bound => exact ⟨around, trivial⟩
  | field base name line owner _ object rule =>
    obtain ⟨keeps, _⟩ := Bool.and_eq_true_iff.1 keeps
    exact ⟨around, upheld_expr u base object (Bool.and_eq_true_iff.1 keeps).1 h⟩
  | new _ line known object => exact ⟨around, trivial⟩
  | allocate element size line count _ sized rule found =>
    exact ⟨around, upheld_expr u size sized keeps h⟩
  | array element items line types _ literals typed rule found =>
    have flow : Expr.allFlow p (items.map fun _ => .any) items = true :=
      Expr.allFlow_literals p literals .any
    exact ⟨around, upheld_exprs u items typed keeps flow h⟩
  | index base place line array index _ stored rule placed int =>
    obtain ⟨keeps, keepsP⟩ := Bool.and_eq_true_iff.1 keeps
    obtain ⟨keepsB, -⟩ := Bool.and_eq_true_iff.1 keeps
    refine ⟨around, upheld_expr u base stored keepsB h, fun v t done ref _ => ?_⟩
    obtain ⟨W', moved, -⟩ :=
      (sound_eval u.setting base stored keepsB (base.flows_any p) h).after v t done
    exact upheld_expr u place placed keepsP (h.moved moved)
  | reference expr line referent _ named typed found =>
    exact ⟨around, upheld_expr u expr typed keeps h⟩
  | cast expr _ line source typed known => exact ⟨around, upheld_expr u expr typed keeps h⟩
  | call callee arguments target injected line types _ leads typed arity pairs receiver result =>
    obtain ⟨keeps, expected⟩ := Bool.and_eq_true_iff.1 keeps
    refine ⟨around, upheld_exprs u arguments typed keeps expected h, fun values t done => ?_⟩
    obtain ⟨W', moved, fits⟩ :=
      (sound_evalAll u.setting arguments typed keeps expected h).after values t done
    exact upheld_target u moved.heap (u.setting.settles _ _ result).1 leads.isStatic_of_injected
      fits line
termination_by structural e

theorem upheld_exprs (u : Upheld watch p entered returns) (es : List Expr) {types : List TypeId}
    {shapes : List Shape} (typed : HaveTypes p returns Γ es types)
    (keeps : Expr.allKeepShapes p es = true) (flows : Expr.allFlow p shapes es = true) {W : World}
    {s : State} (h : Stands p.types depth Γ W s) : watch.exprs es s := by
  cases typed with
  | nil => trivial
  | cons e rest type types head tail =>
    cases shapes with
    | nil => cases flows
    | cons d shapes =>
      obtain ⟨keepsE, keepsR⟩ := Bool.and_eq_true_iff.1 keeps
      obtain ⟨flowsE, flowsR⟩ := Bool.and_eq_true_iff.1 flows
      refine ⟨upheld_expr u e head keepsE h, fun v t done => ?_⟩
      obtain ⟨W', moved, -⟩ := (sound_eval u.setting e head keepsE flowsE h).after v t done
      exact upheld_exprs u rest tail keepsR flowsR (h.moved moved)
termination_by structural es

end

theorem upheld_place (u : Upheld watch p entered returns) {target : Expr} {type : TypeId}
    (typed : HasType p returns Γ target type) (keeps : target.keepsShapes p = true)
    (h : Stands p.types depth Γ W s) : watch.place target s := by
  cases typed with
  | field base name line owner _ object rule =>
    obtain ⟨keeps, -⟩ := Bool.and_eq_true_iff.1 keeps
    exact upheld_expr u base object (Bool.and_eq_true_iff.1 keeps).1 h
  | index base place line array index _ stored rule placed int =>
    obtain ⟨keeps, keepsP⟩ := Bool.and_eq_true_iff.1 keeps
    obtain ⟨keepsB, -⟩ := Bool.and_eq_true_iff.1 keeps
    refine ⟨upheld_expr u base stored keepsB h, fun v t done ref _ => ?_⟩
    obtain ⟨W', moved, -⟩ :=
      (sound_eval u.setting base stored keepsB (base.flows_any p) h).after v t done
    exact upheld_expr u place placed keepsP (h.moved moved)
  | _ => trivial

theorem upheld_condition (u : Upheld watch p entered returns) {e : Expr} {type : TypeId}
    (typed : HasType p returns Γ e type) (keeps : e.keepsShapes p = true) {R : Shape}
    (h : Lasts p.types R depth Γ W s) (goes : s.returned = none) (line : Nat)
    {P : Bool → State → Prop}
    (next : ∀ W again t, Lasts p.types R depth Γ W t → t.returned = none → P again t) :
    watch.expr e s ∧ After (condition watch.context e line) s P := by
  refine ⟨upheld_expr u e typed keeps (h.stands goes), fun again t done => ?_⟩
  obtain ⟨W', -, lasts, goes⟩ :=
    (runs_condition u.setting typed keeps h goes line).after again t done
  exact next W' again t lasts goes

mutual

theorem upheld_statement (u : Upheld watch p entered returns) (st : Statement)
    {depth : Nat} {Γ Γ' : Scopes Meaning} {W : World} {s : State}
    (checks : Checks p returns current Γ st Γ') (keeps : st.keepsShapes p current = true)
    (h : Lasts p.types (p.types.shape (p.function current).returnType) depth Γ W s)
    (goes : s.returned = none) : watch.statement st s := by
  have around := u.follows.around_runs h.heap (runs_exec u.setting st checks keeps h goes)
  cases checks with
  | block _ Δ statements line inside =>
    exact ⟨around, upheld_statements u statements inside keeps (h.opened goes)⟩
  | declare _ name written value nameLine line found type typed fresh filled known rule =>
    obtain ⟨keeps, -⟩ := Bool.and_eq_true_iff.1 keeps
    obtain ⟨keeps, -⟩ := Bool.and_eq_true_iff.1 keeps
    exact ⟨around, upheld_expr u value typed keeps (h.stands goes), fun _ _ _ => trivial⟩
  | assign _ target written value line found type typed place rule =>
    obtain ⟨keeps, keepsT⟩ := Bool.and_eq_true_iff.1 keeps
    obtain ⟨keeps, flows⟩ := Bool.and_eq_true_iff.1 keeps
    refine ⟨around, upheld_expr u value typed keeps (h.stands goes), fun v t done => ?_⟩
    obtain ⟨W', moved, -⟩ :=
      (sound_eval u.setting value typed keeps flows (h.stands goes)).after v t done
    exact upheld_place u place keepsT ((h.stands goes).moved moved)
  | ret _ value line type typed rule =>
    exact ⟨around, upheld_expr u value typed (Bool.and_eq_true_iff.1 keeps).1 (h.stands goes)⟩
  | ifThen _ Δ test body line holds inside =>
    obtain ⟨keepsT, keepsB⟩ := Bool.and_eq_true_iff.1 keeps
    refine ⟨around, upheld_condition u holds keepsT h goes line fun W again t lasts goes _ => ?_⟩
    exact upheld_statement u body inside keepsB (lasts.opened goes) goes
  | ifElse _ Δ Δ' test body otherwise line holds inside inside' =>
    obtain ⟨keeps, keepsO⟩ := Bool.and_eq_true_iff.1 keeps
    obtain ⟨keepsT, keepsB⟩ := Bool.and_eq_true_iff.1 keeps
    refine ⟨around, upheld_condition u holds keepsT h goes line fun W again t lasts goes => ⟨?_, ?_⟩⟩
    · exact fun _ => upheld_statement u body inside keepsB (lasts.opened goes) goes
    · exact fun _ => upheld_statement u otherwise inside' keepsO (lasts.opened goes) goes
  | whileLoop _ Δ test body line holds inside =>
    obtain ⟨keepsT, keepsB⟩ := Bool.and_eq_true_iff.1 keeps
    refine ⟨around, watch_loop (fun W s h => runs_goesOn u.setting holds keepsT h line)
      (fun W s h goes => ?_) (fun W s h goes => upheld_expr u test holds keepsT (h.stands goes))
      (fun W s h goes => upheld_statement u body inside keepsB (h.opened goes) goes) h⟩
    exact .branch inside (runs_exec u.setting body inside keepsB (h.opened goes) goes)
  | forLoop _ Γ'' Δ first test step body line begins holds steps inside =>
    obtain ⟨keeps, keepsB⟩ := Bool.and_eq_true_iff.1 keeps
    obtain ⟨keeps, keepsS⟩ := Bool.and_eq_true_iff.1 keeps
    obtain ⟨keepsF, keepsT⟩ := Bool.and_eq_true_iff.1 keeps
    refine ⟨around, upheld_statement u first begins keepsF (h.opened goes) goes, fun _ t done => ?_⟩
    obtain ⟨W', -, lasts⟩ :=
      (runs_exec u.setting first begins keepsF (h.opened goes) goes).after _ t done
    have branch (W : World) (s : State)
        (h : Lasts p.types (p.types.shape (p.function current).returnType) (depth + 1) Γ'' W s)
        (goes : s.returned = none) :=
      Runs.branch inside (runs_exec u.setting body inside keepsB (h.opened goes) goes)
    refine watch_loop (fun W s h => runs_goesOn u.setting holds keepsT h line)
      (fun W s h goes => .round (branch W s h goes) fun W t lasts goes =>
        runs_exec u.setting step steps keepsS lasts goes)
      (fun W s h goes => upheld_expr u test holds keepsT (h.stands goes)) (fun W s h goes => ?_) lasts
    refine ⟨upheld_statement u body inside keepsB (h.opened goes) goes, fun _ x done goes' => ?_⟩
    obtain ⟨W', -, lasts⟩ := (branch W s h goes).after _ x done
    exact upheld_statement u step steps keepsS lasts goes'
  | call _ callee arguments target injected line type typed =>
    cases typed with
    | call _ _ target _ _ types _ leads typed arity pairs receiver result =>
      obtain ⟨keeps, expected⟩ := Bool.and_eq_true_iff.1 keeps
      have stands := h.stands goes
      refine ⟨around, upheld_exprs u arguments typed keeps expected stands, fun values t done => ?_⟩
      obtain ⟨W', moved, fits⟩ :=
        (sound_evalAll u.setting arguments typed keeps expected stands).after values t done
      exact upheld_target u moved.heap (u.setting.settles _ _ result).1 leads.isStatic_of_injected
        fits line
termination_by structural st

theorem upheld_statements (u : Upheld watch p entered returns) (sts : List Statement)
    {depth : Nat} {Γ Γ' : Scopes Meaning} {W : World} {s : State}
    (checks : ChecksAll p returns current Γ sts Γ')
    (keeps : Statement.allKeepShapes p current sts = true)
    (h : Lasts p.types (p.types.shape (p.function current).returnType) depth Γ W s) :
    watch.statements sts s := by
  cases checks with
  | nil => trivial
  | cons _ Γ'' _ statement rest head tail =>
    obtain ⟨keepsS, keepsR⟩ := Bool.and_eq_true_iff.1 keeps
    intro goes
    refine ⟨upheld_statement u statement head keepsS h goes, fun _ t done => ?_⟩
    obtain ⟨W', -, lasts⟩ := (runs_exec u.setting statement head keepsS h goes).after _ t done
    exact upheld_statements u rest tail keepsR lasts
termination_by structural sts

end

end Bodies

/-- The claim holds all along calls, however deep they nest. -/
theorem Shaped.callThroughout (shaped : Shaped p entered returns) (follows : Follows p.types claim)
    (rounds depth : Nat) {f : FunctionId} (fine : Fine p returns f) {arguments : List Value}
    (hW : W.Describes p.types s.heap) (takes : p.Takes W (p.function f) arguments) (line : Nat) :
    callThroughout claim p rounds depth f arguments line s := by
  induction depth generalizing f arguments W s line with
  | zero => exact follows W arguments s.heap hW takes.known
  | succ depth ih =>
    have setting (depth : Nat) : Setting p entered returns (within p rounds depth) :=
      shaped.setting (shaped.keeps rounds depth)
    have sound := sound_callWithin rounds (depth + 1) (fun earlier _ => setting earlier) hW fine
      takes .plain line
    refine ⟨follows W arguments s.heap hW takes.known, follows.around hW sound, ?_⟩
    intro arity written
    obtain ⟨⟨m, Γ, checks⟩, keeps⟩ := fine.resolve_left (Bool.eq_false_iff.1 written)
    refine upheld_statements ⟨setting depth, follows, ?_⟩ _ checks keeps
      (lasts_inCall hW m takes written arity)
    exact fun g known W s values line hW takes => ih (shaped.fine g known) hW takes line

theorem takes_nothing (W : World) {f : Function} (none : f.parameters = []) : p.Takes W f [] := by
  refine ⟨fun _ mem => absurd mem List.not_mem_nil, fun _ _ _ _ same => ?_, fun _ _ => ?_⟩
  · cases same
  · rw [Function.parameterTypes, none]
    exact .nil

theorem fine_of_empty {f : FunctionId} (empty : (p.function f).body = []) : Fine p returns f := by
  have checks (Γ : Scopes Meaning) : ChecksAll p returns f Γ (p.function f).body Γ := empty ▸ .nil Γ
  exact .inr ⟨⟨default, _, checks _⟩, empty ▸ rfl⟩

def Begins (p : Program) (returns : FunctionId → TypeId → Prop) (f : FunctionId) : Prop :=
  Fine p returns f ∧ (p.function f).parameters = []

section Runs

variable {id : Option FunctionId} (bound : Nat)

theorem Shaped.callIfAnyThroughout (shaped : Shaped p entered returns)
    (follows : Follows p.types claim) (begins : ∀ f ∈ id, Begins p returns f)
    (hW : W.Describes p.types s.heap) (line : FunctionId → Nat) :
    callIfAnyThroughout claim p bound id line s := fun f mem =>
  shaped.callThroughout follows bound bound (begins f mem).1 hW (takes_nothing W (begins f mem).2) _

theorem Shaped.sound_callIfAny (shaped : Shaped p entered returns)
    (begins : ∀ f ∈ id, Begins p returns f) (hW : W.Describes p.types s.heap)
    (line : FunctionId → Nat) (v : Value) (fits : v.Fits p.types W .any) :
    Sound p.types W (fun W' v => v.Fits p.types W' .any) (callIfAny p bound id line v) s := by
  cases id with
  | none => exact .pure hW fits
  | some f =>
    obtain ⟨fine, none⟩ := begins f rfl
    have setting (depth : Nat) : Setting p entered returns (within p bound depth) :=
      shaped.setting (shaped.keeps bound depth)
    exact (sound_callWithin bound bound (fun earlier _ => setting earlier) hW fine
      (takes_nothing W none) .plain (line f)).mono fun _ _ _ fits => fits.toAny

theorem Shaped.sound_run (shaped : Shaped p entered returns) {entry : Entry}
    (body : ∀ f ∈ entry.body, Begins p returns f) (main : ∀ f ∈ entry.main, Begins p returns f)
    (hW : W.Describes p.types s.heap) :
    Sound p.types W (fun W' v => v.Fits p.types W' .any) (run p bound (some entry)) s := by
  refine (shaped.sound_callIfAny bound body hW _ .void trivial).bind fun _ _ _ moved fits => ?_
  refine (shaped.sound_callIfAny bound main moved.heap _ _ fits).bind fun _ _ _ moved fits => ?_
  refine (Sound.onConsole moved.heap 0 _).bind fun _ _ _ moved _ => ?_
  exact .pure moved.heap (fits.grows moved.grows)

end Runs
end Machine

namespace Compilation

open Typing Machine

variable {files : List SourceFile} {c : Compilation} {t : Typing.State}
  {claim : List Value → Heap → Prop}

theorem Compiled.shaped (h : Compiled files c t) (shapes : t.program.KeepsShapes t.checked) :
    Shaped t.program t.checked (Accounts t) where
  tables := h.accepted.tables
  settles _ _ known := known
  shapes := shapes
  fine f known := (h.accepted.correct f known).imp_right fun ⟨m, Γ, _, checks⟩ =>
    ⟨⟨m, Γ, checks⟩, shapes.bodies f known⟩

theorem Compiled.begins (h : Compiled files c t) (shapes : t.program.KeepsShapes t.checked)
    {f : FunctionId} (starts : c.Starts f) : Begins t.program (Accounts t) f := by
  refine ⟨?_, h.parameters_of_starts starts⟩
  obtain ⟨m, last, own⟩ := h.own_of_starts starts
  rcases h.checked_or_empty last own with checked | empty
  · exact (h.shaped shapes).fine f checked
  · exact fine_of_empty empty

/-- What follows from a description of the heap holds all along every run of an accepted program
    that keeps shapes. -/
theorem Compiled.throughout (h : Compiled files c t) (shapes : t.program.KeepsShapes t.checked)
    (follows : Follows t.program.types claim) (bound : Nat) (console : Console) :
    c.Throughout claim bound console := by
  have shaped := h.shaped shapes
  have hW : World.Describes t.program.types {} ({ console } : Machine.State).heap := .empty _
  have body {m : Module} (last : c.modules.getLast? = some m) (f : FunctionId) (mem : f ∈ m.body) :
      Begins t.program (Accounts t) f := h.begins shapes ⟨m, last, .inl mem⟩
  have main {m : Module} (last : c.modules.getLast? = some m) (f : FunctionId)
      (mem : f ∈ m.main? t.program) : Begins t.program (Accounts t) f :=
    h.begins shapes ⟨m, last, .inr (h.program ▸ mem)⟩
  refine ⟨follows.here hW, ?_, ?_, ?_⟩
  · unfold Compilation.run
    rw [h.program]
    cases last : c.modules.getLast? with
    | none => exact follows.here hW
    | some m => exact (follows.around hW (shaped.sound_run bound (body last) (main last) hW)).2
  · rw [h.program]
    exact fun m last => shaped.callIfAnyThroughout bound follows (body last) hW _
  · rw [h.program]
    intro m last v u done
    have sound := shaped.sound_callIfAny bound (body last) hW (fun _ => 0) .void trivial
    obtain ⟨W', moved, -⟩ := sound.after v u done
    exact shaped.callIfAnyThroughout bound follows (main last) moved.heap _

end Compilation
end ObjectLang
