import ObjectLang.Proofs.Typing.Booked
import ObjectLang.Proofs.Typing.Later
set_option autoImplicit false

/-!
# Books that tally

Books tally with the state if what has been taken down is what has been recorded: each fault in the
file of its function, and in a statement of the body of that function, which was not checked before.
A visit with books comes to what it comes to without them in the context of the current function, and
the books come back as they were, but for the faults of the functions that were called.
-/

namespace ObjectLang

mutual

def Statement.listed : Statement → List Statement
  | .block statements _ => allListed statements
  | .ifThen _ body _ | .whileLoop _ body _ => body.listed
  | .ifElse _ body otherwise _ => body.listed ++ otherwise.listed
  | .forLoop first _ step body _ => first.listed ++ step.listed ++ body.listed
  | .assign .. | .ret .. | .call .. => []

def Statement.allListed : List Statement → List Statement
  | [] => []
  | statement :: rest => statement :: (statement.listed ++ allListed rest)

end

namespace Typing

def fileOf (modules : List Module) (p : Program) (id : FunctionId) : String :=
  (modules[(p.function id).module]?.map Module.file).getD ""

namespace Fault

def entry (modules : List Module) (p : Program) (x : Fault) : Diagnostic :=
  ⟨.error, fileOf modules p x.function, x.statement.line, x.error.message⟩

structure Placed (modules : List Module) (s : State) (x : Fault) : Prop where
  fresh : x.function ∉ s.checked
  module : ∃ m, modules[(s.program.function x.function).module]? = some m
  listed : x.statement ∈ Statement.allListed (s.program.function x.function).body

end Fault

/-- Checking came from `s` to `t`, and the books from `b` to `b'`: only faults have been added, which
    are recorded and are placed, unless they are the check's `own`. -/
structure Tallies (modules : List Module) (O : FunctionId → Prop) (own : Fault → Prop)
    (s : State) (b : Books) (t : State) (b' : Books) : Prop where
  later : Later O s t
  file : t.diagnostics.file = s.diagnostics.file
  stack : b'.stack = b.stack
  walk : b'.walk = b.walk
  faults : ∃ xs, b'.faults = b.faults ++ xs ∧
    t.diagnostics.entries.toList =
      s.diagnostics.entries.toList ++ xs.map (Fault.entry modules s.program) ∧
    ∀ x ∈ xs, own x ∨ x.Placed modules s

abbrev Restores (modules : List Module) : State → Books → State → Books → Prop :=
  Tallies modules (fun _ => False) fun _ => False

theorem diagnostics_declare {target target' : Expr} {written : Option TypeId} {value : TypeId}
    {s t : State} (h : declare target written value s = .ok (target', t)) :
    t.diagnostics = s.diagnostics := by
  unfold declare at h
  split at h
  · obtain ⟨-, -, h⟩ := bind_eq_ok.1 h
    obtain ⟨-, -, h⟩ := bind_eq_ok.1 h
    obtain ⟨type, -, h⟩ := bind_eq_ok.1 h
    cases h
    rfl
  · cases h

theorem diagnostics_acceptReturned {c : Context} {value : Expr} {type : TypeId} {s t : State}
    (h : acceptReturned c value type s = .ok t) : t.diagnostics = s.diagnostics := by
  unfold acceptReturned at h
  split at h
  · cases h
    rfl
  · split at h
    · cases h
    · split at h
      · cases h
        rfl
      · obtain ⟨-, -, h⟩ := bind_eq_ok.1 h
        cases h
        rfl

theorem fileOf_evolves {p q : Program} (modules : List Module) (h : p.Evolves q)
    (id : FunctionId) : fileOf modules q id = fileOf modules p id := by
  unfold fileOf
  rw [h.module_eq id]

namespace Tallies

variable {modules : List Module} {O : FunctionId → Prop} {own : Fault → Prop}
  {s t u : State} {b b' b'' : Books}

theorem of_later (h : Later O s t) (same : t.diagnostics = s.diagnostics) :
    Tallies modules O own s b t b where
  later := h
  file := congrArg Diagnostics.file same
  stack := rfl
  walk := rfl
  faults := ⟨[], by simp, by simp [same], nofun⟩

theorem refl (s : State) (b : Books) : Tallies modules O own s b s b :=
  of_later (.refl O s) rfl

theorem trans (h : Tallies modules O own s b t b') (h' : Tallies modules O own t b' u b'') :
    Tallies modules O own s b u b'' where
  later := h.later.trans h'.later
  file := h'.file.trans h.file
  stack := h'.stack.trans h.stack
  walk := h'.walk.trans h.walk
  faults := by
    obtain ⟨xs, added, recorded, placed⟩ := h.faults
    obtain ⟨ys, added', recorded', placed'⟩ := h'.faults
    have entries : ys.map (Fault.entry modules t.program) =
        ys.map (Fault.entry modules s.program) := by
      refine List.map_congr_left fun y _ => ?_
      rw [Fault.entry, fileOf_evolves modules h.later.evolves, Fault.entry]
    refine ⟨xs ++ ys, ?_, ?_, fun x hx => ?_⟩
    · rw [added', added, List.append_assoc]
    · rw [recorded', recorded, entries, List.map_append, List.append_assoc]
    · rcases List.mem_append.1 hx with first | second
      · exact placed x first
      · refine (placed' x second).imp_right fun place => ?_
        have same := h.later.untouched x.function place.fresh
        exact ⟨fun old => place.fresh (h.later.mem old), same ▸ place.module, same ▸ place.listed⟩

theorem mono {O' : FunctionId → Prop} {own' : Fault → Prop} (h : Tallies modules O own s b t b')
    (hO : ∀ id, O id → O' id) (hown : ∀ x, own x → own' x) :
    Tallies modules O' own' s b t b' where
  later := h.later.mono hO
  file := h.file
  stack := h.stack
  walk := h.walk
  faults := by
    obtain ⟨xs, added, recorded, placed⟩ := h.faults
    exact ⟨xs, added, recorded, fun x hx => (placed x hx).imp_left (hown x)⟩

theorem of_restores (h : Restores modules s b t b') : Tallies modules O own s b t b' :=
  h.mono nofun nofun

theorem current (h : Tallies modules O own s b t b') : b'.current? = b.current? :=
  congrArg List.head? h.stack

end Tallies

def Follows {α : Type} (modules : List Module) (O : FunctionId → Prop) (own : Fault → Prop)
    (s : State) (b : Books) (x : α × Books) (y : α) (t : State) : Prop :=
  ∃ b', x = (y, b') ∧ Tallies modules O own s b t b'

structure Desk.Serves (d : Desk) (c : Context) : Prop where
  modules : c.modules = d.modules
  target : ∀ id s b, Follows d.modules (fun _ => False) (fun _ => False) s b
    (d.checkTarget id s b) (c.checkTarget id s) (c.checkTarget id s)

section Expressions

variable {d : Desk} {c : Context} {n m : Nat}

abbrev VisitsAlike {α : Type} (d : Desk) (s : State) (b : Books) (x : α × Books) (y : α) (t : State) :
    Prop :=
  Follows d.modules (fun _ => False) (fun _ => False) s b x y t

theorem module?_eq (hd : d.Serves c) {b : Books} (current : b.current? = some c.current)
    (s : State) : b.module? d.modules s = c.module? s := by
  rw [Books.module?, current, ← hd.modules]
  rfl

theorem visits_next {v : Visited n} {b : Books} {e : Expr}
    (h : ∀ s, VisitsAlike d s b (Booked.visit d e s b) (visit c e s) (visit c e s).state) :
    VisitsAlike d v.state b (Booked.next (v, b) (Booked.visit d e)) (v.next (visit c e))
      (v.next (visit c e)).state := by
  cases result : v.result with
  | ok _ =>
    simp only [Booked.next, Visited.next, result]
    exact h v.state
  | error fault =>
    simp only [Booked.next, Visited.next, result]
    exact ⟨b, rfl, .refl _ b⟩

theorem restores_arrayType (modules : List Module) (element : TypeId) (s : State) (b : Books)
    (checked : Except TypeError Unit) :
    Restores modules s b (arrayType element s checked).1 b := by
  refine .of_later (keeps_arrayType element s checked).toLater ?_
  unfold arrayType
  split <;> rfl

theorem restores_referenceType (modules : List Module) (place : Visited n) (b : Books) :
    Restores modules place.state b (referenceType place).1 b := by
  refine .of_later (keeps_referenceType place).toLater ?_
  unfold referenceType
  split <;> rfl

mutual

theorem visits_visit (hd : d.Serves c) (e : Expr) (s : State) {b : Books}
    (current : b.current? = some c.current) :
    VisitsAlike d s b (Booked.visit d e s b) (visit c e s) (visit c e s).state := by
  match e with
  | .binary op lhs rhs line =>
    obtain ⟨b₁, left, h₁⟩ := visits_visit hd lhs s current
    obtain ⟨b₂, right, h₂⟩ := visits_next (v := visit c lhs s) fun t =>
      visits_visit hd rhs t (h₁.current.trans current)
    refine ⟨b₂, ?_, ?_⟩
    · rw [Booked.visit, visit]
      simp only [left, right]
    · rw [visit]
      exact h₁.trans h₂
  | .literal value line =>
    rw [Booked.visit, visit]
    exact ⟨b, rfl, .refl s b⟩
  | .var name noted line =>
    rw [Booked.visit, visit, state_visitVar]
    exact ⟨b, rfl, .refl s b⟩
  | .field base name noted line =>
    obtain ⟨b₁, inside, h₁⟩ := visits_visit hd base s current
    rw [Booked.visit, visit]
    simp only [inside]
    exact ⟨b₁, rfl, h₁⟩
  | .new type line =>
    rw [Booked.visit, visit]
    exact ⟨b, rfl, .refl s b⟩
  | .allocate element size line =>
    obtain ⟨b₁, inside, h₁⟩ := visits_visit hd size s current
    rw [Booked.visit, visit]
    simp only [inside]
    exact ⟨b₁, rfl, h₁.trans (restores_arrayType _ element _ _ _)⟩
  | .array element items line =>
    obtain ⟨b₁, inside, h₁⟩ := visits_visitAll hd (checkItem element) items s current
    rw [Booked.visit, visit]
    simp only [inside]
    exact ⟨b₁, rfl, h₁.trans (restores_arrayType _ element _ _ _)⟩
  | .index array index line =>
    obtain ⟨b₁, outside, h₁⟩ := visits_visit hd array s current
    obtain ⟨b₂, inside, h₂⟩ := visits_next (v := (visit c array s).judge elementType) fun t =>
      visits_visit hd index t (h₁.current.trans current)
    refine ⟨b₂, ?_, ?_⟩
    · rw [Booked.visit, visit]
      simp only [outside, inside]
    · rw [visit]
      exact Tallies.trans h₁ h₂
  | .reference expr line =>
    obtain ⟨b₁, inside, h₁⟩ := visits_visit hd expr s current
    rw [Booked.visit, visit]
    split
    · simp only [inside]
      exact ⟨b₁, rfl, h₁.trans (restores_referenceType _ _ _)⟩
    · exact ⟨b, rfl, .refl s b⟩
  | .cast expr type line =>
    obtain ⟨b₁, inside, h₁⟩ := visits_visit hd expr s current
    rw [Booked.visit, visit]
    simp only [inside]
    exact ⟨b₁, rfl, h₁⟩
  | .call callee arguments (some target) injected line =>
    obtain ⟨b₁, checked, h₁⟩ := hd.target target s b
    obtain ⟨b₂, inside, h₂⟩ := visits_visitAll hd (fun _ _ => .ok ()) arguments
      (c.checkTarget target s) (h₁.current.trans current)
    rw [Booked.visit, visit]
    simp only [checked, inside]
    exact ⟨b₂, rfl, h₁.trans h₂⟩
  | .call callee arguments none injected line =>
    obtain ⟨b₁, resolved, h₁⟩ := visits_resolve hd callee arguments injected s current
    rw [Booked.visit, visit]
    simp only [resolved]
    cases found : resolve c callee arguments injected s with
    | failed e callee' arguments' t le =>
      rw [found] at h₁
      exact ⟨b₁, rfl, h₁⟩
    | bound target callee' bound injected' t le =>
      rw [found] at h₁
      obtain ⟨b₂, checked, h₂⟩ := hd.target target t b₁
      obtain ⟨b₃, inside, h₃⟩ := visits_visitAll hd (fun _ _ => .ok ()) bound
        (c.checkTarget target t) (h₂.current.trans (h₁.current.trans current))
      simp only [checked, inside]
      exact ⟨b₃, rfl, (h₁.trans h₂).trans h₃⟩
termination_by 2 * e.weight
decreasing_by all_goals simp only [Expr.weight]; omega

theorem visits_visitAll (hd : d.Serves c) (accept : Program → TypeId → Except TypeError Unit)
    (es : List Expr) (s : State) {b : Books} (current : b.current? = some c.current) :
    VisitsAlike d s b (Booked.visitAll d accept es s b) (visitAll c accept es s)
      (visitAll c accept es s).state := by
  match es with
  | [] =>
    rw [Booked.visitAll, visitAll]
    exact ⟨b, rfl, .refl s b⟩
  | e :: rest =>
    have _ := e.weight_pos
    obtain ⟨b₁, first, h₁⟩ := visits_visit hd e s current
    rw [Booked.visitAll, visitAll]
    cases accepted : (visit c e s).result.bind fun type =>
        (accept (visit c e s).state.program type).map fun _ => type with
    | error fault =>
      simp only [first, accepted]
      exact ⟨b₁, rfl, h₁⟩
    | ok type =>
      obtain ⟨b₂, others, h₂⟩ := visits_visitAll hd accept rest (visit c e s).state
        (h₁.current.trans current)
      simp only [first, accepted, others]
      exact ⟨b₂, rfl, h₁.trans h₂⟩
termination_by 2 * Expr.weights es + 1
decreasing_by all_goals simp only [Expr.weights]; omega

theorem visits_resolve (hd : d.Serves c) (callee : Expr) (arguments : List Expr)
    (injected : Bool) (s : State) {b : Books} (current : b.current? = some c.current) :
    VisitsAlike d s b (Booked.resolve d callee arguments injected s b)
      (resolve c callee arguments injected s) (resolve c callee arguments injected s).state := by
  match callee with
  | .var name noted line =>
    obtain ⟨b₁, inside, h₁⟩ := visits_visitAll hd (fun _ _ => .ok ()) arguments s current
    have state : (resolve c (.var name noted line) arguments injected s).state =
        (visitAll c (fun _ _ => .ok ()) arguments s).state := by
      rw [resolve]
      split <;> rfl
    refine ⟨b₁, ?_, state.symm ▸ h₁⟩
    rw [Booked.resolve]
    simp only [inside, module?_eq hd (h₁.current.trans current)]
    unfold resolve
    rfl
  | .field base name noted line =>
    cases named : namedType? s base with
    | some type =>
      have state : (resolve c (.field base name noted line) arguments injected s).state = s := by
        rw [resolve, named]
        dsimp only
        split <;> rfl
      refine ⟨b, ?_, state.symm ▸ .refl s b⟩
      rewrite [Booked.resolve, resolve, named]
      rfl
    | none =>
      obtain ⟨b₁, inside, h₁⟩ := visits_visit hd base s current
      have state := state_bindMethod (visit c base s) name noted line arguments injected
        (Nat.le_refl _)
      rw [Booked.resolve, resolve, named]
      simp only [inside]
      exact ⟨b₁, rfl, state.symm ▸ h₁⟩
  | .binary .. | .literal .. | .new .. | .allocate .. | .array .. | .index .. | .reference ..
  | .cast .. | .call .. =>
    unfold Booked.resolve resolve
    exact ⟨b, rfl, .refl s b⟩
termination_by 2 * (callee.weight + Expr.weights arguments) + 1
decreasing_by all_goals simp only [Expr.weight]; omega

end

end Expressions

end Typing
end ObjectLang
