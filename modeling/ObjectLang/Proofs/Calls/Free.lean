import ObjectLang.Proofs.Calls.Node
set_option autoImplicit false

/-!
# Calls of free functions

A call by a mere name is not bound when it is read. Where the check binds it, the target is a function
that the file sees, however the call is nested and however often it is visited.
-/

namespace ObjectLang

def CallNode.FreeIn (functions : List FunctionId) (n : CallNode) : Prop :=
  ∀ name noted line, n.callee = .var name noted line → ∀ f ∈ n.target, f ∈ functions

theorem CallNode.Formed.freeIn {p : Program} {n : CallNode} (h : n.Formed p)
    (functions : List FunctionId) : n.FreeIn functions := by
  intro name noted line mere f hf
  obtain ⟨_, _, _, _, callee⟩ := (h.makes f hf).named
  rw [mere] at callee
  cases callee

namespace Typing

variable {c : Context} {m : Module} {Γ : Scopes Meaning} {s t : State}

structure Sees (c : Context) (m : Module) (s : State) : Prop where
  entered : c.current ∈ s.checked
  module : c.module? s = some m

theorem Sees.later {O : FunctionId → Prop} (h : Sees c m s) (later : Later O s t) : Sees c m t where
  entered := later.mem h.entered
  module := by
    rw [Context.module?, later.evolves.module_eq]
    exact h.module

theorem Sees.keeps (h : Sees c m s) (keeps : Keeps s t) : Sees c m t := h.later keeps.toLater

/-- All calls by a mere name are bound to functions that the module sees, if they are bound. -/
def Free (m : Module) (nodes : List CallNode) : Prop := ∀ n ∈ nodes, n.FreeIn m.functions

theorem free_nil (m : Module) : Free m [] := nofun

theorem free_append {front behind : List CallNode} :
    Free m (front ++ behind) ↔ Free m front ∧ Free m behind := List.forall_mem_append

theorem free_cons {n : CallNode} {nodes : List CallNode} :
    Free m (n :: nodes) ↔ n.FreeIn m.functions ∧ Free m nodes := List.forall_mem_cons

def Resolved.Free {n : Nat} (m : Module) (Γ : Scopes Meaning) (r : Resolved n) : Prop :=
  match r with
  | .bound target callee arguments injected _ _ =>
    CallNode.FreeIn m.functions ⟨Γ, callee, arguments, some target, injected⟩ ∧
      Typing.Free m (callee.callNodes Γ) ∧ Typing.Free m (Expr.allCallNodes Γ arguments)
  | .failed _ callee arguments _ _ =>
    Typing.Free m (callee.callNodes Γ) ∧ Typing.Free m (Expr.allCallNodes Γ arguments)

theorem free_bindMethod {n k : Nat} {base : Visited n} (h : Free m (base.expr.callNodes Γ))
    (name : String) (noted : Option TypeId) (line : Nat) {arguments : List Expr}
    (given : Free m (Expr.allCallNodes Γ arguments)) (injected : Bool)
    (le : Expr.weights arguments ≤ k) :
    (bindMethod base name noted line arguments injected le).Free m Γ := by
  unfold bindMethod
  dsimp only
  split
  · exact ⟨h, given⟩
  · split
    · exact ⟨nofun, h, given⟩
    · exact ⟨nofun, h, free_append.2 ⟨h, given⟩⟩

theorem free_next {n : Nat} {v : Visited n} {e : Expr} {visit : State → Visited e.weight}
    (h : Free m (e.callNodes Γ)) (hv : Free m ((visit v.state).expr.callNodes Γ)) :
    Free m ((v.next visit).expr.callNodes Γ) := by
  unfold Visited.next
  split
  · exact hv
  · exact h

mutual

theorem free_visit (hc : c.Keeping) (e : Expr) {s : State} (sees : Sees c m s)
    (h : Free m (e.callNodes Γ)) : Free m ((visit c e s).expr.callNodes Γ) := by
  match e with
  | .binary op lhs rhs line =>
    obtain ⟨left, right⟩ := free_append.1 h
    have behind := sees.keeps (keeps_visit hc lhs s)
    rw [visit]
    exact free_append.2 ⟨free_visit hc lhs sees left,
      free_next right (free_visit hc rhs behind right)⟩
  | .literal value line =>
    rw [visit]
    exact free_nil m
  | .var name noted line =>
    rw [visit, visitVar]
    split <;> exact free_nil m
  | .field base name noted line =>
    rw [visit]
    exact free_visit hc base sees h
  | .new type line =>
    rw [visit]
    exact free_nil m
  | .allocate element size line =>
    rw [visit]
    exact free_visit hc size sees h
  | .array element items line =>
    rw [visit]
    exact free_visitAll hc (checkItem element) items sees h
  | .index base place line =>
    obtain ⟨outside, inside⟩ := free_append.1 h
    have behind := sees.keeps (keeps_visit hc base s)
    rw [visit]
    exact free_append.2 ⟨free_visit hc base sees outside,
      free_next inside (free_visit hc place behind inside)⟩
  | .reference expr line =>
    rw [visit]
    split
    · exact free_visit hc expr sees h
    · exact h
  | .cast expr type line =>
    rw [visit]
    exact free_visit hc expr sees h
  | .call callee arguments (some target) injected line =>
    obtain ⟨node, rest⟩ := free_cons.1 h
    obtain ⟨called, given⟩ := free_append.1 rest
    rw [visit]
    exact free_cons.2 ⟨node, free_append.2 ⟨called,
      free_visitAll hc (fun _ _ => .ok ()) arguments (sees.keeps (hc target s)) given⟩⟩
  | .call callee arguments none injected line =>
    obtain ⟨called, given⟩ := free_append.1 (free_cons.1 h).2
    have resolved := free_resolve hc callee arguments injected sees called given
    have behind := sees.keeps (keeps_resolve hc callee arguments injected s)
    rw [visit]
    split
    · rename_i failed
      rw [failed] at resolved
      exact free_cons.2 ⟨nofun, free_append.2 resolved⟩
    · rename_i target callee' bound injected' t le found
      rw [found] at resolved behind
      obtain ⟨node, called', given'⟩ := resolved
      exact free_cons.2 ⟨node, free_append.2 ⟨called',
        free_visitAll hc (fun _ _ => .ok ()) bound (behind.keeps (hc target t)) given'⟩⟩
termination_by 2 * e.weight
decreasing_by all_goals simp only [Expr.weight]; omega

theorem free_visitAll (hc : c.Keeping) (accept : Program → TypeId → Except TypeError Unit)
    (es : List Expr) {s : State} (sees : Sees c m s) (h : Free m (Expr.allCallNodes Γ es)) :
    Free m (Expr.allCallNodes Γ (visitAll c accept es s).exprs) := by
  match es with
  | [] =>
    rw [visitAll]
    exact free_nil m
  | e :: rest =>
    have _ := e.weight_pos
    obtain ⟨head, tail⟩ := free_append.1 h
    have first := free_visit hc e sees head
    have behind := sees.keeps (keeps_visit hc e s)
    rw [visitAll]
    dsimp only
    split
    · exact free_append.2 ⟨first, tail⟩
    · exact free_append.2 ⟨first, free_visitAll hc accept rest behind tail⟩
termination_by 2 * Expr.weights es + 1
decreasing_by all_goals simp only [Expr.weights]; omega

theorem free_resolve (hc : c.Keeping) (callee : Expr) (arguments : List Expr) (injected : Bool)
    {s : State} (sees : Sees c m s) (called : Free m (callee.callNodes Γ))
    (given : Free m (Expr.allCallNodes Γ arguments)) :
    (resolve c callee arguments injected s).Free m Γ := by
  match callee with
  | .var name noted line =>
    have inside := free_visitAll hc (fun _ _ => .ok ()) arguments sees given
    have behind := sees.keeps (keeps_visitAll hc (fun _ _ => .ok ()) arguments s)
    rw [resolve]
    split
    · rename_i target found
      obtain ⟨types, -, free⟩ := bind_eq_ok.1 found
      rw [behind.module] at free
      obtain ⟨_, ⟨⟩, seen⟩ := freeTarget_eq_ok.1 free
      have visible : target ∈ m.functions := List.mem_of_find?_eq_some seen
      refine ⟨?_, free_nil m, inside⟩
      rintro _ _ _ - _ ⟨⟩
      exact visible
    · exact ⟨free_nil m, inside⟩
  | .field base name noted line =>
    rw [resolve]
    split
    · split
      · exact ⟨nofun, called, given⟩
      · exact ⟨called, given⟩
    · exact free_bindMethod (free_visit hc base sees called) name noted line given injected _
  | .binary .. | .literal .. | .new .. | .allocate .. | .array .. | .index .. | .reference ..
  | .cast .. | .call .. =>
    unfold resolve
    exact ⟨called, given⟩
termination_by 2 * (callee.weight + Expr.weights arguments) + 1
decreasing_by all_goals simp only [Expr.weight]; omega

end

section Statements

variable {p : Program}

theorem Sees.openScope (h : Sees c m s) : Sees c m (s.openScope []) := ⟨h.entered, h.module⟩

theorem Sees.check (hc : c.Keeping) (h : Sees c m s) (statement : Statement) :
    Sees c m (check c statement s).state :=
  h.later (later_check hc statement h.entered)

theorem Sees.inScope (hc : c.Keeping) (h : Sees c m s) (body : Statement) :
    Sees c m (Checked.inScope (Typing.check c body) s).state :=
  have inside := h.openScope.check hc body
  ⟨inside.entered, inside.module⟩

theorem Sees.next {v : Checked} (h : Sees c m v.state) (statement : Statement)
    {check : State → Checked} (hcheck : Sees c m (check v.state).state) :
    Sees c m (v.next statement check).state := by
  unfold Checked.next
  split
  · exact hcheck
  · exact h

theorem free_of_formed {e : Expr} (h : e.Formed p) (Γ : Scopes Meaning) :
    Free m (e.callNodes Γ) :=
  fun n hn => (e.formed_callNodes Γ h n hn).freeIn m.functions

theorem free_of_formedStatement {statement : Statement} (h : statement.Formed p)
    (Γ : Scopes Meaning) : Free m (statement.callNodes Γ) :=
  fun n hn => (statement.formed_callNodes Γ h n hn).freeIn m.functions

theorem free_checkAssign (hc : c.Keeping) (sees : Sees c m s) {declares : Bool} {target : Expr}
    {written : Option TypeId} {value : Expr} {line : Nat}
    (h : (Statement.assign declares target written value line).Formed p) (Γ : Scopes Meaning) :
    Free m ((checkAssign c declares target written value line s).statement.callNodes Γ) := by
  obtain ⟨stored, -, given⟩ := h
  have visited := free_visit hc value sees (free_of_formed given Γ)
  have behind := sees.keeps (keeps_visit hc value s)
  unfold checkAssign
  dsimp only
  split
  · exact free_append.2 ⟨visited, free_of_formed stored Γ⟩
  · split
    · split
      · exact free_append.2 ⟨visited, free_of_formed stored Γ⟩
      · rename_i target' t declared
        obtain ⟨name, noted, at_, type, rfl, -, -, -, rfl, -⟩ := declare_eq_ok declared
        exact free_append.2 ⟨visited, free_nil m⟩
    · exact free_append.2 ⟨visited, free_visit hc target behind (free_of_formed stored Γ)⟩

theorem free_checkCall (hc : c.Keeping) (sees : Sees c m s) {callee : Expr}
    {arguments : List Expr} {target : Option FunctionId} {injected : Bool} {line : Nat}
    (h : (Expr.call callee arguments target injected line).Formed p) (Γ : Scopes Meaning) :
    Free m ((checkCall c callee arguments target injected line s).statement.callNodes Γ) := by
  have raw := free_of_formed (m := m) h Γ
  have visited := free_visit hc (.call callee arguments target injected line) sees raw
  unfold checkCall
  dsimp only
  split
  · rename_i same
    rw [same] at visited
    exact visited
  · exact raw

theorem free_checkedNext {v : Checked} {statement : Statement} {check : State → Checked}
    (raw : Free m (statement.callNodes Γ)) (h : Free m ((check v.state).statement.callNodes Γ)) :
    Free m ((v.next statement check).statement.callNodes Γ) := by
  unfold Checked.next
  split
  · exact h
  · exact raw

mutual

theorem free_check (hc : c.Keeping) (statement : Statement) {s : State} (sees : Sees c m s)
    (h : statement.Formed p) (Γ : Scopes Meaning) :
    Free m ((check c statement s).statement.callNodes Γ) := by
  cases statement with
  | block statements line => exact free_checkAll hc statements sees.openScope h _
  | assign declares target written value line => exact free_checkAssign hc sees h Γ
  | ret value line =>
    rw [check, statement_checkReturn]
    exact free_visit hc value sees (free_of_formed h Γ)
  | ifThen test body line =>
    obtain ⟨tested, inside⟩ := h
    have behind := sees.keeps (keeps_visit hc test s)
    exact free_append.2 ⟨free_visit hc test sees (free_of_formed tested Γ),
      free_checkedNext (free_of_formedStatement inside _)
        (free_check hc body behind.openScope inside _)⟩
  | ifElse test body otherwise line =>
    obtain ⟨tested, first, second⟩ := h
    have behind := sees.keeps (keeps_visit hc test s)
    have between := Sees.next (v := .mk body _ (visitCondition c test s).2.2) behind body
      (behind.inScope hc body)
    exact free_append.2 ⟨free_visit hc test sees (free_of_formed tested Γ), free_append.2
      ⟨free_checkedNext (free_of_formedStatement first _)
        (free_check hc body behind.openScope first _),
      free_checkedNext (free_of_formedStatement second _)
        (free_check hc otherwise between.openScope second _)⟩⟩
  | whileLoop test body line =>
    obtain ⟨tested, inside⟩ := h
    have behind := sees.keeps (keeps_visit hc test s)
    exact free_append.2 ⟨free_visit hc test sees (free_of_formed tested Γ),
      free_checkedNext (free_of_formedStatement inside _)
        (free_check hc body behind.openScope inside _)⟩
  | forLoop first test step body line =>
    obtain ⟨begins, tested, ⟨steps, -⟩, inside⟩ := h
    have started := free_check hc first sees.openScope begins (Γ.openSegment [])
    have behind := sees.openScope.check hc first
    cases ok : (check c first (s.openScope [])).result with
    | ok =>
      let t := (check c first (s.openScope [])).state
      have holds := behind.keeps (keeps_visit hc test t)
      have stepped := Sees.next (v := .mk step _ (visitCondition c test t).2.2) holds step
        (holds.check hc step)
      rw [check_forLoop ok]
      exact free_append.2 ⟨started, free_append.2
        ⟨free_visit hc test behind (free_of_formed tested _), free_append.2
          ⟨free_checkedNext (free_of_formedStatement steps _) (free_check hc step holds steps _),
            free_checkedNext (free_of_formedStatement inside _)
              (free_check hc body stepped.openScope inside _)⟩⟩⟩
    | error e =>
      rw [check]
      simp only [ok]
      exact free_append.2 ⟨started, free_append.2 ⟨free_of_formed tested _, free_append.2
        ⟨free_of_formedStatement steps _, free_of_formedStatement inside _⟩⟩⟩
  | call callee arguments target injected line => exact free_checkCall hc sees h Γ
termination_by structural statement

theorem free_checkAll (hc : c.Keeping) (statements : List Statement) {s : State}
    (sees : Sees c m s) (h : Statement.FormedAll p statements) (Γ : Scopes Meaning) :
    Free m (Statement.allCallNodes Γ (checkAll c statements s).1) := by
  cases statements with
  | nil => exact free_nil m
  | cons statement rest =>
    obtain ⟨head, tail⟩ := h
    have behind := sees.check hc statement
    rw [checkAll]
    dsimp only
    refine free_append.2 ⟨free_check hc statement sees head Γ, ?_⟩
    split
    · exact free_checkAll hc rest behind tail _
    · rename_i e _
      exact free_checkAll hc rest (behind.later (later_record (· = c.current) _ _ e)) tail _
termination_by structural statements

end

end Statements

end Typing
end ObjectLang
