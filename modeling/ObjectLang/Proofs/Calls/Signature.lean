import Mathlib.Data.List.Zip
import ObjectLang.Proofs.Calls.Identity
import ObjectLang.Proofs.Typing.Task
set_option autoImplicit false

/-!
# Signatures of resolved calls

The arguments of a call by a mere name are visited twice: to find the function by their types, and
once more behind the check of that function, which may infer return types and bind other calls. The
types that were found first are fixed by then, and equality of types has no direction, so a function
that was found for its parameters also accepts the arguments. This holds wherever a checker comes to
such a call, also if functions that the arguments call are still being checked.
-/

namespace ObjectLang

theorem Registry.equals_comm (r : Registry) (a b : TypeId) : r.equals a b = r.equals b a := by
  have outer : (a == b || a == .object || b == .object) =
      (b == a || b == .object || a == .object) := by
    rw [Bool.or_right_comm, BEq.comm (a := a)]
  rw [r.equals_eq a b, r.equals_eq b a, outer]
  congr 1
  cases get : r.get a with
  | array x =>
    have smaller : x.index < a.index := r.components_get_lt a (by simp [get, Ty.components])
    cases r.get b with
    | array y => exact equals_comm r x y
    | _ => rfl
  | reference x =>
    have smaller : x.index < a.index := r.components_get_lt a (by simp [get, Ty.components])
    cases r.get b with
    | reference y => exact equals_comm r x y
    | _ => rfl
  | _ => cases r.get b <;> rfl
termination_by a.index

namespace Typing

variable {p q : Program} {name : String} {types : List TypeId} {target : FunctionId}

/-- What a call resolves to takes the arguments that it was found for. -/
theorem callType_of_freeTarget {module : Option Module}
    (found : freeTarget module p name types = .ok target) (injected : Bool) :
    callType p target injected types = .ok (p.function target).returnType := by
  obtain ⟨m, -, hfound⟩ := freeTarget_eq_ok.1 found
  have agrees : (p.function target).signature.agrees p.types.equals ⟨none, name, types⟩ = true :=
    (List.find?_some hfound :)
  obtain ⟨-, -, length, equal⟩ := Signature.agrees_iff.1 agrees
  have arity : (p.function target).parameters.length = types.length := by
    rw [← length]
    exact (List.length_map _).symm
  refine callType_eq_ok.2 ⟨arity, checkPairs_eq_ok.2 fun x hx => ?_, rfl⟩
  rw [Registry.equals_comm]
  refine equal x.swap ?_
  have mem := List.mem_of_mem_drop hx
  rw [← List.zip_swap]
  exact List.mem_map_of_mem mem

/-- A call by a mere name goes on with its arguments as the first visit left them. -/
theorem resolve_of_freeTarget {c : Context} {s : State} {arguments : List Expr}
    (noted : Option TypeId) (place : Nat) (injected : Bool)
    (first : (visitAll c (fun _ _ => .ok ()) arguments s).result = .ok types) :
    let v := visitAll c (fun _ _ => .ok ()) arguments s
    freeTarget (c.module? v.state) v.state.program name types = .ok target →
      resolve c (.var name noted place) arguments injected s =
        .bound target (.var name noted place) v.exprs injected v.state
          (Nat.le_trans v.weights_le (Nat.le_add_left _ _)) := by
  intro v found
  have bound :
      v.result.bind (freeTarget (c.module? v.state) v.state.program name) = .ok target := by
    rw [first]
    exact found
  rw [resolve]
  split
  · rename_i other same
    cases bound.symm.trans same
    rfl
  · rename_i fault same
    cases bound.symm.trans same

/-- The first visit of the arguments finds types, and by them the call resolves to a function. That
    is checked on the spot, and whatever this comes to, the second visit of the arguments finds the
    same types, and the signature of the function accepts them. So the call has the return type of
    the function. -/
theorem resolved_call_accepted {modules : List Module} {depth : Nat} {current : FunctionId}
    {noted : Option TypeId} {place line : Nat} {arguments : List Expr} {injected : Bool} {s : State}
    (reached : Reached modules depth current
      (.expression (.call (.var name noted place) arguments none injected line) s)) :
    let c := Context.within modules depth current
    let v := visitAll c (fun _ _ => .ok ()) arguments s
    v.result = .ok types →
    freeTarget (c.module? v.state) v.state.program name types = .ok target →
      let t := c.checkTarget target v.state
      let w := visitAll c (fun _ _ => .ok ()) v.exprs t
      let returnType := (w.state.program.function target).returnType
      target ∈ t.checked ∧ w.result = .ok types ∧
        callType w.state.program target injected types = .ok returnType ∧
        (visit c (.call (.var name noted place) arguments none injected line) s).result =
          .ok returnType := by
  intro c v first found t w returnType
  have hc : c.Trusted modules depth := trusted_checkWithin modules depth current
  obtain ⟨ready, -, rooted, -⟩ := reached.fit
  have visited : v.Fixed modules depth c fun _ _ => .ok () :=
    visitAll_fixed hc arguments (lasting_any _) ready rooted
  obtain ⟨stable, -⟩ := visited.stable types first
  have declared := visited.orderly.declares_free hc found
  obtain ⟨-, checked⟩ := hc.enters target v.state visited.orderly declared
  have keeps : Keeps v.state t := hc.keeping target v.state
  have again : w.Finds v.exprs t types := stable.again (fun _ _ => .ok ()) keeps fun _ _ => rfl
  have accepted : callType w.state.program target injected types = .ok returnType := by
    refine callType_evolves ?_ visited.orderly.tables stable.known
      (callType_of_freeTarget found injected)
    rw [again.state]
    exact keeps.evolves
  refine ⟨checked, again.result, accepted, ?_⟩
  rw [visit, resolve_of_freeTarget noted place injected first found]
  change w.result.bind (callType w.state.program target injected) = .ok returnType
  rw [again.result]
  exact accepted

/-- A function `g` that takes anything, and its return type is inferred. -/
def anyTaker : Function where
  name := "g"
  parameters := [⟨"o", .object, 1⟩]
  body := [.ret (.literal (.int 1) 1) 1]
  module := 0
  line := 1

def selfCall : Expr :=
  .call (.var "g" none 2) [.call (.var "f" none 2) [.var "x" none 2] none false 2] none false 2

def selfCaller : Function where
  name := "f"
  parameters := [⟨"x", .int, 2⟩]
  body := [.declare (.var "y" none 2) selfCall 2, .ret (.literal (.int 1) 2) 2]
  module := 0
  line := 2

def selfCalling : Program := ((({} : Program).addFunction anyTaker).2.addFunction selfCaller).2

def selfCallingModule : Module := ((Module.new "m" 0).addFunction ⟨0⟩).addFunction ⟨1⟩

theorem closed_selfCalling : selfCalling.Closed := by
  have taker : anyTaker.Formed {} := by
    refine ⟨⟨fun x hx => ?_, by decide⟩, trivial, trivial⟩
    rw [List.mem_singleton.1 hx]
    exact ⟨by decide, by decide⟩
  have caller : selfCaller.Formed (({} : Program).addFunction anyTaker).2 := by
    refine ⟨⟨fun x hx => ?_, by decide⟩, ?_⟩
    · rw [List.mem_singleton.1 hx]
      exact ⟨by decide, by decide⟩
    · simp [selfCaller, selfCall, Statement.declare, Statement.FormedAll, Statement.Formed,
        Expr.Formed, Expr.FormedAll]
  exact (Library.closed_initial.addFunction taker).addFunction caller

theorem closed_selfCallingModule : selfCallingModule.Closed selfCalling where
  types := by decide
  functions f hf := by
    have either : f ∈ [⟨0⟩, ⟨1⟩] := hf
    rcases List.mem_cons.1 either with rfl | last
    · exact Nat.zero_lt_two
    · rw [List.mem_singleton.1 last]
      exact Nat.one_lt_two
  body f hf := by cases hf

theorem linked_selfCalling : Linked [selfCallingModule] selfCalling where
  tables := closed_selfCalling.toTables
  visible _ hm := List.mem_singleton.1 hm ▸ closed_selfCallingModule
  bodies id := (closed_selfCalling.bodies id).rooted

/-- While `f` is checked, a call of it has the type `Void`. -/
theorem resolved_call_accepted_selfCall :
    let s := (State.markChecked { program := selfCalling, diagnostics := {} } ⟨1⟩).enter
      selfCallingModule selfCaller
    let c := Context.within [selfCallingModule] 2 ⟨1⟩
    let v := visitAll c (fun _ _ => .ok ())
      [.call (.var "f" none 2) [.var "x" none 2] none false 2] s
    let t := c.checkTarget ⟨0⟩ v.state
    let w := visitAll c (fun _ _ => .ok ()) v.exprs t
    Reached [selfCallingModule] 2 ⟨1⟩ (.expression selfCall s) ∧ v.result = .ok [.void] ∧
      freeTarget (c.module? v.state) v.state.program "g" [.void] = .ok ⟨0⟩ ∧
      ⟨0⟩ ∈ t.checked ∧ w.result = .ok [.void] ∧ (visit c selfCall s).result = .ok .int := by
  intro s c v t w
  have begun : Reached [selfCallingModule] 2 ⟨1⟩
      (.body { program := selfCalling, diagnostics := {} } ⟨1⟩ selfCallingModule) :=
    .asked (.start linked_selfCalling {}) Nat.one_lt_two ⟨nofun, rfl, rfl⟩
  have reached : Reached [selfCallingModule] 2 ⟨1⟩ (.expression selfCall s) :=
    (begun.step (.first _ _ _)).step (.value _ _ _ _ _ _)
  have first : v.result = .ok [.void] := by decide +kernel
  have found : freeTarget (c.module? v.state) v.state.program "g" [.void] = .ok ⟨0⟩ := by
    decide +kernel
  obtain ⟨checked, again, -, result⟩ := resolved_call_accepted reached first found
  have inferred : (w.state.program.function ⟨0⟩).returnType = .int := by decide +kernel
  exact ⟨reached, first, found, checked, again, result.trans (congrArg _ inferred)⟩

end Typing
end ObjectLang
