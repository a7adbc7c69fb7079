import ObjectLang.Diagnostics
import ObjectLang.Scopes
import ObjectLang.Typing.Rule
set_option autoImplicit false

/-!
# Visits

A visit of a tree gives back the tree with what was found out noted on it, the state after the visit
and a type or an error. It may bind a call and put the receiver in front of its arguments, and bound
calls are visited again. No visit makes a tree heavier, which is why that comes to an end.
-/

namespace ObjectLang

mutual

/-- The size of what is visited. The callee of a bound call is not visited again. -/
def Expr.weight : Expr → Nat
  | .binary _ lhs rhs _ => lhs.weight + rhs.weight + 1
  | .literal .. | .var .. | .new .. => 1
  | .field base _ _ _ => base.weight + 1
  | .allocate _ size _ => size.weight + 1
  | .array _ items _ => Expr.weights items + 1
  | .index base place _ => base.weight + place.weight + 1
  | .reference expr _ => expr.weight + 1
  | .cast expr _ _ => expr.weight + 1
  | .call callee arguments none _ _ => callee.weight + Expr.weights arguments + 1
  | .call _ arguments (some _) _ _ => Expr.weights arguments + 1

def Expr.weights : List Expr → Nat
  | [] => 0
  | e :: rest => e.weight + Expr.weights rest

end

theorem Expr.weight_pos (e : Expr) : 0 < e.weight := by
  unfold weight
  split <;> omega

namespace Typing

inductive Meaning
  | value (type : TypeId)
  /-- An object type, usable only as the receiver of a static call. -/
  | type (type : TypeId)
  deriving DecidableEq, Repr

structure State where
  program : Program
  diagnostics : Diagnostics
  scopes : Scopes Meaning := .empty
  /-- The functions that have been checked or are being checked. -/
  checked : List FunctionId := []
  deriving Inhabited

namespace State

def record (s : State) (line : Nat) (e : TypeError) : State :=
  { s with diagnostics := s.diagnostics.errorAt line e.message }

def openScope (s : State) (seed : List (String × Meaning)) : State :=
  { s with scopes := s.scopes.openSegment seed }

def closeScope (s : State) : State := { s with scopes := s.scopes.closeSegment }

end State

/-- What stays the same while one function is checked. -/
structure Context where
  modules : List Module
  current : FunctionId
  /-- Checks a function before its return type is used. -/
  checkTarget : FunctionId → State → State

def Context.module? (c : Context) (s : State) : Option Module :=
  c.modules[(s.program.function c.current).module]?

/-- A visited expression, of weight at most `n`. -/
structure Visited (n : Nat) where
  expr : Expr
  weight_le : expr.weight ≤ n
  state : State
  result : Except TypeError TypeId

namespace Visited

variable {n : Nat}

def leaf (e : Expr) (s : State) (result : Except TypeError TypeId) : Visited e.weight :=
  ⟨e, Nat.le_refl _, s, result⟩

def judge (v : Visited n) (rule : Program → TypeId → Except TypeError TypeId) : Visited n :=
  { v with result := v.result.bind (rule v.state.program) }

def next (v : Visited n) {e : Expr} (visit : State → Visited e.weight) : Visited e.weight :=
  match v.result with
  | .ok _ => visit v.state
  | .error fault => leaf e v.state (.error fault)

end Visited

/-- Visited expressions, of weight at most `n` together. After an error the rest is not visited. -/
structure VisitedList (n : Nat) where
  exprs : List Expr
  weights_le : Expr.weights exprs ≤ n
  state : State
  result : Except TypeError (List TypeId)

inductive Resolved (n : Nat)
  | bound (target : FunctionId) (callee : Expr) (arguments : List Expr) (injected : Bool)
      (state : State) (le : Expr.weights arguments ≤ n)
  | failed (e : TypeError) (callee : Expr) (arguments : List Expr) (state : State)
      (le : callee.weight + Expr.weights arguments ≤ n)

end Typing
end ObjectLang
