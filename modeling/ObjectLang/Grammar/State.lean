import ObjectLang.Diagnostics
import ObjectLang.Module
import ObjectLang.Program.List
import ObjectLang.Token.Bracketed
set_option autoImplicit false

/-!
# Reading state

What changes while a file is read, and steps that change it. A step ends with a value or with an
error and in either case with a state; its type bounds the tokens that are left then, so functions
that read in steps come to an end.
-/

namespace ObjectLang.Grammar

structure State where
  cursor : Cursor
  program : Program
  diagnostics : Diagnostics
  module : Module
  /-- The marker for the next function. -/
  pending : Option Marker := none
  /-- The cursors behind the brackets that are being read, the innermost first. -/
  outer : List Cursor := []
  deriving Inhabited

namespace State

def size (s : State) : Nat := s.cursor.size

def peek (s : State) : Option TokenKind := s.cursor.peek

def record (s : State) (e : SyntaxError) : State :=
  { s with diagnostics := s.diagnostics.errorAt e.line e.message }

theorem size_record (s : State) (e : SyntaxError) : (s.record e).size = s.size := rfl

def endError (s : State) : SyntaxError := s.cursor.endError

def enter (s : State) (inner behind : Cursor) : State :=
  { s with cursor := inner, outer := behind :: s.outer }

/-- Back behind the brackets that `s` stood in front of. What is left inside is dropped. -/
def leave (t s : State) (behind : Cursor) : State := { t with cursor := behind, outer := s.outer }

end State

structure Taken (s : State) where
  token : Token
  behind : State
  tokens_eq : s.cursor.tokens = token :: behind.cursor.tokens

namespace Taken

variable {s : State}

theorem size_eq (k : Taken s) : s.size = k.behind.size + 1 := by
  simp [State.size, Cursor.size, k.tokens_eq]

theorem lt (k : Taken s) : k.behind.size < s.size := by
  have := k.size_eq
  omega

theorem le (k : Taken s) : k.behind.size ≤ s.size := Nat.le_of_lt k.lt

theorem lt_of_le (k : Taken s) {t : State} (h : t.size ≤ k.behind.size) : t.size < s.size :=
  Nat.lt_of_le_of_lt h k.lt

end Taken

def State.take? (s : State) : Option (Taken s) :=
  match h : s.cursor.tokens with
  | [] => none
  | token :: rest =>
    some ⟨token, { s with cursor := { s.cursor with tokens := rest, line := token.line } }, h⟩

/-- The outcome of a step, with at most `n` tokens left. -/
inductive Step (α : Type) (n : Nat)
  | ok (value : α) (state : State) (le : state.size ≤ n)
  | error (e : SyntaxError) (state : State) (le : state.size ≤ n)

namespace Step

variable {α β : Type} {n m : Nat}

def pure (value : α) (s : State) : Step α s.size := .ok value s (Nat.le_refl _)

def fail (e : SyntaxError) (s : State) : Step α s.size := .error e s (Nat.le_refl _)

def ofPair (x : α × State) (h : x.2.size = n) : Step α n := .ok x.1 x.2 (Nat.le_of_eq h)

def ofExcept (result : Except SyntaxError α) (s : State) : Step α s.size :=
  match result with
  | .ok value => pure value s
  | .error e => fail e s

def state : Step α n → State
  | ok _ s _ => s
  | error _ s _ => s

def result : Step α n → Except SyntaxError α
  | ok value _ _ => .ok value
  | error e _ _ => .error e

theorem size_state_le (x : Step α n) : x.state.size ≤ n := by
  cases x <;> assumption

def widen (h : n ≤ m) : Step α n → Step α m
  | ok value s le => ok value s (Nat.le_trans le h)
  | error e s le => error e s (Nat.le_trans le h)

def map (f : α → β) : Step α n → Step β n
  | ok value s le => ok (f value) s le
  | error e s le => error e s le

def mapError (f : SyntaxError → SyntaxError) : Step α n → Step α n
  | ok value s le => ok value s le
  | error e s le => error (f e) s le

/-- Goes on from where a step ended, unless it ended with an error. -/
def andThen (x : Step α n) (f : α → (s : State) → s.size ≤ n → Step β s.size) : Step β n :=
  match x with
  | ok value s le => (f value s le).widen le
  | error e s le => error e s le

theorem state_widen (h : n ≤ m) (x : Step α n) : (x.widen h).state = x.state := by
  cases x <;> rfl

theorem state_map (f : α → β) (x : Step α n) : (x.map f).state = x.state := by
  cases x <;> rfl

theorem result_widen (h : n ≤ m) (x : Step α n) : (x.widen h).result = x.result := by
  cases x <;> rfl

end Step

namespace State

def next (s : State) : Step Token s.size :=
  match s.take? with
  | none => .fail s.endError s
  | some k => (Step.pure k.token k.behind).widen k.le

def expect (s : State) (kind : TokenKind) : Step Token s.size :=
  s.next.andThen fun t u _ => .ofExcept (Cursor.demand kind t) u

def accept (s : State) (kind : TokenKind) : Step Bool s.size :=
  .ok (s.cursor.advanceIf kind).1 { s with cursor := (s.cursor.advanceIf kind).2 }
    (s.cursor.size_advanceIf_le kind)

def semicolon (s : State) (construct : String) : Step Unit s.size :=
  (s.accept .semicolon).andThen fun found t _ =>
    if found then .pure () t
    else .ok () (t.record ⟨.missingSemicolon construct, t.cursor.line⟩) (Nat.le_refl _)

/-- Skips the rest of a broken statement with its semicolon. -/
def recover (s : State) : State :=
  { s with
    cursor := ((s.cursor.skipUntil [.semicolon, .braceClose]).advanceIf .semicolon).2 }

theorem size_recover_le (s : State) : s.recover.size ≤ s.size :=
  Nat.le_trans (Cursor.size_advanceIf_le _ _) (Cursor.size_skipUntil_le _ _)

theorem size_record_lt {s : State} (k : Taken s) (e : SyntaxError) {t : State}
    (h : t.size ≤ k.behind.size) : (t.record e).size < s.size := k.lt_of_le h

theorem size_recover_lt {s : State} (k : Taken s) (e : SyntaxError) {t : State}
    (h : t.size ≤ k.behind.size) : (t.record e).recover.size < s.size :=
  Nat.lt_of_le_of_lt (size_recover_le _) (size_record_lt k e h)

end State

/-- Reads the tokens between the bracket just taken and the one that balances it, and goes on
    behind that. What is left inside is dropped. -/
def Taken.inside {α : Type} {s : State} (k : Taken s) (closing : TokenKind)
    (read : (t : State) → t.size ≤ k.behind.size → Step α t.size) : Step α k.behind.size :=
  let cut := s.cursor.cutInside k.token.kind closing
  have bounds := Cursor.size_cutInside k.tokens_eq closing
  match h : cut.1 with
  | .error e => .error e { s with cursor := cut.2 } bounds.1
  | .ok inner =>
    match read (s.enter inner cut.2) (bounds.2 inner h) with
    | .ok value t _ => .ok value (t.leave s cut.2) bounds.1
    | .error e t _ => .error e (t.leave s cut.2) bounds.1

def State.bracketed {α : Type} (s : State) (opening closing : TokenKind)
    (read : (t : State) → t.size < s.size → Step α t.size) : Step α s.size :=
  match s.take? with
  | none => .fail s.endError s
  | some k =>
    if k.token.kind = opening then
      (k.inside closing fun t le => read t (k.lt_of_le le)).widen k.le
    else .fail ⟨.unexpectedToken k.token.describe opening.describe, k.token.line⟩ s

end ObjectLang.Grammar
