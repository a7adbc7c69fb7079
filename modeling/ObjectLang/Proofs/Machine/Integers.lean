import ObjectLang.Proofs.Lists.Run
set_option autoImplicit false

/-!
# Integer arithmetic

A tree of integer literals and integer variables under `+`, `-`, `*` and `/` has a value over the
unbounded integers. Its evaluation ends with that value, or with the fault of the first node that
divides by zero or whose value is no word, operands before their operator and from left to right.
-/

namespace ObjectLang

def Word.Fits (i : Int) : Prop := -9223372036854775808 ≤ i ∧ i < 9223372036854775808

instance (i : Int) : Decidable (Word.Fits i) := inferInstanceAs (Decidable (_ ∧ _))

theorem Word.fits_toInt (w : Word) : Fits w.toInt := ⟨w.le_toInt, w.toInt_lt⟩

theorem Word.exists_ofInt? {i : Int} (fits : Fits i) : ∃ w, ofInt? i = some w ∧ w.toInt = i :=
  Machine.ofInt?_of_bounds fits.1 fits.2

theorem Word.ofInt?_of_not_fits {i : Int} (h : ¬ Fits i) : ofInt? i = none := if_neg h

/-- The result of an arithmetic operator over the unbounded integers; division drops the
    remainder, toward zero. -/
def BinaryOperator.exact : BinaryOperator → Int → Int → Int
  | add, a, b => a + b
  | subtract, a, b => a - b
  | multiply, a, b => a * b
  | divide, a, b => a.tdiv b
  | _, _, _ => 0

theorem BinaryOperator.apply_int {op : BinaryOperator} (arithmetic : op.isBoolean = false)
    (a b : Word) :
    op.apply (.int a) (.int b) =
      if op = divide ∧ b.toInt = 0 then .error .divisionByZero
      else Value.exact (Word.ofInt? (op.exact a.toInt b.toInt)) := by
  cases op with
  | add | subtract | multiply => exact (if_neg fun h => nomatch h.1).symm
  | divide =>
    have zero : b = 0 ↔ divide = divide ∧ b.toInt = 0 := by
      rw [and_iff_right rfl, ← Int64.toInt_inj, Int64.toInt_zero]
    exact if_congr zero rfl rfl
  | _ => cases arithmetic

namespace Expr

variable (scopes : Scopes Value)

/-- Integer literals and variables that hold integers, under arithmetic operators. -/
inductive Arithmetic : Expr → Prop
  | literal (w : Word) (line : Nat) : Arithmetic (.literal (.int w) line)
  | var {name : String} {w : Word} (bound : scopes.get? name = some (.int w))
      (type : Option TypeId) (line : Nat) : Arithmetic (.var name type line)
  | binary {op : BinaryOperator} {lhs rhs : Expr} (arithmetic : op.isBoolean = false)
      (left : Arithmetic lhs) (right : Arithmetic rhs) (line : Nat) :
      Arithmetic (.binary op lhs rhs line)

def exact : Expr → Int
  | .literal (.int w) _ => w.toInt
  | .var name _ _ =>
    match scopes.get? name with
    | some (.int w) => w.toInt
    | _ => 0
  | .binary op lhs rhs _ => op.exact (exact lhs) (exact rhs)
  | _ => 0

/-- The subtrees in the order of their evaluation: operands from left to right, then their
    operator. -/
def subtrees : Expr → List Expr
  | .binary op lhs rhs line => subtrees lhs ++ subtrees rhs ++ [.binary op lhs rhs line]
  | e => [e]

def DividesByZero : Expr → Prop
  | .binary op _ rhs _ => op = .divide ∧ rhs.exact scopes = 0
  | _ => False

instance (e : Expr) : Decidable (e.DividesByZero scopes) := by
  cases e <;> unfold DividesByZero <;> infer_instance

def Representable (e : Expr) : Prop := ¬ e.DividesByZero scopes ∧ Word.Fits (e.exact scopes)

instance (e : Expr) : Decidable (e.Representable scopes) := inferInstanceAs (Decidable (_ ∧ _))

def failure (e : Expr) : Fault.Cause :=
  if e.DividesByZero scopes then .divisionByZero else .overflow

def firstFailing? (e : Expr) : Option Expr :=
  e.subtrees.find? fun t => !decide (t.Representable scopes)

variable {scopes}

theorem exact_var {name : String} {w : Word} (bound : scopes.get? name = some (.int w))
    (type : Option TypeId) (line : Nat) : (Expr.var name type line).exact scopes = w.toInt := by
  rw [exact, bound]

theorem Arithmetic.of_mem_subtrees {e t : Expr} (h : e.Arithmetic scopes) (ht : t ∈ e.subtrees) :
    t.Arithmetic scopes := by
  induction h with
  | literal w line =>
    rw [List.mem_singleton.mp ht]
    exact .literal w line
  | var bound type line =>
    rw [List.mem_singleton.mp ht]
    exact .var bound type line
  | binary arithmetic left right line ihl ihr =>
    rcases List.mem_append.mp ht with ht | ht
    · exact (List.mem_append.mp ht).elim ihl ihr
    · rw [List.mem_singleton.mp ht]
      exact .binary arithmetic left right line

theorem firstFailing?_eq_none_iff {e : Expr} :
    e.firstFailing? scopes = none ↔ ∀ t ∈ e.subtrees, t.Representable scopes := by
  simp only [firstFailing?, List.find?_eq_none, Bool.not_eq_true', decide_eq_false_iff_not,
    Classical.not_not]

theorem firstFailing?_eq_some_iff {e t : Expr} :
    e.firstFailing? scopes = some t ↔ ¬ t.Representable scopes ∧
      ∃ before after, e.subtrees = before ++ t :: after ∧
        ∀ u ∈ before, u.Representable scopes := by
  simp only [firstFailing?, List.find?_eq_some_iff_append, Bool.not_eq_true', decide_eq_false_iff_not,
    Bool.not_not, decide_eq_true_eq]

theorem firstFailing?_literal (w : Word) (line : Nat) :
    (Expr.literal (.int w) line).firstFailing? scopes = none :=
  firstFailing?_eq_none_iff.mpr <| List.forall_mem_singleton.mpr ⟨id, w.fits_toInt⟩

theorem firstFailing?_var {name : String} {w : Word} (bound : scopes.get? name = some (.int w))
    (type : Option TypeId) (line : Nat) :
    (Expr.var name type line).firstFailing? scopes = none := by
  refine firstFailing?_eq_none_iff.mpr <| List.forall_mem_singleton.mpr ⟨id, ?_⟩
  rw [exact_var bound]
  exact w.fits_toInt

/-- An operator comes after all of its operands. -/
theorem firstFailing?_binary (op : BinaryOperator) (lhs rhs : Expr) (line : Nat) :
    (Expr.binary op lhs rhs line).firstFailing? scopes =
      ((lhs.firstFailing? scopes).or (rhs.firstFailing? scopes)).or
        (if (Expr.binary op lhs rhs line).Representable scopes then none
          else some (.binary op lhs rhs line)) := by
  rw [firstFailing?, subtrees, List.find?_append, List.find?_append, List.find?_singleton]
  by_cases h : (Expr.binary op lhs rhs line).Representable scopes
  · simp only [h, decide_true, Bool.not_true, if_true, firstFailing?]; rfl
  · simp only [h, decide_false, Bool.not_false, if_true, if_false, firstFailing?]

end Expr

namespace Machine

open Eval

variable {c : Context} {s : State} {e : Expr}

theorem apply_representable {op : BinaryOperator} (arithmetic : op.isBoolean = false)
    {lhs rhs : Expr} {a b : Word} (left : a.toInt = lhs.exact s.scopes)
    (right : b.toInt = rhs.exact s.scopes) {line : Nat}
    (h : (Expr.binary op lhs rhs line).Representable s.scopes) :
    ∃ w : Word, w.toInt = (Expr.binary op lhs rhs line).exact s.scopes ∧
      op.apply (.int a) (.int b) = .ok (.int w) := by
  obtain ⟨w, made, hw⟩ := Word.exists_ofInt? h.2
  have nonzero : ¬ (op = .divide ∧ b.toInt = 0) := by
    rw [right]
    exact h.1
  refine ⟨w, hw, ?_⟩
  rw [BinaryOperator.apply_int arithmetic, if_neg nonzero, left, right]
  exact congrArg Value.exact made

theorem apply_failing {op : BinaryOperator} (arithmetic : op.isBoolean = false)
    {lhs rhs : Expr} {a b : Word} (left : a.toInt = lhs.exact s.scopes)
    (right : b.toInt = rhs.exact s.scopes) {line : Nat}
    (h : ¬ (Expr.binary op lhs rhs line).Representable s.scopes) :
    op.apply (.int a) (.int b) = .error ((Expr.binary op lhs rhs line).failure s.scopes) := by
  rw [BinaryOperator.apply_int arithmetic, left, right]
  by_cases zero : (Expr.binary op lhs rhs line).DividesByZero s.scopes
  · rw [Expr.failure, if_pos zero]
    exact if_pos zero
  · have misses : ¬ Word.Fits ((Expr.binary op lhs rhs line).exact s.scopes) :=
      fun fits => h ⟨zero, fits⟩
    rw [Expr.failure, if_neg zero]
    exact (if_neg zero).trans (congrArg Value.exact (Word.ofInt?_of_not_fits misses))

theorem eval_of_firstFailing?_eq_none (h : e.Arithmetic s.scopes)
    (none : e.firstFailing? s.scopes = none) :
    ∃ w : Word, w.toInt = e.exact s.scopes ∧ eval c e s = .done (.int w) s := by
  induction h with
  | literal w line => exact ⟨w, rfl, rfl⟩
  | @var name w bound type line =>
    refine ⟨w, (Expr.exact_var bound type line).symm, ?_⟩
    rw [eval, readVar, bind_done (rfl : Eval.read _ s = .done (s.scopes.get? name) s), bound]
    rfl
  | @binary op lhs rhs arithmetic left right line ihl ihr =>
    rw [Expr.firstFailing?_binary, Option.or_eq_none_iff, Option.or_eq_none_iff,
      ite_eq_left_iff] at none
    obtain ⟨⟨first, second⟩, self⟩ := none
    obtain ⟨a, ha, doneLeft⟩ := ihl first
    obtain ⟨b, hb, doneRight⟩ := ihr second
    have representable : (Expr.binary op lhs rhs line).Representable s.scopes :=
      Classical.not_not.mp fun h => Option.some_ne_none _ (self h)
    obtain ⟨w, hw, applied⟩ := apply_representable arithmetic ha hb representable
    refine ⟨w, hw, ?_⟩
    rw [eval, bind_done doneLeft, bind_done doneRight]
    exact ofExcept_ok applied

theorem eval_of_firstFailing?_eq_some (h : e.Arithmetic s.scopes) {t : Expr}
    (first : e.firstFailing? s.scopes = some t) :
    eval c e s = .fault (.at t.line (t.failure s.scopes)) s := by
  induction h with
  | literal w line =>
    cases (Expr.firstFailing?_literal w line).symm.trans first
  | var bound type line =>
    cases (Expr.firstFailing?_var bound type line).symm.trans first
  | @binary op lhs rhs arithmetic left right line ihl ihr =>
    rw [Expr.firstFailing?_binary] at first
    rw [eval]
    cases hl : lhs.firstFailing? s.scopes with
    | some u =>
      rw [hl] at first
      exact bind_fault (ihl (hl.trans first)) _
    | none =>
      obtain ⟨a, ha, doneLeft⟩ := eval_of_firstFailing?_eq_none (c := c) left hl
      rw [bind_done doneLeft]
      cases hr : rhs.firstFailing? s.scopes with
      | some u =>
        rw [hl, hr] at first
        exact bind_fault (ihr (hr.trans first)) _
      | none =>
        obtain ⟨b, hb, doneRight⟩ := eval_of_firstFailing?_eq_none (c := c) right hr
        rw [bind_done doneRight]
        rw [hl, hr, Option.or_none, Option.none_or, Option.ite_none_left_eq_some] at first
        obtain ⟨fails, self⟩ := first
        rw [← Option.some.inj self, apply_failing arithmetic ha hb fails]
        rfl

/-- Integer arithmetic is exact or fails. A tree ends with its value over the unbounded integers if
    no subtree divides by zero and the values of all are words; otherwise it ends with the fault of
    the first subtree in the way. No value that a subtree ends with is another one than its exact
    value, and the state is never changed. -/
theorem eval_arithmetic (c : Context) (s : State) {e : Expr} (h : e.Arithmetic s.scopes) :
    ((∀ t ∈ e.subtrees, ¬ t.DividesByZero s.scopes ∧ Word.Fits (t.exact s.scopes)) →
      ∃ w : Word, eval c e s = .done (.int w) s ∧ w.toInt = e.exact s.scopes) ∧
    (∀ before t after, e.subtrees = before ++ t :: after →
      (∀ u ∈ before, ¬ u.DividesByZero s.scopes ∧ Word.Fits (u.exact s.scopes)) →
      (t.DividesByZero s.scopes →
        eval c e s = .fault (.at t.line .divisionByZero) s) ∧
      (¬ t.DividesByZero s.scopes → ¬ Word.Fits (t.exact s.scopes) →
        eval c e s = .fault (.at t.line .overflow) s)) ∧
    ∀ t ∈ e.subtrees, ∀ v u, eval c t s = .done v u →
      u = s ∧ ∃ w : Word, v = .int w ∧ w.toInt = t.exact s.scopes ∧ Word.Fits w.toInt := by
  refine ⟨fun all => ?_, fun before t after split fine => ⟨fun zero => ?_, fun zero misses => ?_⟩,
    fun t ht v u done => ?_⟩
  · obtain ⟨w, hw, done⟩ := eval_of_firstFailing?_eq_none (c := c) h
      (Expr.firstFailing?_eq_none_iff.mpr all)
    exact ⟨w, done, hw⟩
  · have first : e.firstFailing? s.scopes = some t :=
      Expr.firstFailing?_eq_some_iff.mpr ⟨fun h => h.1 zero, before, after, split, fine⟩
    rw [eval_of_firstFailing?_eq_some h first, Expr.failure, if_pos zero]
  · have first : e.firstFailing? s.scopes = some t :=
      Expr.firstFailing?_eq_some_iff.mpr ⟨fun h => misses h.2, before, after, split, fine⟩
    rw [eval_of_firstFailing?_eq_some h first, Expr.failure, if_neg zero]
  · have arithmetic : t.Arithmetic s.scopes := h.of_mem_subtrees ht
    cases first : t.firstFailing? s.scopes with
    | none =>
      obtain ⟨w, hw, ends⟩ := eval_of_firstFailing?_eq_none (c := c) arithmetic first
      obtain ⟨rfl, rfl⟩ := Outcome.done.inj (ends.symm.trans done)
      exact ⟨rfl, w, rfl, hw, Word.fits_toInt w⟩
    | some fails =>
      cases (eval_of_firstFailing?_eq_some arithmetic first).symm.trans done

/-- With `-7` for `x`, `x / 2` is `-3`; the least integer over `-1` is out of range, in front of a
    division by zero that is not reached. -/
theorem eval_arithmetic_case :
    let c : Context := { program := {}, call := fun _ _ _ => exhausted, rounds := 0 }
    let s : State := { scopes := Scopes.empty.push "x" (.int (-7)) }
    let half : Expr := .binary .divide (.var "x" none 1) (.literal (.int 2) 1) 1
    let least : Expr :=
      .binary .divide (.literal (.int (-9223372036854775808)) 2) (.literal (.int (-1)) 2) 2
    let zero : Expr := .binary .divide half (.literal (.int 0) 3) 3
    (∃ w : Word, eval c half s = .done (.int w) s ∧ w.toInt = -3) ∧
      eval c (.binary .add least zero 1) s = .fault (.at 2 .overflow) s := by
  intro c s half least zero
  have bound : s.scopes.get? "x" = some (.int (-7)) := Scopes.get?_push_self _ _ _
  have halves : half.Arithmetic s.scopes := .binary rfl (.var bound none 1) (.literal 2 1) 1
  have sum : (Expr.binary .add least zero 1).Arithmetic s.scopes :=
    .binary rfl (.binary rfl (.literal _ 2) (.literal _ 2) 2) (.binary rfl halves (.literal 0 3) 3) 1
  constructor
  · obtain ⟨w, done, hw⟩ := (eval_arithmetic c s halves).1 (by decide)
    exact ⟨w, done, hw.trans (by decide)⟩
  · exact ((eval_arithmetic c s sum).2.1 (least.subtrees.take 2) least
      (zero.subtrees ++ [.binary .add least zero 1]) rfl (by decide)).2 (by decide) (by decide)

end Machine
end ObjectLang
