import ObjectLang.Grammar.Expression
set_option autoImplicit false

/-!
# Statements

    statement  := assignment ";" | "ret" expression ";" | call ";" | if | while | for | block
    assignment := ("let" identifier | place) (":" type)? "=" expression
    if         := "if" expression ":" statement ("else" ":" statement)?
    while      := "while" expression ":" statement
    for        := "for" assignment ";" expression ";" place "=" expression ":" statement
    block      := "{" statement* "}"

A statement that cannot be read is recorded and skipped, and reading goes on behind it, so that one
run finds every broken statement.
-/

namespace ObjectLang.Grammar

/-- The texts of tokens up to where a statement may begin, the semicolon in front of it included. -/
def rejected (s : State) : Step (List String) s.size :=
  match s.take? with
  | none => .pure [] s
  | some k =>
    have _ := k.lt
    if k.token.kind = .endOfFile ∨ k.token.kind.startsStatement then .pure [] s
    else if k.token.kind = .semicolon then (Step.pure [] k.behind).widen k.le
    else ((rejected k.behind).map fun rest => k.token.text :: rest).widen k.le
termination_by s.size

/-- Skips the token just taken, which cannot begin a statement, and those up to the next
    statement. -/
def invalidStatement {s : State} (k : Taken s) : Step Statement k.behind.size :=
  let failWith (texts : List String) (t : State) (le : t.size ≤ k.behind.size) :
      Step Statement k.behind.size :=
    .error ⟨.invalidStatement (" ".intercalate texts), k.token.line⟩ t le
  if k.token.kind = .semicolon then failWith [] k.behind (Nat.le_refl _)
  else
    match rejected k.behind with
    | .ok texts t le => failWith (k.token.text :: texts) t le
    | .error _ t le => failWith [k.token.text] t le

def assignmentRest (declares : Bool) (target : Expr) (s : State) : Step Statement s.size :=
  (s.accept .colon).andThen fun typed t _ =>
    (if typed then (typeName t).map some else .pure none t).andThen fun written u _ =>
      (u.expect .equals).andThen fun _ v _ =>
        (expression v).map fun value => .assign declares target written value target.line

def assignmentOrCall (name : Token) (s : State) : Step Statement s.size :=
  (suffixes false (.var name.text none name.line) s).andThen fun target t _ =>
    if t.cursor.check .equals then
      if target.isPlace then
        (assignmentRest false target t).andThen fun assignment u _ =>
          (u.semicolon "assignment").map fun _ => assignment
      else .fail ⟨.invalidAssignmentTarget, name.line⟩ t
    else
      match target with
      | .call callee arguments bound injected line =>
        (t.semicolon "function call").map fun _ => .call callee arguments bound injected line
      | _ => .fail ⟨.missingAssignment, name.line⟩ t

def condition (s : State) : Step Expr s.size :=
  (expression s).andThen fun e t _ => (t.expect .colon).map fun _ => e

def loopStep (s : State) : Step Statement s.size :=
  (s.expect .identifier).andThen fun name t _ =>
    (suffixes false (.var name.text none name.line) t).andThen fun target u _ =>
      if target.isPlace then
        (assignmentRest false target u).andThen fun step v _ =>
          (v.expect .colon).map fun _ => step
      else .fail ⟨.invalidAssignmentTarget, name.line⟩ u

mutual

def statements (s : State) : Step (List Statement) s.size :=
  match s.take? with
  | none => .pure [] s
  | some k =>
    have _ := k.lt
    if k.token.kind = .endOfFile then .pure [] s
    else
      match statementAt k with
      | .ok statement t le =>
        ((statements t).map fun rest => statement :: rest).widen (Nat.le_trans le k.le)
      | .error e t le =>
        have lt := State.size_record_lt k e le
        have lt_recover := State.size_recover_lt k e le
        if e.isEndOfTokens then .ok [] (t.record e) (Nat.le_of_lt lt)
        else if e.hasRecovered then (statements (t.record e)).widen (Nat.le_of_lt lt)
        else (statements (t.record e).recover).widen (Nat.le_of_lt lt_recover)
termination_by 8 * s.size + 1

def statement (s : State) : Step Statement s.size :=
  match s.take? with
  | none => .fail s.endError s
  | some k =>
    have _ := k.lt
    if k.token.kind = .endOfFile then .fail ⟨.invalidStatement "", k.token.line⟩ s
    else (statementAt k).widen k.le
termination_by 8 * s.size

def statementAt {s : State} (k : Taken s) : Step Statement k.behind.size :=
  let line := k.token.line
  match k.token.kind with
  | .retWord =>
    (expression k.behind).andThen fun value t _ =>
      (t.semicolon "return").map fun _ => .ret value line
  | .letWord =>
    (k.behind.expect .identifier).andThen fun name t _ =>
      (assignmentRest true (.var name.text none name.line) t).andThen fun assignment u _ =>
        (u.semicolon "assignment").map fun _ => assignment
  | .identifier => assignmentOrCall k.token k.behind
  | .ifWord =>
    (condition k.behind).andThen fun test t _ =>
      (statement t).andThen fun body u _ =>
        (u.accept .elseWord).andThen fun hasElse v _ =>
          if hasElse then
            (v.expect .colon).andThen fun _ w _ =>
              (statement w).map fun otherwise => .ifElse test body otherwise line
          else .pure (.ifThen test body line) v
  | .whileWord =>
    (condition k.behind).andThen fun test t _ =>
      (statement t).map fun body => .whileLoop test body line
  | .forWord =>
    (statement k.behind).andThen fun first t _ =>
      if first.isAssignment then
        (expression t).andThen fun test u _ =>
          (u.expect .semicolon).andThen fun _ v _ =>
            (loopStep v).andThen fun step w _ =>
              (statement w).map fun body => .forLoop first test step body line
      else .fail ⟨.invalidForInitializer, line⟩ t
  | .braceOpen =>
    (k.inside .braceClose fun t _ => statements t).map fun body => .block body line
  | _ => invalidStatement k
termination_by 8 * k.behind.size + 2

end

def block (s : State) : Step (List Statement) s.size :=
  s.bracketed .braceOpen .braceClose fun t _ => statements t

end ObjectLang.Grammar
