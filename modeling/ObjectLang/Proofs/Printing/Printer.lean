import ObjectLang.Decimal.Positional
import ObjectLang.Proofs.Printing.TypeName
import ObjectLang.Syntax.Statement
import ObjectLang.Text.Quoted
set_option autoImplicit false

/-!
# Printing statements

Trees as the tokens that they read from. Parentheses stand around operations and references in front
of an operator or a suffix, and nowhere else; braces stand around blocks only. Every token has the
line of the node that it reads into.
-/

namespace ObjectLang

def Text.quote (text : String) : String :=
  String.ofList ('"' :: (text.toList.flatMap fun c =>
    if c = '\\' ∨ c = '"' then ['\\', c] else [c]) ++ ['"'])

def Literal.token (value : Literal) (line : Nat) : Token :=
  match value with
  | .int value => ⟨.integer, String.ofList (Nat.toDigits 10 value.toInt.toNat), line⟩
  | .float value => ⟨.rational, Decimal.floatText value, line⟩
  | .bool value => ⟨.boolean, if value then "True" else "False", line⟩
  | .char text => ⟨.string, Text.quote text, line⟩
  | .none => .fixed .noneWord line

def BinaryOperator.kind : BinaryOperator → TokenKind
  | add => .plus
  | subtract => .minus
  | multiply => .times
  | divide => .divide
  | equal => .same
  | notEqual => .different
  | less => .less
  | lessEqual => .lessEqual
  | greater => .greater
  | greaterEqual => .greaterEqual
  | and => .andWord
  | or => .orWord

namespace Expr

/-- Operations and references go on as far as they can, so they are enclosed in front of an operator
    or a suffix. -/
def isOpen : Expr → Bool
  | binary .. | reference .. => true
  | _ => false

def enclose (e : Expr) (tokens : List Token) : List Token :=
  if e.isOpen then .fixed .parenOpen 0 :: (tokens ++ [.fixed .parenClose 0]) else tokens

mutual

def tokens (d : Draft) (e : Expr) : List Token :=
  match e with
  | .binary op lhs rhs line => lhs.enclose (lhs.tokens d) ++ .fixed op.kind line :: rhs.tokens d
  | .literal value line => [value.token line]
  | .var name _ line => [.name name line]
  | .field base name _ line => base.enclose (base.tokens d) ++ [.fixed .dot line, .name name line]
  | .array _ items line => .fixed .less line :: (allTokens d items ++ [.fixed .greater line])
  | .index base place line =>
    base.enclose (base.tokens d) ++
      .fixed .bracketOpen line :: (place.tokens d ++ [.fixed .bracketClose line])
  | .reference expr line => .fixed .ampersand line :: expr.tokens d
  | .cast expr type line =>
    expr.enclose (expr.tokens d) ++ .fixed .asWord line :: d.typeTokens type
  -- a list stands for a call of the constructor of its type
  | .call (.field (.var _ (some _) _) _ _ _) arguments _ _ line =>
    .fixed .bracketOpen line :: (itemTokens d arguments ++ [.fixed .bracketClose line])
  | .call callee arguments _ _ line =>
    callee.tokens d ++
      .fixed .parenOpen line :: (allTokens d arguments ++ [.fixed .parenClose line])
  | .new .. | .allocate .. => []
termination_by structural e

def allTokens (d : Draft) (es : List Expr) : List Token :=
  match es with
  | [] => []
  | e :: rest =>
    e.tokens d ++ if rest.isEmpty then [] else .fixed .comma 0 :: allTokens d rest
termination_by structural es

def itemTokens (d : Draft) (arguments : List Expr) : List Token :=
  match arguments with
  | .array _ items _ :: _ => allTokens d items
  | _ => []
termination_by structural arguments

end

/-- The callee of the constructor of a list type that was not written out. -/
def isListName : Expr → Bool
  | .field (.var _ (some _) _) _ _ _ => true
  | _ => false

section Tokens

variable {d : Draft} {callee : Expr} {arguments : List Expr} {target : Option FunctionId}
  {injected : Bool} {line : Nat}

theorem tokens_list (h : callee.isListName = true) :
    (call callee arguments target injected line).tokens d =
      .fixed .bracketOpen line :: (itemTokens d arguments ++ [.fixed .bracketClose line]) := by
  unfold isListName at h
  split at h
  · rfl
  · cases h

theorem tokens_call (h : callee.isListName = false) :
    (call callee arguments target injected line).tokens d = callee.tokens d ++
      .fixed .parenOpen line :: (allTokens d arguments ++ [.fixed .parenClose line]) := by
  rw [tokens.eq_def]
  split <;> rename_i same <;> cases same
  · cases h
  · rfl

theorem nested_enclose {e : Expr} {ts : List Token} (h : Nested ts) : Nested (e.enclose ts) := by
  rw [enclose]
  split
  · exact .bracketed rfl h
  · exact h

theorem nested_literal (value : Literal) (line : Nat) : Nested [value.token line] := by
  cases value <;> exact .single rfl

theorem nested_typeTokens (type : TypeId) : Nested (d.typeTokens type) := by
  rw [Draft.typeTokens]
  cases spelled : d.typeTokens? type with
  | none => exact .nil
  | some tokens => exact (Draft.spells_of_typeTokens? spelled).nested

end Tokens

section Nested

variable (d : Draft)

mutual

theorem nested_tokens (e : Expr) : Nested (e.tokens d) := by
  cases e with
  | binary op lhs rhs line =>
    have plain : (Token.fixed op.kind line).kind.isPlain = true := by cases op <;> rfl
    exact (nested_enclose (nested_tokens lhs)).append (.plain plain (nested_tokens rhs))
  | literal value line => exact nested_literal value line
  | var name type line => exact .single rfl
  | field base name type line =>
    exact (nested_enclose (nested_tokens base)).append (.plain rfl (.single rfl))
  | new type line => exact .nil
  | allocate element size line => exact .nil
  | array element items line => exact .plain rfl ((nested_allTokens items).append (.single rfl))
  | index base place line =>
    exact (nested_enclose (nested_tokens base)).append (.bracketed rfl (nested_tokens place))
  | reference expr line => exact .plain rfl (nested_tokens expr)
  | cast expr type line =>
    exact (nested_enclose (nested_tokens expr)).append (.plain rfl (nested_typeTokens type))
  | call callee arguments target injected line =>
    cases listed : callee.isListName with
    | true =>
      rw [tokens_list listed]
      exact .bracketed rfl (nested_itemTokens arguments)
    | false =>
      rw [tokens_call listed]
      exact (nested_tokens callee).append (.bracketed rfl (nested_allTokens arguments))
termination_by structural e

theorem nested_allTokens (es : List Expr) : Nested (allTokens d es) := by
  cases es with
  | nil => exact .nil
  | cons e rest =>
    refine (nested_tokens e).append ?_
    split
    · exact .nil
    · exact .plain rfl (nested_allTokens rest)
termination_by structural es

theorem nested_itemTokens (arguments : List Expr) : Nested (itemTokens d arguments) := by
  cases arguments with
  | nil => exact .nil
  | cons e rest =>
    cases e with
    | array element items line => exact nested_allTokens items
    | _ => exact .nil
termination_by structural arguments

end

end Nested
end Expr

namespace Statement

def assignmentTokens (d : Draft) (target : Expr) (written : Option TypeId) (value : Expr) :
    List Token :=
  target.tokens d ++
    (match written with
      | none => []
      | some type => .fixed .colon 0 :: d.typeTokens type) ++
    .fixed .equals 0 :: value.tokens d

def stepTokens (d : Draft) : Statement → List Token
  | .assign _ target written value _ => assignmentTokens d target written value
  | _ => []

mutual

@[simp]
def tokens (d : Draft) (statement : Statement) : List Token :=
  match statement with
  | .block statements line =>
    .fixed .braceOpen line :: (allTokens d statements ++ [.fixed .braceClose line])
  | .assign declares target written value line =>
    (if declares then [.fixed .letWord line] else []) ++
      assignmentTokens d target written value ++ [.fixed .semicolon line]
  | .ret value line => .fixed .retWord line :: (value.tokens d ++ [.fixed .semicolon line])
  | .ifThen condition body line =>
    .fixed .ifWord line :: (condition.tokens d ++ .fixed .colon line :: body.tokens d)
  | .ifElse condition body otherwise line =>
    .fixed .ifWord line :: (condition.tokens d ++ .fixed .colon line :: (body.tokens d ++
      .fixed .elseWord line :: .fixed .colon line :: otherwise.tokens d))
  | .whileLoop condition body line =>
    .fixed .whileWord line :: (condition.tokens d ++ .fixed .colon line :: body.tokens d)
  | .forLoop first condition step body line =>
    .fixed .forWord line :: (first.tokens d ++ condition.tokens d ++
      .fixed .semicolon line :: (stepTokens d step ++ .fixed .colon line :: body.tokens d))
  | .call callee arguments target injected line =>
    (Expr.call callee arguments target injected line).tokens d ++ [.fixed .semicolon line]
termination_by structural statement

@[simp]
def allTokens (d : Draft) (statements : List Statement) : List Token :=
  match statements with
  | [] => []
  | statement :: rest => statement.tokens d ++ allTokens d rest
termination_by structural statements

end

section Nested

variable (d : Draft)

theorem nested_assignmentTokens (target : Expr) (written : Option TypeId) (value : Expr) :
    Nested (assignmentTokens d target written value) := by
  have types : Nested (match written with
      | none => []
      | some type => .fixed .colon 0 :: d.typeTokens type) := by
    cases written with
    | none => exact .nil
    | some type => exact .plain rfl (Expr.nested_typeTokens type)
  exact ((target.nested_tokens d).append types).append (.plain rfl (value.nested_tokens d))

theorem nested_stepTokens (step : Statement) : Nested (stepTokens d step) := by
  cases step with
  | assign declares target written value line => exact nested_assignmentTokens d target written value
  | _ => exact .nil

mutual

theorem nested_tokens (statement : Statement) : Nested (statement.tokens d) := by
  cases statement with
  | block statements line => exact .bracketed rfl (nested_allTokens statements)
  | assign declares target written value line =>
    refine Nested.append (.append ?_ (nested_assignmentTokens d target written value)) (.single rfl)
    split
    · exact .single rfl
    · exact .nil
  | ret value line => exact .plain rfl ((value.nested_tokens d).append (.single rfl))
  | ifThen condition body line =>
    exact .plain rfl ((condition.nested_tokens d).append (.plain rfl (nested_tokens body)))
  | ifElse condition body otherwise line =>
    refine .plain rfl ((condition.nested_tokens d).append (.plain rfl ?_))
    exact (nested_tokens body).append (.plain rfl (.plain rfl (nested_tokens otherwise)))
  | whileLoop condition body line =>
    exact .plain rfl ((condition.nested_tokens d).append (.plain rfl (nested_tokens body)))
  | forLoop first condition step body line =>
    refine .plain rfl (((nested_tokens first).append (condition.nested_tokens d)).append
      (.plain rfl ?_))
    exact (nested_stepTokens d step).append (.plain rfl (nested_tokens body))
  | call callee arguments target injected line =>
    exact ((Expr.call callee arguments target injected line).nested_tokens d).append (.single rfl)
termination_by structural statement

theorem nested_allTokens (statements : List Statement) : Nested (allTokens d statements) := by
  cases statements with
  | nil => exact .nil
  | cons statement rest => exact (nested_tokens statement).append (nested_allTokens rest)
termination_by structural statements

end

end Nested
end Statement
end ObjectLang
