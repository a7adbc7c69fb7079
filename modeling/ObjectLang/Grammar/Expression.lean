import ObjectLang.Decimal.Positional
import ObjectLang.Grammar.TypeName
import ObjectLang.Text.Quoted
set_option autoImplicit false

/-!
# Expressions

    expression := operand (operator expression)?
    operand    := primary suffix*
    primary    := literal | "None" | identifier | list | array | "&" expression
                | "(" expression ")" | "not" operand
    list       := "[" (expression ("," expression)*)? "]"
    array      := "<" (expression ("," expression)*)? ">"
    suffix     := "." identifier | "(" arguments ")" | "[" expression "]" | "as" type

Operators have no precedence: the right operand is a whole expression. `not x` stands for
`x == False`. A list stands for a call of the constructor of its type on an array.
-/

namespace ObjectLang.Grammar

def literal (t : Token) : Except SyntaxError Literal :=
  match t.kind with
  | .integer =>
    match Word.ofInt? (Decimal.natOfDigits t.text.toList) with
    | some value => .ok (.int value)
    | none => .error ⟨.literalTooLarge t.text, t.line⟩
  | .rational => .ok (.float (Decimal.readFloat t.text.toList))
  | .boolean => .ok (.bool (t.text == "True"))
  | _ => .ok (.char (Text.unquote t.text))

def noneLeft (s : State) : Step Unit s.size :=
  match s.take? with
  | none => .pure () s
  | some k =>
    .error ⟨.unexpectedToken k.token.describe "end of scope", k.token.line⟩ k.behind k.le

def keepLiterals (items : List Expr) (s : State) : Step (List Expr) s.size :=
  let faults := items.filter fun e => !e.isLiteral
  let t : State := { s with
    diagnostics := faults.foldl (fun d e =>
      d.errorAt e.line (SyntaxError.Cause.message .arrayInitializerNotLiteral)) s.diagnostics }
  .ok (items.filter Expr.isLiteral) t (Nat.le_refl _)

def elementType? : List Expr → Option TypeId
  | .literal value _ :: _ => some value.type
  | _ => none

/-- The array of some elements, written on `line`. The first literal sets the element type. -/
def arrayOfItems (line : Nat) (items : List Expr) (s : State) : Step Expr s.size :=
  (keepLiterals items s).andThen fun literals t _ =>
    if items.isEmpty then .fail ⟨.emptyArrayInitializer, line⟩ t
    else
      let element := (elementType? literals).getD .object
      .ok (.array element literals line) (t.arrayOf element).2 (Nat.le_of_eq (t.size_arrayOf _))

/-- The list of some elements, written on `line`: a call of the constructor of the list type. -/
def listOfItems (line : Nat) (items : List Expr) (s : State) : Step Expr s.size :=
  (keepLiterals items s).andThen fun literals t _ =>
    match elementType? literals with
    | none =>
      .fail ⟨if items.isEmpty then .emptyListLiteral else .untypedListLiteral, line⟩ t
    | some element =>
      let list := (t.listOf element).1
      let u := (t.listOf element).2
      let receiver := Expr.var (u.program.types.name list) (some list) line
      let count := Expr.literal (.int (Int64.ofNat literals.length)) line
      .ok
        (.call (.field receiver constructorName none line)
          [.array element literals line, count]
          (u.program.types.findMethod? list constructorName) false line)
        u (Nat.le_of_eq (t.size_listOf element))

mutual

def expression (s : State) : Step Expr s.size :=
  (operand s).andThen fun lhs t _ =>
    match t.take? with
    | none => .pure lhs t
    | some k =>
      have _ := k.lt
      match BinaryOperator.ofToken? k.token.kind with
      | none => .pure lhs t
      | some op =>
        ((expression k.behind).map fun rhs => .binary op lhs rhs k.token.line).widen k.le
termination_by 8 * s.size + 3

def operand (s : State) : Step Expr s.size :=
  (primary s).andThen fun e t _ => suffixes true e t
termination_by 8 * s.size + 2

def primary (s : State) : Step Expr s.size :=
  match s.take? with
  | none => .fail s.endError s
  | some k =>
    have _ := k.lt
    match k.token.kind with
    | .integer | .rational | .boolean | .string =>
      (Step.ofExcept ((literal k.token).map fun value => .literal value k.token.line)
        k.behind).widen k.le
    | .noneWord => (Step.pure (.literal .none k.token.line) k.behind).widen k.le
    | .identifier => (Step.pure (.var k.token.text none k.token.line) k.behind).widen k.le
    | .bracketOpen =>
      (((k.inside .bracketClose fun t _ => separated t).mapError
        (·.within "array initializer")).andThen fun items t _ =>
          listOfItems k.token.line items t).widen k.le
    | .less =>
      (((k.inside .greater fun t _ => separated t).mapError
        (·.within "array initializer")).andThen fun items t _ =>
          arrayOfItems k.token.line items t).widen k.le
    | .ampersand =>
      ((expression k.behind).map fun e => .reference e k.token.line).widen k.le
    | .parenOpen =>
      ((k.inside .parenClose fun t _ => whole t).mapError
        (·.within "parenthesized expression")).widen k.le
    | .notWord =>
      ((operand k.behind).map fun e =>
        .binary .equal e (.literal (.bool false) k.token.line) k.token.line).widen k.le
    | .semicolon | .braceClose => .fail ⟨.invalidExpression k.token.text, k.token.line⟩ s
    | kind =>
      if kind.isBinaryOperator then .error ⟨.missingLeftOperand, k.token.line⟩ k.behind k.le
      else .error ⟨.invalidExpression k.token.text, k.token.line⟩ k.behind k.le
termination_by 8 * s.size + 1

/-- Adds suffixes to an expression. Casts are suffixes of operands only. -/
def suffixes (casts : Bool) (e : Expr) (s : State) : Step Expr s.size :=
  match s.take? with
  | none => .pure e s
  | some k =>
    have _ := k.lt
    match k.token.kind with
    | .dot =>
      ((k.behind.expect .identifier).andThen fun name t _ =>
        suffixes casts (.field e name.text none name.line) t).widen k.le
    | .parenOpen =>
      if e.isName then
        (((k.inside .parenClose fun t _ => separated t).mapError
          (·.within "argument list")).andThen fun arguments t _ =>
            suffixes casts (.call e arguments none false k.token.line) t).widen k.le
      else .fail ⟨.invalidCallee, k.token.line⟩ s
    | .bracketOpen =>
      (((k.inside .bracketClose fun t _ => whole t).mapError
        (·.within "array index")).andThen fun index t _ =>
          suffixes casts (.index e index k.token.line) t).widen k.le
    | .asWord =>
      if casts then
        ((typeName k.behind).andThen fun type t _ =>
          if type = .void then .fail ⟨.castToVoid, k.token.line⟩ t
          else suffixes casts (.cast e type k.token.line) t).widen k.le
      else .pure e s
    | _ => .pure e s
termination_by 8 * s.size

def whole (s : State) : Step Expr s.size :=
  (expression s).andThen fun e t _ => (noneLeft t).map fun _ => e
termination_by 8 * s.size + 4

/-- Expressions with commas between them, up to the end of the current brackets. A comma may stand
    behind the last. -/
def separated (s : State) : Step (List Expr) s.size :=
  match s.take? with
  | none => .pure [] s
  | some _ =>
    (expression s).andThen fun e t _ =>
      match t.take? with
      | none => .pure [e] t
      | some k =>
        have _ := k.lt
        if k.token.kind = .comma then
          ((separated k.behind).map fun rest => e :: rest).widen k.le
        else
          .error ⟨.unexpectedToken k.token.describe (TokenKind.describe .comma), k.token.line⟩
            k.behind k.le
termination_by 8 * s.size + 4

end

end ObjectLang.Grammar
