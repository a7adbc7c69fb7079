import ObjectLang.Proofs.Printing.Shape
import ObjectLang.Proofs.Text.Quoted
set_option autoImplicit false

/-!
# Printed expressions read back

The tokens of a shaped expression read as that expression, wherever the next token does not go on
with it. The proof follows the tree. Of each expression two things are shown together: that all of it
is read in front of a token that stops it, and that, enclosed if it is open, it is read as the operand
to which any suffixes behind it are added.
-/

namespace ObjectLang

namespace Text

theorem unescape_escape (c : Char) (rest : List Char) :
    unescape ((if c = '\\' ∨ c = '"' then ['\\', c] else [c]) ++ rest) = c :: unescape rest := by
  split
  · rename_i special
    rcases special with rfl | rfl <;> rfl
  · rename_i plain
    exact unescape_plain (fun backslash => plain (.inl backslash)) rest

theorem unquote_quote (text : String) : unquote (quote text) = text := by
  rw [quote, List.cons_append, unquote_enclosed, unescape_flatMap unescape_escape,
    String.ofList_toList]

end Text

theorem Decimal.natOfDigits_toDigits (n : Nat) : natOfDigits (Nat.toDigits 10 n) = n :=
  Nat.ofDigitChars_toDigits (by decide) (by decide)

theorem Word.ofInt?_toInt (word : Word) : Word.ofInt? word.toInt = some word := by
  have lower : -9223372036854775808 ≤ word.toInt := by simpa only [Int.reducePow] using word.le_toInt
  have upper : word.toInt < 9223372036854775808 := by simpa only [Int.reducePow] using word.toInt_lt
  rw [Word.ofInt?, if_pos ⟨lower, upper⟩, Int64.ofInt_toInt]

/-- A token that goes on with the operand in front of it. -/
def TokenKind.isSuffix : TokenKind → Bool
  | dot | parenOpen | bracketOpen | asWord => true
  | _ => false

namespace Grammar

theorem literal_integer {t : Token} {word : Word} (kind : t.kind = .integer)
    (found : Word.ofInt? (Decimal.natOfDigits t.text.toList) = some word) :
    literal t = .ok (.int word) := by
  rw [literal]
  generalize Word.ofInt? (Decimal.natOfDigits t.text.toList) = spelled at found ⊢
  rw [kind, found]

/-- The token of a literal other than a float spells it. -/
theorem literal_token {value : Literal} (shaped : value.Shaped) (exact : value.isFloat = false)
    (some : value ≠ .none) (line : Nat) : literal (value.token line) = .ok value := by
  cases value with
  | int word =>
    have same : ((word.toInt.toNat : Nat) : Int) = word.toInt := Int.toNat_of_nonneg (shaped word rfl)
    refine literal_integer rfl ?_
    rw [Literal.token, String.toList_ofList, Decimal.natOfDigits_toDigits, same, Word.ofInt?_toInt]
  | float value => cases exact
  | bool value => cases value <;> simp [literal, Literal.token]
  | char text => exact congrArg (fun text => Except.ok (Literal.char text)) (Text.unquote_quote text)
  | none => exact absurd rfl some

def EndsOperand (rest : List Token) : Prop := ∀ t ∈ rest.head?, t.kind.isSuffix = false

def EndsExpression (rest : List Token) : Prop :=
  ∀ t ∈ rest.head?, t.kind.isSuffix = false ∧ t.kind.isBinaryOperator = false

/-- The step reads `value` and comes to `rest`, without any other change. -/
def Step.Gets {α : Type} {n : Nat} (x : Step α n) (s : State) (value : α) (rest : List Token) :
    Prop := ∃ line, x.outcome = (.ok value, s.seek rest line)

section Suffixes

variable {s : State} {rest : List Token} {casts : Bool} {e : Expr} {line last : Nat}

theorem inside_gets {α : Type} {k : Taken s} (closing : TokenKind)
    {read : (t : State) → t.size ≤ k.behind.size → Step α t.size} {inside : List Token} {value : α}
    (front : k.behind.cursor.tokens = inside ++ .fixed closing last :: rest)
    (pair : k.token.kind.closing? = some closing) (nested : Nested inside)
    (reads : ∀ t le, t.draft = s.draft → t.cursor.tokens = inside →
      (read t le).Gets t value []) :
    (k.inside closing read).outcome = (.ok value, s.seek rest s.cursor.line) :=
  outcome_inside k front (Balance.find_closed pair nested rfl rest)
    fun t le program module _ _ tokens =>
      reads t le (congrArg₂ Draft.mk program module) tokens

theorem suffixes_end (ends : EndsOperand s.cursor.tokens) :
    (suffixes casts e s).outcome = (.ok e, s) := by
  rw [suffixes]
  cases front : s.cursor.tokens with
  | nil =>
    rw [State.take?_nil front]
    rfl
  | cons t rest =>
    have other := ends t (front ▸ rfl)
    rw [State.take?_cons front]
    dsimp only
    split <;> rename_i kind
    · rw [kind] at other; cases other
    · rw [kind] at other; cases other
    · rw [kind] at other; cases other
    · rw [kind] at other; cases other
    · rfl

theorem suffixes_field {name : String} {at_ : Nat}
    (front : s.cursor.tokens = .fixed .dot at_ :: .name name line :: rest) :
    (suffixes casts e s).outcome =
      (suffixes casts (.field e name none line) (s.seek rest line)).outcome := by
  rw [suffixes, State.take?_cons front]
  dsimp only [Token.fixed]
  rw [Step.outcome_widen, Step.outcome_andThen (State.expect_cons .identifier rfl rfl)]
  rfl

theorem suffixes_call {arguments : List Expr} {inside : List Token} (called : e.isName = true)
    (front : s.cursor.tokens = .fixed .parenOpen line :: (inside ++ .fixed .parenClose last :: rest))
    (nested : Nested inside)
    (reads : ∀ t, t.draft = s.draft → t.cursor.tokens = inside →
      (separated t).Gets t arguments []) :
    (suffixes casts e s).outcome =
      (suffixes casts (.call e arguments none false line) (s.seek rest s.cursor.line)).outcome := by
  rw [suffixes, State.take?_cons front]
  dsimp only [Token.fixed]
  rw [if_pos called, Step.outcome_widen, Step.outcome_andThen (Step.outcome_mapError
    (inside_gets (s := s) _ rfl rfl nested fun t _ same tokens => reads t same tokens) _)]

theorem suffixes_index {place : Expr} {inside : List Token}
    (front : s.cursor.tokens =
      .fixed .bracketOpen line :: (inside ++ .fixed .bracketClose last :: rest))
    (nested : Nested inside)
    (reads : ∀ t, t.draft = s.draft → t.cursor.tokens = inside → (whole t).Gets t place []) :
    (suffixes casts e s).outcome =
      (suffixes casts (.index e place line) (s.seek rest s.cursor.line)).outcome := by
  rw [suffixes, State.take?_cons front]
  dsimp only [Token.fixed]
  rw [Step.outcome_widen, Step.outcome_andThen (Step.outcome_mapError
    (inside_gets (s := s) _ rfl rfl nested fun t _ same tokens => reads t same tokens) _)]

theorem suffixes_cast {type : TypeId} {tokens : List Token} (filled : type ≠ .void)
    (spells : s.draft.Spells type tokens)
    (front : s.cursor.tokens = .fixed .asWord line :: (tokens ++ rest)) :
    ∃ last, (suffixes true e s).outcome =
      (suffixes true (.cast e type line) (s.seek rest last)).outcome := by
  obtain ⟨last, read⟩ := typeName_spells (s := s.seek (tokens ++ rest) line) spells rfl rfl
  refine ⟨last, ?_⟩
  rw [suffixes, State.take?_cons front]
  dsimp only [Token.fixed]
  rw [if_pos rfl, Step.outcome_widen, Step.outcome_andThen read, if_neg filled]
  rfl

end Suffixes

section Operands

variable {s : State} {rest : List Token} {e : Expr} {line last : Nat}

theorem endsExpression_nil : EndsExpression [] := nofun

theorem endsExpression_cons {t : Token} (suffix : t.kind.isSuffix = false)
    (operator : t.kind.isBinaryOperator = false) : EndsExpression (t :: rest) := by
  rintro _ ⟨⟩
  exact ⟨suffix, operator⟩

theorem EndsExpression.operand (ends : EndsExpression rest) : EndsOperand rest :=
  fun t front => (ends t front).1

theorem primary_literal {value : Literal} (shaped : value.Shaped) (exact : value.isFloat = false)
    (front : s.cursor.tokens = value.token line :: rest) :
    (primary s).outcome = (.ok (.literal value line), s.seek rest line) := by
  have same : (value.token line).line = line := by cases value <;> rfl
  rw [primary, State.take?_cons front]
  dsimp only
  by_cases none : value = .none
  · subst none
    exact Step.outcome_widen _ _
  · have spelled := literal_token shaped exact none line
    have literalAt (h : (s.seek rest (value.token line).line).size ≤ s.size) :
        ((Step.ofExcept ((literal (value.token line)).map fun v =>
          Expr.literal v (value.token line).line) (s.seek rest (value.token line).line)).widen
            h).outcome = (.ok (.literal value line), s.seek rest line) := by
      refine (Step.outcome_widen _ h).trans ?_
      rw [spelled, same]
      rfl
    cases value with
    | none => exact absurd rfl none
    | float value => cases exact
    | _ => exact literalAt _

theorem primary_name {name : String} (front : s.cursor.tokens = .name name line :: rest) :
    (primary s).outcome = (.ok (.var name none line), s.seek rest line) := by
  rw [primary, State.take?_cons front]
  exact Step.outcome_widen _ _

theorem primary_reference (front : s.cursor.tokens = .fixed .ampersand line :: rest)
    {behind : List Token} (read : (expression (s.seek rest line)).Gets (s.seek rest line) e behind) :
    (primary s).Gets s (.reference e line) behind := by
  obtain ⟨last, read⟩ := read
  refine ⟨last, ?_⟩
  rw [primary, State.take?_cons front]
  dsimp only [Token.fixed]
  rw [Step.outcome_widen, Step.outcome_map read]
  rfl

theorem whole_gets (read : (expression s).Gets s e []) : (whole s).Gets s e [] := by
  obtain ⟨line, read⟩ := read
  refine ⟨line, ?_⟩
  have none : (noneLeft (s.seek [] line)).outcome = (.ok (), s.seek [] line) := by
    rw [noneLeft, State.take?_nil rfl]
    rfl
  rw [whole, Step.outcome_andThen read, Step.outcome_map none]

theorem primary_parens {inside : List Token}
    (front : s.cursor.tokens = .fixed .parenOpen line :: (inside ++ .fixed .parenClose last :: rest))
    (nested : Nested inside)
    (reads : ∀ t, t.draft = s.draft → t.cursor.tokens = inside → (expression t).Gets t e []) :
    (primary s).outcome = (.ok e, s.seek rest s.cursor.line) := by
  rw [primary, State.take?_cons front]
  dsimp only [Token.fixed]
  rw [Step.outcome_widen]
  exact Step.outcome_mapError (inside_gets _ rfl rfl nested
    fun t _ same tokens => whole_gets (reads t same tokens)) _

theorem operand_primary (read : (primary s).outcome = (.ok e, s.seek rest line)) :
    (operand s).outcome = (suffixes true e (s.seek rest line)).outcome := by
  rw [operand, Step.outcome_andThen read]

theorem expression_operator {op : BinaryOperator} {lhs rhs : Expr} {more behind : List Token}
    (front : (operand s).outcome = (.ok lhs, s.seek (.fixed op.kind line :: more) last))
    (read : (expression (s.seek more line)).Gets (s.seek more line) rhs behind) :
    (expression s).Gets s (.binary op lhs rhs line) behind := by
  obtain ⟨last, read⟩ := read
  have spelled : BinaryOperator.ofToken? op.kind = some op := by cases op <;> rfl
  refine ⟨last, ?_⟩
  rw [expression, Step.outcome_andThen front, State.take?_cons rfl]
  dsimp only [Token.fixed]
  split
  · rename_i none
    cases none.symm.trans spelled
  · rename_i found some
    cases some.symm.trans spelled
    exact (Step.outcome_widen _ _).trans (Step.outcome_map read _)

theorem expression_operand (ends : EndsExpression rest)
    (front : (operand s).outcome = (.ok e, s.seek rest line)) : (expression s).Gets s e rest := by
  refine ⟨line, ?_⟩
  rw [expression, Step.outcome_andThen front]
  cases rest with
  | nil =>
    rw [State.take?_nil rfl]
    rfl
  | cons t rest =>
    have other := BinaryOperator.isSome_ofToken? t.kind
    rw [(ends t rfl).2, Option.isSome_eq_false_iff, Option.isNone_iff_eq_none] at other
    rw [State.take?_cons rfl]
    dsimp only
    rw [other]
    rfl

end Operands

/-- Printed in a file like that of `d`, the expression reads as itself. -/
def Rereads (d : Draft) (e : Expr) : Prop :=
  ∀ (s : State) (rest : List Token), s.draft = d → EndsExpression rest →
    s.cursor.tokens = e.tokens d ++ rest → (expression s).Gets s e rest

section Items

variable {d : Draft} {s : State} {rest : List Token} {line last : Nat}

theorem tokens_of_expression {e : Expr} {behind : List Token} (read : (expression s).Gets s e behind) :
    ∃ t more, s.cursor.tokens = t :: more := by
  obtain ⟨line, read⟩ := read
  cases front : s.cursor.tokens with
  | cons t more => exact ⟨t, more, rfl⟩
  | nil =>
    have fails : (expression s).result = .error s.endError := by
      rw [expression, operand, primary, State.take?_nil front]
      rfl
    cases (congrArg Prod.fst read).symm.trans fails

theorem separated_gets {es : List Expr} (rereads : ∀ e ∈ es, Rereads d e) (same : s.draft = d)
    (front : s.cursor.tokens = Expr.allTokens d es) : (separated s).Gets s es [] := by
  induction es generalizing s with
  | nil =>
    refine ⟨s.cursor.line, ?_⟩
    have tokens : s.cursor.tokens = [] := front
    rw [separated, State.take?_nil tokens]
    have stays : s.seek [] s.cursor.line = s := by rw [State.seek, ← tokens]
    rw [stays]
    rfl
  | cons e rest ih =>
    have first := rereads e List.mem_cons_self
    have others := fun other h => rereads other (List.mem_cons_of_mem e h)
    rw [Expr.allTokens] at front
    cases rest with
    | nil =>
      rw [List.isEmpty_nil, if_pos rfl] at front
      have read := first s [] same endsExpression_nil front
      obtain ⟨t, more, tokens⟩ := tokens_of_expression read
      obtain ⟨line, read⟩ := read
      refine ⟨line, ?_⟩
      rw [separated, State.take?_cons tokens]
      dsimp only
      rw [Step.outcome_andThen read, State.take?_nil rfl]
      rfl
    | cons next rest =>
      rw [List.isEmpty_cons, if_neg Bool.false_ne_true] at front
      have read := first s _ same (endsExpression_cons rfl rfl) front
      obtain ⟨t, more, tokens⟩ := tokens_of_expression read
      obtain ⟨line, read⟩ := read
      obtain ⟨last, behind⟩ := ih (s := s.seek (Expr.allTokens d (next :: rest)) 0) others same rfl
      refine ⟨last, ?_⟩
      rw [separated, State.take?_cons tokens]
      dsimp only
      rw [Step.outcome_andThen read, State.take?_cons rfl]
      dsimp only [Token.fixed]
      rw [if_pos rfl]
      exact (Step.outcome_widen _ _).trans (Step.outcome_map behind _)

theorem keepLiterals_literals {items : List Expr} (literals : ∀ e ∈ items, e.isLiteral = true) :
    (keepLiterals items s).outcome = (.ok items, s) := by
  have kept : items.filter Expr.isLiteral = items := List.filter_eq_self.2 literals
  have faults : (items.filter fun e => !e.isLiteral) = [] :=
    List.filter_eq_nil_iff.2 fun e h => by rw [literals e h]; exact Bool.false_ne_true
  unfold keepLiterals Step.outcome Step.result Step.state
  dsimp only
  rw [kept, faults]
  rfl

theorem arrayOfItems_items {element array : TypeId} {items : List Expr}
    (shaped : Expr.Items element items) (found : s.program.types.findArray? element = some array) :
    (arrayOfItems line items s).outcome = (.ok (.array element items line), s) := by
  have filled : items.isEmpty = false := List.isEmpty_eq_false_iff.2 shaped.ne_nil
  rw [arrayOfItems, Step.outcome_andThen (keepLiterals_literals shaped.isLiteral), filled,
    if_neg Bool.false_ne_true]
  unfold Step.outcome Step.result Step.state
  dsimp only
  rw [shaped.first, Option.getD_some, State.arrayOf_found found]

theorem listOfItems_items {element list : TypeId} {items : List Expr}
    (shaped : Expr.Items element items) (found : s.program.types.findList? element = some list)
    (shown : list ∈ s.module.types) :
    (listOfItems line items s).outcome =
      (.ok (Expr.listCall s.program element list items line), s) := by
  have made := State.listOf_shown found shown
  rw [listOfItems, Step.outcome_andThen (keepLiterals_literals shaped.isLiteral)]
  split
  · rename_i none
    cases none.symm.trans shaped.first
  · rename_i some
    cases some.symm.trans shaped.first
    unfold Step.outcome Step.result Step.state
    dsimp only
    rw [made]
    rfl

theorem primary_list {element list : TypeId} {items : List Expr} {inside : List Token}
    (shaped : Expr.Items element items) (found : s.program.types.findList? element = some list)
    (shown : list ∈ s.module.types)
    (front : s.cursor.tokens =
      .fixed .bracketOpen line :: (inside ++ .fixed .bracketClose last :: rest))
    (nested : Nested inside)
    (reads : ∀ t, t.draft = s.draft → t.cursor.tokens = inside → (separated t).Gets t items []) :
    (primary s).outcome =
      (.ok (Expr.listCall s.program element list items line), s.seek rest s.cursor.line) := by
  rw [primary, State.take?_cons front]
  dsimp only [Token.fixed]
  rw [Step.outcome_widen, Step.outcome_andThen (Step.outcome_mapError
    (inside_gets (s := s) _ rfl rfl nested fun t _ same tokens => reads t same tokens) _)]
  exact listOfItems_items (s := s.seek rest s.cursor.line) shaped found shown

/-- The brackets of an array are operators, too, but none of these is among literals. -/
theorem primary_array {element array : TypeId} {items : List Expr} {inside : List Token}
    (shaped : Expr.Items element items) (found : s.program.types.findArray? element = some array)
    (front : s.cursor.tokens = .fixed .less line :: (inside ++ .fixed .greater last :: rest))
    (other : ∀ t ∈ inside, t.kind ≠ .endOfFile ∧ t.kind ≠ .less ∧ t.kind ≠ .greater)
    (reads : ∀ t, t.draft = s.draft → t.cursor.tokens = inside → (separated t).Gets t items []) :
    (primary s).outcome = (.ok (.array element items line), s.seek rest s.cursor.line) := by
  rw [primary, State.take?_cons front]
  dsimp only [Token.fixed]
  have found' : Balance.find .less .greater 0 (inside ++ .fixed .greater last :: rest) =
      .closed inside (.fixed .greater last) rest :=
    Balance.find_closed_of_forall other rfl (by decide) (by decide) rest
  rw [Step.outcome_widen, Step.outcome_andThen (Step.outcome_mapError (outcome_inside (s := s) _ rfl
    found' fun t _ program module _ _ tokens =>
      reads t (congrArg₂ Draft.mk program module) tokens) _)]
  exact arrayOfItems_items (s := s.seek rest s.cursor.line) shaped found

end Items

/-- Printed in a file like that of `d`, and enclosed if it is open, the expression reads as the operand
    that suffixes are added to. -/
def Starts (d : Draft) (e : Expr) : Prop :=
  ∀ (s : State) (rest : List Token), s.draft = d → s.cursor.tokens = e.enclose (e.tokens d) ++ rest →
    ∃ line, (operand s).outcome = (suffixes true e (s.seek rest line)).outcome

section Expressions

variable {d : Draft} {e : Expr}

theorem Starts.rereads (h : Starts d e) (closed : e.isOpen = false) : Rereads d e := by
  intro s rest same ends front
  have enclosed : e.enclose (e.tokens d) = e.tokens d := by
    rw [Expr.enclose, closed, if_neg Bool.false_ne_true]
  obtain ⟨line, read⟩ := h s rest same (enclosed.symm ▸ front)
  exact expression_operand ends (read.trans (suffixes_end ends.operand))

theorem Rereads.starts (h : Rereads d e) (opened : e.isOpen = true) : Starts d e := by
  intro s rest same front
  rw [Expr.enclose, opened, if_pos rfl, List.cons_append, List.append_assoc] at front
  refine ⟨s.cursor.line, operand_primary (primary_parens front (e.nested_tokens d) ?_)⟩
  intro t draft tokens
  exact h t [] (draft.trans same) endsExpression_nil (tokens.trans (List.append_nil _).symm)

theorem starts_of_primary (closed : e.isOpen = false)
    (h : ∀ (s : State) (rest : List Token), s.draft = d → s.cursor.tokens = e.tokens d ++ rest →
      ∃ line, (primary s).outcome = (.ok e, s.seek rest line)) : Starts d e := by
  intro s rest same front
  rw [Expr.enclose, closed, if_neg Bool.false_ne_true] at front
  obtain ⟨line, read⟩ := h s rest same front
  exact ⟨line, operand_primary read⟩

/-- The tokens are a suffix that makes `e` of `base`. -/
def Adds (d : Draft) (casts : Bool) (base : Expr) (suffix : List Token) (e : Expr) : Prop :=
  ∀ (s : State) (rest : List Token), s.draft = d → s.cursor.tokens = suffix ++ rest →
    ∃ line, (suffixes casts base s).outcome = (suffixes casts e (s.seek rest line)).outcome

section Adds

variable {casts : Bool} {base : Expr} {line : Nat}

theorem adds_field (name : String) :
    Adds d casts base [.fixed .dot line, .name name line] (.field base name none line) :=
  fun _ _ _ front => ⟨line, suffixes_field front⟩

theorem adds_index {place : Expr} (inner : Rereads d place) :
    Adds d casts base
      (.fixed .bracketOpen line :: (place.tokens d ++ [.fixed .bracketClose line]))
      (.index base place line) := by
  intro s rest same front
  rw [List.cons_append, List.append_assoc] at front
  refine ⟨s.cursor.line, suffixes_index front (place.nested_tokens d) fun t draft tokens => ?_⟩
  exact whole_gets (inner t [] (draft.trans same) endsExpression_nil
    (tokens.trans (List.append_nil _).symm))

theorem adds_call {arguments : List Expr} (called : base.isName = true)
    (inner : ∀ e ∈ arguments, Rereads d e) :
    Adds d casts base
      (.fixed .parenOpen line :: (Expr.allTokens d arguments ++ [.fixed .parenClose line]))
      (.call base arguments none false line) := by
  intro s rest same front
  rw [List.cons_append, List.append_assoc] at front
  exact ⟨s.cursor.line, suffixes_call called front (Expr.nested_allTokens d arguments)
    fun t draft tokens => separated_gets inner (draft.trans same) tokens⟩

theorem adds_cast {type : TypeId} (filled : type ≠ .void) (spelled : d.Spelled type) :
    Adds d true base (.fixed .asWord line :: d.typeTokens type) (.cast base type line) := by
  intro s rest same front
  subst same
  exact suffixes_cast filled spelled.spells_typeTokens front

theorem tokens_named_call {arguments : List Expr} (shaped : base.Shaped d)
    (called : base.isName = true) : (Expr.call base arguments none false line).tokens d =
      base.enclose (base.tokens d) ++
        .fixed .parenOpen line :: (Expr.allTokens d arguments ++ [.fixed .parenClose line]) := by
  have closed : base.isOpen = false := by cases base <;> first | rfl | cases called
  rw [Expr.tokens_call shaped.isListName_eq, Expr.enclose, closed, if_neg Bool.false_ne_true]

end Adds

/-- A suffix is added to an operand that reads back. -/
theorem Starts.suffix {base : Expr} {suffix : List Token} (h : Starts d base)
    (closed : e.isOpen = false) (tokens : e.tokens d = base.enclose (base.tokens d) ++ suffix)
    (added : Adds d true base suffix e) : Starts d e := by
  intro s rest same front
  rw [Expr.enclose, closed, if_neg Bool.false_ne_true, tokens, List.append_assoc] at front
  obtain ⟨line, read⟩ := h s (suffix ++ rest) same front
  obtain ⟨last, goesOn⟩ := added (s.seek (suffix ++ rest) line) rest same rfl
  exact ⟨last, read.trans goesOn⟩

theorem starts_literal {value : Literal} (shaped : value.Shaped) (exact : value.isFloat = false)
    (line : Nat) : Starts d (.literal value line) :=
  starts_of_primary rfl fun _ _ _ front => ⟨line, primary_literal shaped exact front⟩

theorem floatFree_of_mem {es : List Expr} (exact : Expr.allFloatFree es = true) :
    ∀ e ∈ es, e.floatFree = true := by
  induction es with
  | nil => exact nofun
  | cons e rest ih =>
    rw [Expr.allFloatFree, Bool.and_eq_true] at exact
    rw [List.forall_mem_cons]
    exact ⟨exact.1, ih exact.2⟩

theorem rereads_items {element : TypeId} {items : List Expr} (shaped : Expr.Items element items)
    (exact : Expr.allFloatFree items = true) : ∀ item ∈ items, Rereads d item := by
  intro item mem
  have free := floatFree_of_mem exact item mem
  obtain ⟨value, line, rfl, spelled⟩ := shaped.literals item mem
  rw [Expr.floatFree, Bool.not_eq_true'] at free
  exact (starts_literal spelled free line).rereads rfl

theorem plain_items {items : List Expr} (literals : ∀ item ∈ items, item.isLiteral = true) :
    ∀ t ∈ Expr.allTokens d items, t.kind ≠ .endOfFile ∧ t.kind ≠ .less ∧ t.kind ≠ .greater := by
  induction items with
  | nil => exact nofun
  | cons item rest ih =>
    rw [List.forall_mem_cons] at literals
    intro t mem
    rw [Expr.allTokens, List.mem_append] at mem
    rcases mem with mem | mem
    · cases item with
      | literal value line =>
        rw [Expr.tokens, List.mem_singleton] at mem
        subst mem
        cases value <;> exact ⟨nofun, nofun, nofun⟩
      | _ => cases literals.1
    · split at mem
      · cases mem
      · rcases List.mem_cons.1 mem with rfl | mem
        · decide
        · exact ih literals.2 t mem

mutual

/-- The argument is an induction on the tree. -/
theorem starts_and_rereads (e : Expr) (shaped : e.Shaped d) (exact : e.floatFree = true) :
    Starts d e ∧ Rereads d e := by
  -- An open expression starts an operand in parentheses, a closed one is an operand by itself.
  have of_open (opened : e.isOpen = true) (h : Rereads d e) : Starts d e ∧ Rereads d e :=
    ⟨h.starts opened, h⟩
  have of_closed (closed : e.isOpen = false) (h : Starts d e) : Starts d e ∧ Rereads d e :=
    ⟨h, h.rereads closed⟩
  cases e with
  | binary op lhs rhs line =>
    rw [Expr.floatFree, Bool.and_eq_true] at exact
    have left := (starts_and_rereads lhs shaped.1 exact.1).1
    have right := (starts_and_rereads rhs shaped.2 exact.2).2
    refine of_open rfl fun s rest same ends front => ?_
    rw [Expr.tokens, List.append_assoc] at front
    obtain ⟨last, read⟩ := left s _ same front
    have notSuffix : op.kind.isSuffix = false := by cases op <;> rfl
    refine expression_operator (read.trans (suffixes_end ?_)) (right _ rest same ends rfl)
    rintro _ ⟨⟩
    exact notSuffix
  | literal value line =>
    rw [Expr.floatFree, Bool.not_eq_true'] at exact
    exact of_closed rfl (starts_literal shaped exact line)
  | var name type line =>
    obtain rfl : type = none := shaped
    exact of_closed rfl (starts_of_primary rfl fun _ _ _ front => ⟨line, primary_name front⟩)
  | field base name type line =>
    obtain ⟨shaped, rfl⟩ := shaped
    have first := (starts_and_rereads base shaped exact).1
    exact of_closed rfl (first.suffix rfl rfl (adds_field name))
  | new type line => cases shaped
  | allocate element size line => cases shaped
  | array element items line =>
    obtain ⟨shaped, array, found⟩ := shaped
    refine of_closed rfl (starts_of_primary rfl fun s rest same front => ?_)
    rw [Expr.tokens, List.cons_append, List.append_assoc] at front
    refine ⟨s.cursor.line, ?_⟩
    subst same
    exact primary_array shaped found front (plain_items shaped.isLiteral)
      fun t draft tokens => separated_gets (rereads_items shaped exact) draft tokens
  | index base place line =>
    rw [Expr.floatFree, Bool.and_eq_true] at exact
    have first := (starts_and_rereads base shaped.1 exact.1).1
    have inner := (starts_and_rereads place shaped.2 exact.2).2
    exact of_closed rfl (first.suffix rfl rfl (adds_index inner))
  | reference expr line =>
    have inner := (starts_and_rereads expr shaped exact).2
    refine of_open rfl fun s rest same ends front => ?_
    obtain ⟨last, read⟩ := primary_reference front (inner (s.seek _ line) rest same ends rfl)
    exact expression_operand ends ((operand_primary read).trans (suffixes_end ends.operand))
  | cast expr type line =>
    obtain ⟨shaped, spelled, filled⟩ := shaped
    have first := (starts_and_rereads expr shaped exact).1
    exact of_closed rfl (first.suffix rfl rfl (adds_cast filled spelled))
  | call callee arguments target injected line =>
    rw [Expr.floatFree, Bool.and_eq_true] at exact
    rcases shaped with ⟨name, shaped, called, rfl, rfl⟩ |
        ⟨element, list, items, shaped, found, shown, same⟩
    · have first := (starts_and_rereads callee name exact.1).1
      have inner := rereads_all arguments shaped exact.2
      exact of_closed rfl (first.suffix rfl (tokens_named_call name called) (adds_call called inner))
    · cases same
      rw [Expr.allFloatFree, Bool.and_eq_true] at exact
      refine of_closed rfl (starts_of_primary rfl fun s rest same front => ⟨s.cursor.line, ?_⟩)
      rw [Expr.tokens_list rfl, List.cons_append, List.append_assoc] at front
      subst same
      exact primary_list shaped found shown front (Expr.nested_allTokens _ items)
        fun t draft tokens => separated_gets (rereads_items shaped exact.2.1) draft tokens
termination_by structural e

theorem rereads_all (es : List Expr) (shaped : Expr.ShapedAll d es)
    (exact : Expr.allFloatFree es = true) : ∀ e ∈ es, Rereads d e := by
  cases es with
  | nil => exact nofun
  | cons e rest =>
    rw [Expr.allFloatFree, Bool.and_eq_true] at exact
    rw [List.forall_mem_cons]
    exact ⟨(starts_and_rereads e shaped.1 exact.1).2, rereads_all rest shaped.2 exact.2⟩
termination_by structural es

end

end Expressions

end Grammar
end ObjectLang
