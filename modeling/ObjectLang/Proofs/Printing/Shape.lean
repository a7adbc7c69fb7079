import ObjectLang.Grammar.Expression
import ObjectLang.Proofs.Printing.Printer
set_option autoImplicit false

/-!
# The shape of what is read

Trees as reading without an error makes them, before anything is found out about their names: no
variable, field or call has notes, lists are calls of the constructor of their type, and written types
are visible. What has that shape keeps it while more types are made.
-/

namespace ObjectLang

def Literal.Shaped (value : Literal) : Prop := ∀ word, value = .int word → 0 ≤ word.toInt

def Literal.isFloat : Literal → Bool
  | .float _ => true
  | _ => false

namespace Expr

structure Items (element : TypeId) (items : List Expr) : Prop where
  literals : ∀ item ∈ items, ∃ value line, item = .literal value line ∧ value.Shaped
  first : Grammar.elementType? items = some element

/-- What a list of elements reads into. -/
def listCall (p : Program) (element list : TypeId) (items : List Expr) (line : Nat) : Expr :=
  .call (.field (.var (p.types.name list) (some list) line) constructorName none line)
    [.array element items line, .literal (.int (Int64.ofNat items.length)) line]
    (p.types.findMethod? list constructorName) false line

mutual

def Shaped (d : Draft) (e : Expr) : Prop :=
  match e with
  | .binary _ lhs rhs _ => lhs.Shaped d ∧ rhs.Shaped d
  | .literal value _ => value.Shaped
  | .var _ type _ => type = none
  | .field base _ type _ => base.Shaped d ∧ type = none
  | .new .. | .allocate .. => False
  | .array element items _ =>
    Items element items ∧ ∃ array, d.program.types.findArray? element = some array
  | .index base place _ => base.Shaped d ∧ place.Shaped d
  | .reference expr _ => expr.Shaped d
  | .cast expr type _ => expr.Shaped d ∧ d.Spelled type ∧ type ≠ .void
  | .call callee arguments target injected line =>
    (callee.Shaped d ∧ ShapedAll d arguments ∧ callee.isName = true ∧ target = none ∧
        injected = false) ∨
      ∃ element list items, Items element items ∧
        d.program.types.findList? element = some list ∧ list ∈ d.module.types ∧
        .call callee arguments target injected line = listCall d.program element list items line
termination_by structural e

def ShapedAll (d : Draft) (es : List Expr) : Prop :=
  match es with
  | [] => True
  | e :: rest => e.Shaped d ∧ ShapedAll d rest
termination_by structural es

end

/-- A name with suffixes other than casts, as statements begin with it. -/
def isChain : Expr → Bool
  | .var _ type _ => type.isNone
  | .field base .. | .index base .. | .call base .. => base.isChain
  | _ => false

mutual

def floatFree (e : Expr) : Bool :=
  match e with
  | .binary _ lhs rhs _ => lhs.floatFree && rhs.floatFree
  | .literal value _ => !value.isFloat
  | .var .. | .new .. => true
  | .field base _ _ _ => base.floatFree
  | .allocate _ size _ => size.floatFree
  | .array _ items _ => allFloatFree items
  | .index base place _ => base.floatFree && place.floatFree
  | .reference expr _ => expr.floatFree
  | .cast expr _ _ => expr.floatFree
  | .call callee arguments _ _ _ => callee.floatFree && allFloatFree arguments
termination_by structural e

def allFloatFree (es : List Expr) : Bool :=
  match es with
  | [] => true
  | e :: rest => e.floatFree && allFloatFree rest
termination_by structural es

end

section Shaped

variable {d e : Draft} {callee : Expr} {arguments : List Expr} {target : Option FunctionId}
  {injected : Bool} {line : Nat}

theorem Shaped.isListName_eq {callee : Expr} (shaped : callee.Shaped d) :
    callee.isListName = false := by
  unfold isListName
  split
  · cases shaped.1
  · rfl

theorem listCall_eq (h : Draft.Broadens d e) {element list : TypeId}
    (found : d.program.types.findList? element = some list) (items : List Expr) (line : Nat) :
    listCall e.program element list items line = listCall d.program element list items line := by
  have known := (Registry.get_of_find? found).1
  rw [listCall, listCall, h.types.name_eq known, h.types.findMethod?_eq known]

variable {earlier : List Module}

mutual

theorem shaped_mono (hd : d.Closed earlier) (h : Draft.Broadens d e) (x : Expr)
    (shaped : x.Shaped d) : x.Shaped e := by
  cases x with
  | binary op lhs rhs line => exact ⟨shaped_mono hd h lhs shaped.1, shaped_mono hd h rhs shaped.2⟩
  | literal value line => exact shaped
  | var name type line => exact shaped
  | field base name type line => exact ⟨shaped_mono hd h base shaped.1, shaped.2⟩
  | new type line => cases shaped
  | allocate element size line => cases shaped
  | array element items line =>
    exact ⟨shaped.1, shaped.2.imp fun _ found => h.types.findArray?_eq found⟩
  | index base place line =>
    exact ⟨shaped_mono hd h base shaped.1, shaped_mono hd h place shaped.2⟩
  | reference expr line => exact shaped_mono hd h expr shaped
  | cast expr type line =>
    exact ⟨shaped_mono hd h expr shaped.1, h.spelled hd shaped.2.1, shaped.2.2⟩
  | call callee arguments target injected line =>
    rcases shaped with ⟨name, shaped, plain⟩ | ⟨element, list, items, shaped, found, shown, same⟩
    · exact .inl ⟨shaped_mono hd h callee name, shapedAll_mono hd h arguments shaped, plain⟩
    · refine .inr ⟨element, list, items, shaped, h.types.find?_eq found, h.mem shown, ?_⟩
      rw [same, listCall_eq h found]
termination_by structural x

theorem shapedAll_mono (hd : d.Closed earlier) (h : Draft.Broadens d e) (xs : List Expr)
    (shaped : ShapedAll d xs) : ShapedAll e xs := by
  cases xs with
  | nil => trivial
  | cons x rest => exact ⟨shaped_mono hd h x shaped.1, shapedAll_mono hd h rest shaped.2⟩
termination_by structural xs

end

theorem shapedAll_iff (xs : List Expr) : ShapedAll d xs ↔ ∀ x ∈ xs, x.Shaped d := by
  induction xs with
  | nil => exact ⟨nofun, fun _ => trivial⟩
  | cons x rest ih => rw [ShapedAll, ih, List.forall_mem_cons]

theorem Items.of_shaped {element : TypeId} {items : List Expr}
    (literals : ∀ item ∈ items, item.isLiteral = true) (shaped : ShapedAll d items)
    (first : Grammar.elementType? items = some element) : Items element items := by
  refine ⟨fun item mem => ?_, first⟩
  have literal := literals item mem
  have shaped := (shapedAll_iff items).1 shaped item mem
  cases item with
  | literal value line => exact ⟨value, line, rfl, shaped⟩
  | _ => cases literal

theorem Items.ne_nil {element : TypeId} {items : List Expr} (h : Items element items) :
    items ≠ [] := by
  rintro rfl
  cases h.first

theorem Items.isLiteral {element : TypeId} {items : List Expr} (h : Items element items) :
    ∀ item ∈ items, item.isLiteral = true := by
  intro item mem
  obtain ⟨value, line, rfl, -⟩ := h.literals item mem
  rfl

end Shaped
end Expr

namespace Statement

/-- The statement ends with one that could go on with an `else`. -/
def endsOpen : Statement → Bool
  | .ifThen .. => true
  | .ifElse _ _ otherwise _ => otherwise.endsOpen
  | .whileLoop _ body _ | .forLoop _ _ _ body _ => body.endsOpen
  | _ => false

/-- An assignment as it is read. A declaration has a lone name in front. -/
structure Assigned (d : Draft) (declares : Bool) (target : Expr) (written : Option TypeId)
    (value : Expr) (line : Nat) : Prop where
  shaped : target.Shaped d
  chain : target.isChain = true
  place : target.isPlace = true
  fresh : declares = true → ∃ name line, target = .var name none line
  spelled : ∀ type ∈ written, d.Spelled type
  given : value.Shaped d
  sameLine : line = target.line

def ShapedStep (d : Draft) : Statement → Prop
  | .assign declares target written value line =>
    declares = false ∧ Assigned d false target written value line
  | _ => False

mutual

def Shaped (d : Draft) (statement : Statement) : Prop :=
  match statement with
  | .block statements _ => ShapedAll d statements
  | .assign declares target written value line =>
    Assigned d declares target written value line ∧ (declares = false → written = none)
  | .ret value _ => value.Shaped d
  | .ifThen condition body _ => condition.Shaped d ∧ body.Shaped d
  -- an `else` belongs to the nearest `if`
  | .ifElse condition body otherwise _ =>
    condition.Shaped d ∧ body.Shaped d ∧ body.endsOpen = false ∧ otherwise.Shaped d
  | .whileLoop condition body _ => condition.Shaped d ∧ body.Shaped d
  | .forLoop first condition step body _ =>
    (first.Shaped d ∧ first.isAssignment = true) ∧ condition.Shaped d ∧ step.ShapedStep d ∧
      body.Shaped d
  | .call callee arguments target injected line =>
    (Expr.call callee arguments target injected line).Shaped d ∧ callee.isChain = true
termination_by structural statement

def ShapedAll (d : Draft) (statements : List Statement) : Prop :=
  match statements with
  | [] => True
  | statement :: rest => statement.Shaped d ∧ ShapedAll d rest
termination_by structural statements

end

mutual

def floatFree (statement : Statement) : Bool :=
  match statement with
  | .block statements _ => allFloatFree statements
  | .assign _ target _ value _ => target.floatFree && value.floatFree
  | .ret value _ => value.floatFree
  | .ifThen condition body _ => condition.floatFree && body.floatFree
  | .ifElse condition body otherwise _ =>
    condition.floatFree && body.floatFree && otherwise.floatFree
  | .whileLoop condition body _ => condition.floatFree && body.floatFree
  | .forLoop first condition step body _ =>
    first.floatFree && condition.floatFree && step.floatFree && body.floatFree
  | .call callee arguments _ _ _ => callee.floatFree && Expr.allFloatFree arguments
termination_by structural statement

def allFloatFree (statements : List Statement) : Bool :=
  match statements with
  | [] => true
  | statement :: rest => statement.floatFree && allFloatFree rest
termination_by structural statements

end

section Shaped

variable {d e : Draft} {earlier : List Module}

theorem Assigned.mono (hd : d.Closed earlier) (h : Draft.Broadens d e) {declares : Bool}
    {target value : Expr} {written : Option TypeId} {line : Nat}
    (assigned : Assigned d declares target written value line) :
    Assigned e declares target written value line where
  shaped := Expr.shaped_mono hd h target assigned.shaped
  chain := assigned.chain
  place := assigned.place
  fresh := assigned.fresh
  spelled type mem := h.spelled hd (assigned.spelled type mem)
  given := Expr.shaped_mono hd h value assigned.given
  sameLine := assigned.sameLine

theorem shapedStep_mono (hd : d.Closed earlier) (h : Draft.Broadens d e) (step : Statement)
    (shaped : step.ShapedStep d) : step.ShapedStep e := by
  cases step with
  | assign declares target written value line => exact ⟨shaped.1, shaped.2.mono hd h⟩
  | _ => cases shaped

mutual

theorem shaped_mono (hd : d.Closed earlier) (h : Draft.Broadens d e) (statement : Statement)
    (shaped : statement.Shaped d) : statement.Shaped e := by
  cases statement with
  | block statements line => exact shapedAll_mono hd h statements shaped
  | assign declares target written value line => exact ⟨shaped.1.mono hd h, shaped.2⟩
  | ret value line => exact value.shaped_mono hd h shaped
  | ifThen condition body line =>
    exact ⟨condition.shaped_mono hd h shaped.1, shaped_mono hd h body shaped.2⟩
  | ifElse condition body otherwise line =>
    obtain ⟨test, taken, closed, other⟩ := shaped
    exact ⟨condition.shaped_mono hd h test, shaped_mono hd h body taken, closed,
      shaped_mono hd h otherwise other⟩
  | whileLoop condition body line =>
    exact ⟨condition.shaped_mono hd h shaped.1, shaped_mono hd h body shaped.2⟩
  | forLoop first condition step body line =>
    obtain ⟨⟨start, assigns⟩, test, next, repeated⟩ := shaped
    exact ⟨⟨shaped_mono hd h first start, assigns⟩, condition.shaped_mono hd h test,
      shapedStep_mono hd h step next, shaped_mono hd h body repeated⟩
  | call callee arguments target injected line =>
    exact ⟨(Expr.call callee arguments target injected line).shaped_mono hd h shaped.1, shaped.2⟩
termination_by structural statement

theorem shapedAll_mono (hd : d.Closed earlier) (h : Draft.Broadens d e)
    (statements : List Statement) (shaped : ShapedAll d statements) : ShapedAll e statements := by
  cases statements with
  | nil => trivial
  | cons statement rest =>
    exact ⟨shaped_mono hd h statement shaped.1, shapedAll_mono hd h rest shaped.2⟩
termination_by structural statements

end

end Shaped
end Statement
end ObjectLang
