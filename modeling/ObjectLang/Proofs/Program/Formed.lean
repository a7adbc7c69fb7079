import ObjectLang.Proofs.Ty.Growth
import ObjectLang.Program.Method
set_option autoImplicit false

/-!
# Trees as they are read

A tree is formed in a program if it refers to known types and functions only, if arrays are written
with literals, if nothing but object types is made with `new`, and if the step of a `for` loop
declares nothing. A call that is bound when it is read makes a list.

A program that extends another one knows all that the other knows, so trees stay formed.
-/

namespace ObjectLang

/-- What a function is from its declaration on: the number of its file, and whether it is static. -/
def Function.kind (f : Function) : Nat × Bool := (f.module, f.traits.isStatic)

namespace Program

def Declares (p : Program) (id : FunctionId) : Prop := id.index < p.functions.size

end Program

/-- All types and functions stay known, objects stay objects, and functions stay of their kind. -/
structure Program.Extends (p q : Program) : Prop where
  types : p.types.size ≤ q.types.size
  objects : ∀ id, p.types.Knows id → q.types.isObject id = p.types.isObject id
  functions : p.functions.size ≤ q.functions.size
  kinds : ∀ id, p.Declares id → (q.function id).kind = (p.function id).kind

namespace Program

namespace Extends

variable {p q r : Program}

theorem refl (p : Program) : p.Extends p :=
  ⟨Nat.le_refl _, fun _ _ => rfl, Nat.le_refl _, fun _ _ => rfl⟩

theorem knows (h : p.Extends q) {id : TypeId} (hid : p.types.Knows id) : q.types.Knows id :=
  Nat.lt_of_lt_of_le hid h.types

theorem declares (h : p.Extends q) {id : FunctionId} (hid : p.Declares id) : q.Declares id :=
  Nat.lt_of_lt_of_le hid h.functions

theorem trans (h : p.Extends q) (h' : q.Extends r) : p.Extends r where
  types := Nat.le_trans h.types h'.types
  objects id hid := (h'.objects id (h.knows hid)).trans (h.objects id hid)
  functions := Nat.le_trans h.functions h'.functions
  kinds id hid := (h'.kinds id (h.declares hid)).trans (h.kinds id hid)

theorem of_grows (h : p.types.Grows q.types) (hf : p.functions.size ≤ q.functions.size)
    (kinds : ∀ id, p.Declares id → (q.function id).kind = (p.function id).kind) :
    p.Extends q where
  types := h.size_le
  objects _ hid := h.isObject_eq hid
  functions := hf
  kinds := kinds

theorem of_types (h : p.types.Grows q.types) (hf : q.functions = p.functions) : p.Extends q :=
  .of_grows h (Nat.le_of_eq (congrArg Arena.size hf.symm)) fun id _ => by
    rw [function, function, hf]

end Extends

/-- The callee of a call that is bound when it is read: the constructor of a list type, which is
    written by its name and belongs to no file. -/
structure Makes (p : Program) (callee : Expr) (f : FunctionId) : Prop where
  declared : p.Declares f
  kind : (p.function f).kind = (0, true)
  named : ∃ name type line place,
    callee = .field (.var name (some type) line) constructorName none place

theorem Makes.mono {p q : Program} {callee : Expr} {f : FunctionId} (h : p.Extends q)
    (makes : p.Makes callee f) : q.Makes callee f :=
  ⟨h.declares makes.declared, (h.kinds f makes.declared).trans makes.kind, makes.named⟩

end Program

mutual

def Expr.Formed (p : Program) (e : Expr) : Prop :=
  match e with
  | .binary _ lhs rhs _ => lhs.Formed p ∧ rhs.Formed p
  | .literal .. | .var .. => True
  | .field base _ _ _ => base.Formed p
  | .new type _ => p.types.Knows type ∧ p.types.isObject type
  | .allocate element size _ => p.types.Knows element ∧ size.Formed p
  | .array element items _ => p.types.Knows element ∧ ∀ e ∈ items, e.isLiteral
  | .index base place _ => base.Formed p ∧ place.Formed p
  | .reference expr _ => expr.Formed p
  | .cast expr type _ => expr.Formed p ∧ p.types.Knows type
  | .call callee arguments target injected _ =>
    callee.Formed p ∧ Expr.FormedAll p arguments ∧ (∀ f ∈ target, p.Makes callee f) ∧
      injected = false
termination_by structural e

def Expr.FormedAll (p : Program) (es : List Expr) : Prop :=
  match es with
  | [] => True
  | e :: rest => e.Formed p ∧ Expr.FormedAll p rest
termination_by structural es

end

namespace Statement

def declares : Statement → Bool
  | assign declares .. => declares
  | _ => false

mutual

def Formed (p : Program) (statement : Statement) : Prop :=
  match statement with
  | .block statements _ => FormedAll p statements
  | .assign _ target written value _ =>
    target.Formed p ∧ (∀ t ∈ written, p.types.Knows t) ∧ value.Formed p
  | .ret value _ => value.Formed p
  | .ifThen condition body _ => condition.Formed p ∧ body.Formed p
  | .ifElse condition body otherwise _ =>
    condition.Formed p ∧ body.Formed p ∧ otherwise.Formed p
  | .whileLoop condition body _ => condition.Formed p ∧ body.Formed p
  | .forLoop first condition step body _ =>
    first.Formed p ∧ condition.Formed p ∧ (step.Formed p ∧ step.declares = false) ∧
      body.Formed p
  | .call callee arguments target injected line =>
    (Expr.call callee arguments target injected line).Formed p
termination_by structural statement

def FormedAll (p : Program) (statements : List Statement) : Prop :=
  match statements with
  | [] => True
  | statement :: rest => statement.Formed p ∧ FormedAll p rest
termination_by structural statements

end
end Statement

structure Function.Signed (p : Program) (f : Function) : Prop where
  parameters : ∀ x ∈ f.parameters, p.types.Knows x.type ∧ x.type ≠ .void
  returnType : p.types.Knows f.returnType

structure Function.Formed (p : Program) (f : Function) : Prop extends f.Signed p where
  body : Statement.FormedAll p f.body

mutual

theorem Expr.formed_mono {p q : Program} (h : p.Extends q) (e : Expr) (he : e.Formed p) :
    e.Formed q := by
  cases e with
  | binary op lhs rhs line => exact ⟨lhs.formed_mono h he.1, rhs.formed_mono h he.2⟩
  | literal value line => trivial
  | var name type line => trivial
  | field base name type line => exact base.formed_mono h he
  | new type line => exact ⟨h.knows he.1, (h.objects type he.1).trans he.2⟩
  | allocate element size line => exact ⟨h.knows he.1, size.formed_mono h he.2⟩
  | array element items line => exact ⟨h.knows he.1, he.2⟩
  | index array index line => exact ⟨array.formed_mono h he.1, index.formed_mono h he.2⟩
  | reference expr line => exact expr.formed_mono h he
  | cast expr type line => exact ⟨expr.formed_mono h he.1, h.knows he.2⟩
  | call callee arguments target injected line =>
    obtain ⟨hcallee, harguments, htarget, hinjected⟩ := he
    exact ⟨callee.formed_mono h hcallee, Expr.formedAll_mono h arguments harguments,
      fun f hf => (htarget f hf).mono h, hinjected⟩
termination_by structural e

theorem Expr.formedAll_mono {p q : Program} (h : p.Extends q) (es : List Expr)
    (hes : Expr.FormedAll p es) : Expr.FormedAll q es := by
  cases es with
  | nil => trivial
  | cons e rest => exact ⟨e.formed_mono h hes.1, Expr.formedAll_mono h rest hes.2⟩
termination_by structural es

end

mutual

theorem Statement.formed_mono {p q : Program} (h : p.Extends q) (statement : Statement)
    (hs : statement.Formed p) : statement.Formed q := by
  cases statement with
  | block statements line => exact Statement.formedAll_mono h statements hs
  | assign declares target written value line =>
    obtain ⟨htarget, hwritten, hvalue⟩ := hs
    exact ⟨target.formed_mono h htarget, fun t ht => h.knows (hwritten t ht),
      value.formed_mono h hvalue⟩
  | ret value line => exact value.formed_mono h hs
  | ifThen condition body line => exact ⟨condition.formed_mono h hs.1, body.formed_mono h hs.2⟩
  | ifElse condition body otherwise line =>
    obtain ⟨hcondition, hbody, hotherwise⟩ := hs
    exact ⟨condition.formed_mono h hcondition, body.formed_mono h hbody,
      otherwise.formed_mono h hotherwise⟩
  | whileLoop condition body line =>
    exact ⟨condition.formed_mono h hs.1, body.formed_mono h hs.2⟩
  | forLoop first condition step body line =>
    obtain ⟨hfirst, hcondition, ⟨hstep, hquiet⟩, hbody⟩ := hs
    exact ⟨first.formed_mono h hfirst, condition.formed_mono h hcondition,
      ⟨step.formed_mono h hstep, hquiet⟩, body.formed_mono h hbody⟩
  | call callee arguments target injected line =>
    exact (Expr.call callee arguments target injected line).formed_mono h hs
termination_by structural statement

theorem Statement.formedAll_mono {p q : Program} (h : p.Extends q)
    (statements : List Statement) (hs : Statement.FormedAll p statements) :
    Statement.FormedAll q statements := by
  cases statements with
  | nil => trivial
  | cons statement rest =>
    exact ⟨statement.formed_mono h hs.1, Statement.formedAll_mono h rest hs.2⟩
termination_by structural statements

end

theorem Function.Signed.mono {p q : Program} (h : p.Extends q) {f : Function}
    (hf : f.Signed p) : f.Signed q where
  parameters x hx := ⟨h.knows (hf.parameters x hx).1, (hf.parameters x hx).2⟩
  returnType := h.knows hf.returnType

theorem Function.Formed.mono {p q : Program} (h : p.Extends q) {f : Function}
    (hf : f.Formed p) : f.Formed q where
  toSigned := hf.toSigned.mono h
  body := Statement.formedAll_mono h f.body hf.body

theorem Statement.formedAll_append (p : Program) (front behind : List Statement) :
    Statement.FormedAll p (front ++ behind) ↔
      Statement.FormedAll p front ∧ Statement.FormedAll p behind := by
  induction front with
  | nil => simp [Statement.FormedAll]
  | cons statement rest ih => simp [Statement.FormedAll, ih, and_assoc]

end ObjectLang
