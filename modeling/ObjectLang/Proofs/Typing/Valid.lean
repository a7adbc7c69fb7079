import ObjectLang.Proofs.Grammar.File
import ObjectLang.Proofs.Typing.Revisit
set_option autoImplicit false

/-!
# Valid states of checking

A state is valid if its tables are closed, if the bodies of functions that are not entered yet are
formed, and if more nested calls may be entered than there are functions left. What has been found
about an expression is stated for all later states: there it has the type, under every account of
return types that agrees with the present one on the functions that are checked by now.
-/

namespace ObjectLang.Typing

/-- What holds whenever a function may be entered; `depth` more of them can be nested. -/
structure Valid (modules : List Module) (depth : Nat) (s : State) : Prop where
  tables : s.program.Tables
  visible : ∀ m ∈ modules, m.Closed s.program
  read : ∀ id, s.program.Declares id → (s.program.function id).module < modules.length
  bodies : ∀ id, id ∉ s.checked → Statement.FormedAll s.program (s.program.function id).body
  distinct : s.checked.Nodup
  declared : ∀ id ∈ s.checked, s.program.Declares id
  room : s.program.functions.size < depth + s.checked.length

/-- What calls are taken for: for what their targets return, or, before that is decided, for
    `Void`. The targets have been entered. -/
def Accounts (s : State) (f : FunctionId) (type : TypeId) : Prop :=
  f ∈ s.checked ∧ (type = (s.program.function f).returnType ∨ type = .void)

def Correct (modules : List Module) (s : State) (id : FunctionId) : Prop :=
  (s.program.function id).isNative = true ∨
    ∃ m Γ, modules[(s.program.function id).module]? = some m ∧
      ChecksAll s.program (Accounts s) id (functionScopes m s.program (s.program.function id))
        (s.program.function id).body Γ

/-- The body of a function is what a check without errors has made of `raw`. -/
def Walked (modules : List Module) (raw : List Statement) (s : State) (id : FunctionId) : Prop :=
  (s.program.function id).isNative = true ∨
    ∃ m depth v, modules[(s.program.function id).module]? = some m ∧
      v.scopes = functionScopes m s.program (s.program.function id) ∧ id ∈ v.checked ∧
      v.program.Evolves s.program ∧
      (checkAll ⟨modules, id, checkWithin modules depth⟩ raw v).2.Clean ∧
      (s.program.function id).body = (checkAll ⟨modules, id, checkWithin modules depth⟩ raw v).1

/-- How valid states go on: whatever is entered on the way is left, and typed from then on. -/
structure Advances (modules : List Module) (depth : Nat) (O : FunctionId → Prop)
    (s t : State) : Prop extends Later O s t where
  valid : Valid modules depth t
  entered : ∀ id, O id → id ∈ s.checked
  sound : ∀ id ∈ t.checked, id ∉ s.checked →
    ∀ O' u, ¬O' id → Later O' t u →
      Correct modules u id ∧ Walked modules (s.program.function id).body u id

namespace Advances

variable {modules : List Module} {depth : Nat} {O : FunctionId → Prop} {s t u : State}

theorem refl (h : Valid modules depth s) (entered : ∀ id, O id → id ∈ s.checked) :
    Advances modules depth O s s :=
  ⟨.refl O s, h, entered, fun _ hid hno => absurd hid hno⟩

theorem trans (h : Advances modules depth O s t) (h' : Advances modules depth O t u) :
    Advances modules depth O s u := by
  refine ⟨h.toLater.trans h'.toLater, h'.valid, h.entered, ?_⟩
  intro id hid hno O' w left hw
  by_cases ht : id ∈ t.checked
  · have closed : ¬(O id ∨ O' id) := fun open_ => open_.elim (fun ho => hno (h.entered id ho)) left
    exact h.sound id ht hno (fun f => O f ∨ O' f) w closed (h'.toLater.append hw)
  · rw [← h.untouched id ht]
    exact h'.sound id hid ht O' w left hw

theorem mono {O' : FunctionId → Prop} (h : Advances modules depth O s t)
    (hO : ∀ id, O id → O' id) (entered : ∀ id, O' id → id ∈ s.checked) :
    Advances modules depth O' s t :=
  ⟨h.toLater.mono hO, h.valid, entered, h.sound⟩

end Advances

section Found

variable {modules : List Module} {depth : Nat} {Γ : Scopes Meaning} {s t : State}

/-- The expression has the type in all later states. -/
def Types (Γ : Scopes Meaning) (t : State) (e : Expr) (type : TypeId) : Prop :=
  ∀ O u returns, Later O t u →
    (∀ f ∈ t.checked, returns f (t.program.function f).returnType) →
      HasType u.program returns Γ e type

def TypesAll (Γ : Scopes Meaning) (t : State) (es : List Expr) (types : List TypeId) : Prop :=
  ∀ O u returns, Later O t u →
    (∀ f ∈ t.checked, returns f (t.program.function f).returnType) →
      HaveTypes u.program returns Γ es types

def LeadsTo (Γ : Scopes Meaning) (t : State) (callee : Expr) (es : List Expr) (target : FunctionId)
    (injected : Bool) : Prop :=
  ∀ O u returns, Later O t u →
    (∀ f ∈ t.checked, returns f (t.program.function f).returnType) →
      HasCallee u.program returns Γ callee es target injected

theorem returns_of_keeps {returns : FunctionId → TypeId → Prop} (h : Keeps s t)
    (hr : ∀ f ∈ t.checked, returns f (t.program.function f).returnType) :
    ∀ f ∈ s.checked, returns f (s.program.function f).returnType := by
  intro f hf
  have same := hr f (h.toLater.mem hf)
  rw [h.function_eq hf] at same
  exact same

theorem Types.keeps {e : Expr} {type : TypeId} (he : Types Γ s e type) (h : Keeps s t) :
    Types Γ t e type :=
  fun O u returns hu hr => he O u returns ((h.later O).trans hu) (returns_of_keeps h hr)

theorem TypesAll.keeps {es : List Expr} {types : List TypeId} (hes : TypesAll Γ s es types)
    (h : Keeps s t) : TypesAll Γ t es types :=
  fun O u returns hu hr => hes O u returns ((h.later O).trans hu) (returns_of_keeps h hr)

theorem LeadsTo.keeps {callee : Expr} {es : List Expr} {target : FunctionId} {injected : Bool}
    (leads : LeadsTo Γ s callee es target injected) (h : Keeps s t) :
    LeadsTo Γ t callee es target injected :=
  fun O u returns hu hr => leads O u returns ((h.later O).trans hu) (returns_of_keeps h hr)

def Present (s : State) (f : FunctionId) (type : TypeId) : Prop :=
  f ∈ s.checked ∧ type = (s.program.function f).returnType

theorem Types.present {e : Expr} {type : TypeId} (he : Types Γ s e type) :
    HasType s.program (Present s) Γ e type :=
  he (fun _ => False) s (Present s) (.refl _ s) fun _ hf => ⟨hf, rfl⟩

theorem TypesAll.present {es : List Expr} {types : List TypeId} (hes : TypesAll Γ s es types) :
    HaveTypes s.program (Present s) Γ es types :=
  hes (fun _ => False) s (Present s) (.refl _ s) fun _ hf => ⟨hf, rfl⟩

theorem Types.accounts {O : FunctionId → Prop} {e : Expr} {type : TypeId}
    (he : Types Γ s e type) (h : Later O s t) : HasType t.program (Accounts t) Γ e type := by
  refine he O t (Accounts t) h fun f hf => ⟨h.mem hf, ?_⟩
  rcases h.settled f hf with same | ⟨-, -, same | infers⟩
  · exact .inl (same ▸ rfl)
  · exact .inl same.symm
  · have void := (Bool.and_eq_true_iff.1 infers).2
    exact .inr (beq_iff_eq.1 void)

theorem KnownScopes.evolves {p q : Program} (h : p.Evolves q) (known : KnownScopes p Γ) :
    KnownScopes q Γ :=
  fun name type hname => h.types.knows (known name type hname)

theorem Types.knows {e : Expr} {type : TypeId} (he : Types Γ s e type) (tables : s.program.Tables)
    (known : KnownScopes s.program Γ) : s.program.types.Knows type := by
  refine he.present.knows tables known fun f t ht => ?_
  rw [ht.2]
  exact (tables.signatures f).returnType

theorem TypesAll.knows {es : List Expr} {types : List TypeId} (hes : TypesAll Γ s es types)
    (tables : s.program.Tables) (known : KnownScopes s.program Γ) :
    ∀ t ∈ types, s.program.types.Knows t := by
  refine hes.present.knows tables known fun f t ht => ?_
  rw [ht.2]
  exact (tables.signatures f).returnType

structure Typed {n : Nat} (modules : List Module) (depth : Nat) (s : State) (v : Visited n)
    (type : TypeId) : Prop where
  advances : Advances modules depth (fun _ => False) s v.state
  types : Types s.scopes v.state v.expr type

structure TypedAll {n : Nat} (modules : List Module) (depth : Nat) (s : State)
    (v : VisitedList n) (types : List TypeId) : Prop where
  advances : Advances modules depth (fun _ => False) s v.state
  types : TypesAll s.scopes v.state v.exprs types

/-- Calls check their targets in valid states, those that are checked already do nothing. -/
structure Context.Sound (c : Context) (modules : List Module) (depth : Nat) : Prop where
  modules_eq : c.modules = modules
  nested : ∃ n, c.checkTarget = checkWithin modules n
  keeping : c.Keeping
  skips : ∀ target s, target ∈ s.checked → c.checkTarget target s = s
  checks : ∀ target s, Valid modules depth s → s.program.Declares target →
    (c.checkTarget target s).Clean →
      Advances modules depth (fun _ => False) s (c.checkTarget target s) ∧
        target ∈ (c.checkTarget target s).checked

end Found
end ObjectLang.Typing
