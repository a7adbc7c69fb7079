import ObjectLang.Proofs.Shapes.Scope
import ObjectLang.Proofs.Shapes.Sound
set_option autoImplicit false

/-!
# Expressions keep shapes

A checked expression of a program that keeps shapes evaluates to what its type is meant for, and to
whatever it passes for.
-/

namespace ObjectLang

open Typing

section Checked

variable {p : Program} {entered : List FunctionId} {returns : FunctionId → TypeId → Prop}
  {Γ : Scopes Meaning}

theorem Registry.passes_shape {r : Registry} {type : TypeId} (object : r.isObject type = true) :
    r.passes (.object type) (r.shape type) = true := by
  by_cases base : type = .object
  · subst base
    rw [shape]
    split <;> first | rfl | simp_all [isObject, Ty.isObject, Ty.members?]
  · rw [shape_of_isObject object base]
    exact passes_refl r _

theorem Expr.flows_any (p : Program) (e : Expr) : e.flows p .any = true := by
  cases e with
  | binary => rfl
  | literal => rfl
  | cast expr type line => exact expr.flows_any p
  | call callee arguments target injected line =>
    cases target with
    | none => exact p.types.passes_any _
    | some target =>
      change p.gives _ _ = true
      unfold Program.gives
      split
      · exact Bool.or_true _
      · exact p.types.passes_any _
  | _ => exact p.types.passes_any _
termination_by structural e

theorem Expr.flows_of_isLiteral (p : Program) {e : Expr} (literal : e.isLiteral = true) (s : Shape) :
    e.flows p s = true := by
  cases e with
  | literal => rfl
  | _ => cases literal

theorem Expr.allFlow_literals (p : Program) {es : List Expr}
    (literals : ∀ e ∈ es, e.isLiteral = true) (s : Shape) :
    Expr.allFlow p (es.map fun _ => s) es = true := by
  induction es with
  | nil => rfl
  | cons e rest ih =>
    obtain ⟨first, others⟩ := List.forall_mem_cons.1 literals
    exact Bool.and_eq_true_iff.2 ⟨e.flows_of_isLiteral p first s, ih others⟩

/-- What a call gives passes for what it is used for, if a fresh array is made for the right thing. -/
theorem Program.exists_fresh {f : Function} {s : Shape} (h : p.gives f s = true) :
    ∃ fresh, p.types.passes (p.given f fresh) s = true := by
  unfold gives at h
  unfold given
  split at h <;> rename_i host
  · simp only [if_pos host]
    cases s with
    | any => exact ⟨.plain, rfl⟩
    | array slots => exact ⟨slots, p.types.passes_refl _⟩
    | _ => cases h
  · simp only [if_neg host]
    exact ⟨.plain, h⟩

def Typing.Settles (p : Program) (entered : List FunctionId) (returns : FunctionId → TypeId → Prop) :
    Prop :=
  ∀ f type, returns f type → f ∈ entered ∧ (type = (p.function f).returnType ∨ type = .void)

namespace Typing

section Settled

variable (tables : p.Tables) (settles : Settles p entered returns)

include tables settles

theorem HasType.eq_settled {e : Expr} {type : TypeId} (h : HasType p returns Γ e type) :
    type = p.settledType e ∨ type = .void := by
  rcases h.settledType_or (E := True) tables fun f type ht =>
    (settles f type ht).2.imp_right (⟨trivial, ·⟩) with settled | ⟨-, void⟩
  · exact .inl settled
  · exact .inr void

theorem HasType.fieldType?_of_shape {base : Expr} {name : String} {owner type field : TypeId}
    (h : HasType p returns Γ base owner) (rule : fieldType p owner name = .ok field)
    (shape : p.shape base = .object type) : p.types.fieldType? type name = some field := by
  obtain ⟨object, found⟩ := fieldType_eq_ok.1 rule
  rcases h.eq_settled tables settles with settled | rfl
  · rw [Program.shape, ← settled, ← Registry.shape_dereference] at shape
    by_cases any : p.types.dereference owner = .object
    · rw [any] at shape object
      rw [Registry.shape] at shape
      split at shape <;> first | cases shape | simp_all [Registry.isObject, Ty.isObject, Ty.members?]
    · rw [Registry.shape_of_isObject object any] at shape
      cases shape
      exact found
  · have void : p.types.get .void = .primitive .void := tables.primitives .void
    simp [Registry.dereference, Registry.isObject, void, Ty.isObject, Ty.members?] at object

theorem HasType.shape_of_elementType {base : Expr} {array type : TypeId}
    (h : HasType p returns Γ base array) (rule : elementType p array = .ok type) (place : Expr)
    (line : Nat) :
    p.shape base = .array (p.types.shape type).asSlot ∧
      p.shape (.index base place line) = p.types.shape type := by
  have found := elementType_eq_ok.1 rule
  rcases h.eq_settled tables settles with settled | rfl
  · constructor
    · rw [Program.shape, ← settled, ← Registry.shape_dereference]
      exact Registry.shape_array (get_of_element? found)
    · rw [Program.shape, Program.settledType, ← settled, found, Option.getD_some]
  · rw [element?_dereference_void tables] at found
    cases found

end Settled

theorem shape_of_findArray? {element type : TypeId} (found : p.types.findArray? element = some type) :
    p.types.shape type = .array (p.types.shape element).asSlot :=
  Registry.shape_array (Registry.get_of_findArray? found)

theorem HasCallee.isStatic_of_injected {callee : Expr} {arguments : List Expr} {target : FunctionId}
    {injected : Bool} (h : HasCallee p returns Γ callee arguments target injected)
    (receives : injected = true) : (p.function target).traits.isStatic = false := by
  cases h with
  | received _ _ _ _ _ _ _ _ _ dynamic => exact dynamic
  | _ => cases receives

end Typing
end Checked

namespace Machine

open Eval

structure Setting (p : Program) (entered : List FunctionId) (returns : FunctionId → TypeId → Prop)
    (c : Context) : Prop where
  tables : p.Tables
  settles : Settles p entered returns
  shapes : p.KeepsShapes entered
  calls : c.Keeps p entered

theorem fits_of_forall₂ {types : Registry} {W : World} {es : List Expr} {s : Shape}
    {values : List Value}
    (fits : List.Forall₂ (fun s v => Value.Fits types W s v) (es.map fun _ => s) values) :
    ∀ v ∈ values, v.Fits types W s := by
  refine forall_of_forall₂ fits fun s' mem v fits => ?_
  obtain ⟨e, -, rfl⟩ := List.mem_map.1 mem
  exact fits

structure Stands (types : Registry) (depth : Nat) (Γ : Scopes Meaning) (W : World) (s : State) :
    Prop where
  heap : W.Describes types s.heap
  scopes : Mirrors types W depth Γ s.scopes

section

variable {p : Program} {types : Registry} {entered : List FunctionId}
  {returns : FunctionId → TypeId → Prop} {c : Context} {depth : Nat} {Γ : Scopes Meaning}
  {W W' : World} {s t : State}

theorem Stands.moved (h : Stands types depth Γ W s) (moved : Moved types W s W' t) :
    Stands types depth Γ W' t :=
  ⟨moved.heap, moved.frame.1 ▸ h.scopes.grows moved.grows⟩

theorem sound_readVar (h : Stands types depth Γ W s) {name : String} {type : TypeId}
    (bound : Γ.get? name = some (.value type)) (line : Nat) :
    Sound types W (fun W' v => v.Fits types W' (types.shape type)) (readVar name line) s := by
  refine Sound.read ?_
  split
  · rename_i found
    exact .pure h.heap (h.scopes.fits bound found)
  · exact .fail h.heap line _

theorem sound_readField (hW : W.Describes p.types s.heap) (agree : p.FieldsAgree) {base : Value}
    {owner field : TypeId} {name : String} (fits : base.Fits p.types W (.object owner))
    (declared : p.types.fieldType? owner name = some field) (line : Nat) :
    Sound p.types W (fun W' v => v.Fits p.types W' (p.types.shape field))
      (readField base name line) s := by
  refine (Sound.ofExcept hW line base.asObject).bind fun W' ref t moved is => ?_
  have fits := Value.eq_object_of_asObject is ▸ fits.grows moved.grows
  refine Sound.read ?_
  split
  · rename_i found
    exact .pure moved.heap (moved.heap.readField agree fits declared found)
  · exact .fail moved.heap line _

theorem sound_readSlot (hW : W.Describes types s.heap) {ref : ArrayRef} {slots : Shape}
    (fits : (Value.array ref).Fits types W (.array slots)) (index : Value) (line : Nat) :
    Sound types W (fun W' v => v.Fits types W' slots) (readSlot ref index line) s := by
  refine (Sound.ofExcept hW line index.asInt).bind fun W' i t moved _ => ?_
  refine Sound.read ?_
  refine (Sound.ofExcept moved.heap line _).bind fun W'' place u moved' _ => ?_
  exact .pure moved'.heap ((moved.heap.readSlot (fits.grows moved.grows) place).grows moved'.grows)

theorem sound_default (w : Setting p entered returns c) (hW : W.Describes p.types s.heap)
    (type : TypeId) : Sound p.types W (fun W' v => v.Fits p.types W' (p.types.shape type).asSlot)
      (Eval.onHeap fun h => h.default c.program.types type) s := by
  rw [w.calls.program]
  exact .onHeap (hW.default type)

theorem sound_instantiate (w : Setting p entered returns c) (hW : W.Describes p.types s.heap)
    {type : TypeId} (known : p.types.Knows type) :
    Sound p.types W (fun W' v => v.Fits p.types W' (.object type))
      (Eval.onHeap fun h => h.instantiate c.program.types type) s := by
  rw [w.calls.program]
  exact .onHeap (hW.instantiate w.shapes.fields known)

mutual

/-- A checked expression evaluates to whatever it passes for. -/
theorem sound_eval (w : Setting p entered returns c) (e : Expr) {type : TypeId} {d : Shape}
    (typed : HasType p returns Γ e type) (keeps : e.keepsShapes p = true) (flows : e.flows p d = true)
    {W : World} {s : State}
    (h : Stands p.types depth Γ W s) :
    Sound p.types W (fun W' v => v.Fits p.types W' d) (eval c e) s := by
  cases typed with
  | binary op lhs rhs line a b _ left right rule =>
    obtain ⟨keepsL, keepsR⟩ := Bool.and_eq_true_iff.1 keeps
    refine (sound_eval w lhs left keepsL (lhs.flows_any p) h).bind fun _ _ _ moved _ => ?_
    have h := h.moved moved
    refine (sound_eval w rhs right keepsR (rhs.flows_any p) h).bind fun _ _ _ moved _ => ?_
    exact (Sound.ofExcept moved.heap line _).mono fun _ _ _ ok =>
      Value.fits_of_isScalar (BinaryOperator.isScalar_apply ok)
  | literal value line => exact .pure h.heap (Value.fits_of_isScalar (Value.isScalar_ofLiteral value))
  | var name _ line bound =>
    exact (sound_readVar h bound line).mono fun _ _ _ fits => fits.passes flows
  | field base name line owner _ object rule =>
    obtain ⟨keeps, isObject⟩ := Bool.and_eq_true_iff.1 keeps
    obtain ⟨keeps, steady⟩ := Bool.and_eq_true_iff.1 keeps
    cases shape : p.shape base with
    | object owner' =>
      have declared := object.fieldType?_of_shape w.tables w.settles rule shape
      refine (sound_eval w base object keeps steady h).bind fun _ _ _ moved fits => ?_
      exact (sound_readField moved.heap w.shapes.fields (shape ▸ fits) declared line).mono
        fun _ _ _ fits => fits.passes flows
    | _ => rw [shape] at isObject; cases isObject
  | new _ line known object =>
    exact (sound_instantiate w h.heap known).mono fun _ _ _ fits =>
      (fits.passes (Registry.passes_shape object)).passes flows
  | allocate element size line count _ sized rule found =>
    have shape := shape_of_findArray? found
    have flows : p.types.passes (p.types.shape (p.settledType (.allocate element size line))) d =
      true := flows
    rw [Program.settledType, found, Option.getD_some, shape] at flows
    refine (sound_eval w size sized keeps (size.flows_any p) h).bind fun _ _ _ moved _ => ?_
    refine (Sound.ofExcept moved.heap line _).bind fun _ _ _ moved _ => ?_
    refine (Sound.ofExcept moved.heap line _).bind fun _ _ _ moved _ => ?_
    refine (sound_default w moved.heap element).bind fun _ _ _ moved fits => ?_
    exact (sound_allocate moved.heap ((Shape.asSlot_asSlot _).symm ▸ fits) line _).mono
      fun _ _ _ fits => fits.passes flows
  | array element items line types _ literals typed rule found =>
    have shape := shape_of_findArray? found
    have flows : p.types.passes (p.types.shape (p.settledType (.array element items line))) d =
      true := flows
    rw [Program.settledType, found, Option.getD_some, shape] at flows
    refine (sound_evalAll w items typed keeps (Expr.allFlow_literals p literals
      (p.types.shape element).asSlot) h).bind fun _ values _ moved fits => ?_
    have stored (v : Value) (mem : v ∈ values.toArray) :
        v.Fits p.types _ (p.types.shape element).asSlot.asSlot :=
      (Shape.asSlot_asSlot _).symm ▸ fits_of_forall₂ fits v (List.mem_toArray.1 mem)
    obtain ⟨W', grows, hW', fits⟩ := moved.heap.newArray stored
    exact .onHeap ⟨W', grows, hW', fits.passes flows⟩
  | index base place line array index _ stored rule placed int =>
    obtain ⟨keeps, keepsP⟩ := Bool.and_eq_true_iff.1 keeps
    obtain ⟨keepsB, steady⟩ := Bool.and_eq_true_iff.1 keeps
    obtain ⟨shape, read⟩ := stored.shape_of_elementType w.tables w.settles rule place line
    have flows : p.types.passes (p.shape (.index base place line)) d = true := flows
    rw [read] at flows
    refine (sound_eval w base stored keepsB steady h).bind fun _ v _ moved fits => ?_
    have h := h.moved moved
    refine (Sound.ofExcept moved.heap line v.asArray).bind fun _ ref _ moved is => ?_
    have h := h.moved moved
    refine (sound_eval w place placed keepsP (place.flows_any p) h).bind fun _ _ _ moved' _ => ?_
    have fits := Value.eq_array_of_asArray is ▸ shape ▸ (fits.grows moved.grows).grows moved'.grows
    exact (sound_readSlot moved'.heap fits _ line).mono fun _ _ _ fits =>
      (fits.passes (p.types.passes_asSlot _)).passes flows
  | reference expr line referent _ named typed found =>
    have shape : p.shape (.reference expr line) = p.shape expr := by
      rw [Program.shape, Program.settledType, typed.settledType_name named, found, Option.getD_some,
        Registry.shape_reference (Registry.get_of_findReference? found), Program.shape,
        typed.settledType_name named]
    have flows : p.types.passes (p.shape (.reference expr line)) d = true := flows
    refine sound_eval w expr typed keeps ?_ h
    rw [shape] at flows
    cases expr with
    | var => exact flows
    | field => exact flows
    | _ => cases named
  | cast expr _ line source typed known =>
    refine (sound_eval w expr typed keeps flows h).bind fun _ v _ moved fits => ?_
    refine (Sound.ofExcept moved.heap line _).mono fun _ _ grows ok => ?_
    rcases Value.cast_cases ok with rfl | plain
    · exact fits.grows grows
    · exact Value.fits_of_isScalar plain
  | call callee arguments target injected line types _ leads typed arity pairs receiver result =>
    obtain ⟨keeps, expected⟩ := Bool.and_eq_true_iff.1 keeps
    obtain ⟨fresh, passes⟩ := Program.exists_fresh flows
    have known := (w.settles _ _ result).1
    refine (sound_evalAll w arguments typed keeps expected h).bind fun _ _ _ moved fits => ?_
    exact (sound_callTarget w.calls moved.heap known (w.shapes.methods target known)
      leads.isStatic_of_injected fits fresh line).mono fun _ _ _ fits => fits.passes passes
termination_by structural e

theorem sound_evalAll (w : Setting p entered returns c) (es : List Expr) {types : List TypeId}
    {shapes : List Shape} (typed : HaveTypes p returns Γ es types) (keeps : Expr.allKeepShapes p es = true)
    (flows : Expr.allFlow p shapes es = true) {W : World} {s : State}
    (h : Stands p.types depth Γ W s) :
    Sound p.types W (fun W' vs => List.Forall₂ (fun d v => Value.Fits p.types W' d v) shapes vs)
      (evalAll c es) s := by
  cases typed with
  | nil =>
    cases shapes with
    | nil => exact .pure h.heap .nil
    | cons => cases flows
  | cons e rest type types head tail =>
    cases shapes with
    | nil => cases flows
    | cons d shapes =>
      obtain ⟨keepsE, keepsR⟩ := Bool.and_eq_true_iff.1 keeps
      obtain ⟨flowsE, flowsR⟩ := Bool.and_eq_true_iff.1 flows
      refine (sound_eval w e head keepsE flowsE h).bind fun _ _ _ moved first => ?_
      refine (sound_evalAll w rest tail keepsR flowsR (h.moved moved)).bind
        fun _ _ _ moved others => ?_
      exact .pure moved.heap (.cons (first.grows moved.grows) others)
termination_by structural es

end

end
end Machine
end ObjectLang
