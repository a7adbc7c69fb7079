import ObjectLang.Proofs.Shapes.World
import ObjectLang.Proofs.Typing.Function
set_option autoImplicit false

/-!
# Variables of a shape

The variables of a call mirror the scopes that its body was checked in: segment by segment the same
names are bound, and every value fits the type that its name has there. Types that are visible by
name lie below all segments and have no counterpart.
-/

namespace ObjectLang

open Typing

namespace Scopes

variable {α : Type}

theorem openSegment_eq_foldl (s : Scopes α) (seed : List (String × α)) :
    s.openSegment seed = seed.foldl (fun s x => s.push x.1 x.2) (s.openSegment []) := by
  suffices ∀ front, s.openSegment (front ++ seed) =
      seed.foldl (fun s x => s.push x.1 x.2) (s.openSegment front) from this []
  induction seed with
  | nil => exact fun front => by rw [List.append_nil]; rfl
  | cons x rest ih =>
    intro front
    have next : (s.openSegment front).push x.1 x.2 = s.openSegment (front ++ [x]) := by
      simp [openSegment, push]
    rw [List.foldl_cons, next, ← ih, List.append_assoc, List.singleton_append]

theorem set?_push (s : Scopes α) (key name : String) (old value : α) :
    (s.push key old).set? name value =
      if key = name then some (s.push key value) else (s.set? name value).map (·.push key old) := by
  by_cases same : key = name
  · simp only [set?, push, replace, if_pos same, Option.map_some]
  · simp only [set?, push, replace, if_neg same]
    cases replace name value s.bindings <;> rfl

theorem set?_openSegment (s : Scopes α) (name : String) (value : α) :
    (s.openSegment []).set? name value = (s.set? name value).map (·.openSegment []) := by
  simp only [set?, openSegment, List.reverse_nil, List.nil_append]
  cases replace name value s.bindings <;> rfl

end Scopes

/-- The variables in `σ` fit what the names mean in `Γ`, which has `depth` segments open above the
    names of types. -/
inductive Mirrors (types : Registry) (W : World) : Nat → Scopes Meaning → Scopes Value → Prop
  | ground (Γ : Scopes Meaning) (none : ∀ name type, Γ.get? name ≠ some (.value type)) :
    Mirrors types W 0 Γ .empty
  | opened (depth : Nat) (Γ : Scopes Meaning) (σ : Scopes Value) (below : Mirrors types W depth Γ σ) :
    Mirrors types W (depth + 1) (Γ.openSegment []) (σ.openSegment [])
  | push (depth : Nat) (Γ : Scopes Meaning) (σ : Scopes Value) (name : String) (type : TypeId)
    (value : Value) (below : Mirrors types W (depth + 1) Γ σ)
    (fits : value.Fits types W (types.shape type)) :
    Mirrors types W (depth + 1) (Γ.push name (.value type)) (σ.push name value)

namespace Mirrors

variable {types : Registry} {W W' : World} {depth : Nat} {Γ : Scopes Meaning} {σ : Scopes Value}
  {name : String} {type : TypeId} {value : Value}

theorem grows (h : Mirrors types W depth Γ σ) (grows : W.Grows W') :
    Mirrors types W' depth Γ σ := by
  induction h with
  | ground Γ none => exact .ground Γ none
  | opened depth Γ σ below ih => exact .opened depth Γ σ ih
  | push depth Γ σ name type value below fits ih =>
    exact .push depth Γ σ name type value ih (fits.grows grows)

theorem fits (h : Mirrors types W depth Γ σ) (bound : Γ.get? name = some (.value type))
    (found : σ.get? name = some value) : value.Fits types W (types.shape type) := by
  induction h with
  | ground Γ none => exact absurd bound (none name type)
  | opened depth Γ σ below ih => exact ih bound found
  | push depth Γ σ key type' value' below fits ih =>
    by_cases same : name = key
    · subst same
      rw [Scopes.get?_push_self] at bound found
      cases bound
      cases found
      exact fits
    · rw [Scopes.get?_push_of_ne _ same] at bound found
      exact ih bound found

theorem set? {σ' : Scopes Value} (h : Mirrors types W depth Γ σ)
    (bound : Γ.get? name = some (.value type)) (fits : value.Fits types W (types.shape type))
    (done : σ.set? name value = some σ') : Mirrors types W depth Γ σ' := by
  induction h generalizing σ' with
  | ground Γ none => exact absurd bound (none name type)
  | opened depth Γ σ below ih =>
    rw [Scopes.set?_openSegment] at done
    obtain ⟨τ, inside, rfl⟩ := Option.map_eq_some_iff.1 done
    exact .opened depth Γ τ (ih bound inside)
  | push depth Γ σ key type' value' below fits' ih =>
    rw [Scopes.set?_push] at done
    split at done
    · rename_i same
      subst same
      rw [Scopes.get?_push_self] at bound
      cases bound
      cases done
      exact .push depth Γ σ key type value below fits
    · rename_i ne
      rw [Scopes.get?_push_of_ne _ (Ne.symm ne)] at bound
      obtain ⟨τ, inside, rfl⟩ := Option.map_eq_some_iff.1 done
      exact .push depth Γ τ key type' value' (ih bound inside) fits'

theorem closed (h : Mirrors types W (depth + 1) Γ σ) :
    Mirrors types W depth Γ.closeSegment σ.closeSegment := by
  generalize same : depth + 1 = n at h
  induction h with
  | ground => cases same
  | opened depth' Γ σ below ih =>
    cases same
    rw [Scopes.closeSegment_openSegment, Scopes.closeSegment_openSegment]
    exact below
  | push depth' Γ σ name type value below fits ih =>
    rw [Scopes.closeSegment_push, Scopes.closeSegment_push]
    exact ih same

theorem bind (h : Mirrors types W (depth + 1) Γ σ) {parameters : List Parameter}
    {arguments : List Value} (fits : List.Forall₂ (fun s v => Value.Fits types W s v)
      ((parameters.map Parameter.type).map types.shape) arguments) :
    Mirrors types W (depth + 1)
      ((parameters.map fun x => (x.name, Meaning.value x.type)).foldl
        (fun s x => s.push x.1 x.2) Γ)
      (((parameters.map Parameter.name).zip arguments).foldl (fun s x => s.push x.1 x.2) σ) := by
  induction parameters generalizing arguments Γ σ with
  | nil => exact h
  | cons x rest ih =>
    cases fits with
    | cons head tail => exact ih (.push depth Γ σ x.name x.type _ h head) tail

theorem frame (m : Module) (p : Program) {f : Function} {arguments : List Value}
    (fits : List.Forall₂ (fun s v => Value.Fits types W s v) (f.parameterTypes.map types.shape)
      arguments) :
    Mirrors types W 1 (functionScopes m p f)
      (Scopes.empty.openSegment ((f.parameters.map Parameter.name).zip arguments)) := by
  let named := (m.visibleObjectTypes p).map fun t => (p.types.name t, Meaning.type t)
  have none : ∀ name type, (Scopes.empty.openSegment named).get? name ≠ some (.value type) := by
    intro name type bound
    obtain ⟨front, behind, split, -⟩ := List.lookup_eq_some_iff.1 bound
    have mem : (name, Meaning.value type) ∈ (Scopes.empty.openSegment named).bindings :=
      split ▸ List.mem_append_right _ List.mem_cons_self
    simp [Scopes.openSegment, Scopes.empty, named] at mem
  have start : Mirrors types W 1 ((Scopes.empty.openSegment named).openSegment [])
      (Scopes.empty.openSegment []) := .opened 0 _ _ (.ground _ none)
  have whole := start.bind fits
  rw [← Scopes.openSegment_eq_foldl, ← Scopes.openSegment_eq_foldl] at whole
  exact whole

end Mirrors
end ObjectLang
