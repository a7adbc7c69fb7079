import ObjectLang.Proofs.Calls.Accepted
import ObjectLang.Proofs.Calls.Attached
import ObjectLang.Typing.Rule
set_option autoImplicit false

/-!
# Overriding along a chain of types

The first type of a chain declares a virtual method, and types behind it may override that. What a
declaration is compared with is the nearest method above its type: if that is virtual, the method
joins, and if it only overrides, the method is refused. A call looks for the nearest method at or
above the type of the receiver, whatever the static type of the receiver is.
-/

namespace ObjectLang

namespace Program

def declareMethod (p : Program) (owner : TypeId) (f : Function) : Except SyntaxError Program :=
  (p.addFunction f).2.addMethod owner (p.addFunction f).1

/-- The declaration nearest at or above a place of the chain, of those made at places. The latest
    declarations come first. -/
def nearest? (declared : List (Nat × FunctionId)) : Nat → Option FunctionId
  | 0 => declared.lookup 0
  | i + 1 => (declared.lookup (i + 1)).or (nearest? declared i)

section Chain

variable (chain : Nat → TypeId) (n : Nat) (name : String) (further : Traits)

/-- The types up to place `n` are a chain as far as they are declared, each derived from the one in
    front of it. -/
structure IsChain (p : Program) : Prop where
  first : p.types.isObject (chain 0) = true
  parents : ∀ i < n, p.types.Knows (chain (i + 1)) →
    p.types.parent? (chain (i + 1)) = some (chain i)

/-- Whatever happened between `p` and `q`, it left the methods of that name on the chain alone. -/
structure Apart (p q : Program) : Prop where
  chained : q.IsChain chain n
  own : ∀ i ≤ n, (q.types.get (chain i)).ownMethod? name = (p.types.get (chain i)).ownMethod? name
  declares : p.functions.size ≤ q.functions.size
  kept : ∀ i ≤ n, ∀ id, (p.types.get (chain i)).ownMethod? name = some id →
    (q.function id).name = (p.function id).name ∧ (q.function id).traits = (p.function id).traits

/-- A declaration that overrides, with the further traits of the first one; it may be virtual as
    well. -/
structure Overrides (f : Function) : Prop where
  named : f.name = name
  traits : f.traits = { further with isOverride := true, isVirtual := f.traits.isVirtual }

/-- How programs come about in which the first type of a chain declares a virtual method and others
    behind it override that, with anything else in between. The declarations are given by the
    places of their types. -/
inductive Descent : List (Nat × FunctionId) → Program → Prop
  | first (p q : Program) (f : Function) (chained : p.IsChain chain n)
      (unused : ∀ i ≤ n, (p.types.get (chain i)).ownMethod? name = none) (named : f.name = name)
      (traits : f.traits = { further with isVirtual := true })
      (joined : p.declareMethod (chain 0) f = .ok q) :
    Descent [(0, (p.addFunction f).1)] q
  | override (declared : List (Nat × FunctionId)) (p q : Program) (i : Nat) (f : Function)
      (front : Descent declared p) (inside : i < n) (overrides : Overrides name further f)
      (joined : p.declareMethod (chain (i + 1)) f = .ok q) :
    Descent ((i + 1, (p.addFunction f).1) :: declared) q
  | apart (declared : List (Nat × FunctionId)) (p q : Program) (front : Descent declared p)
      (between : Apart chain n name p q) : Descent declared q

end Chain

variable {chain : Nat → TypeId} {n : Nat} {name : String} {further : Traits} {p q : Program}
  {declared : List (Nat × FunctionId)}

namespace IsChain

theorem knows_le (h : p.IsChain chain n) {i k : Nat} (inside : i ≤ n)
    (known : p.types.Knows (chain i)) (le : k ≤ i) : p.types.Knows (chain k) := by
  induction i with
  | zero => exact Nat.le_zero.1 le ▸ known
  | succ i ih =>
    rcases Nat.le_succ_iff.1 le with le | rfl
    · have parent := h.parents i inside known
      exact ih (Nat.le_of_succ_le inside) (Nat.lt_trans (Registry.parent?_lt _ parent) known) le
    · exact known

theorem lt_of_lt (h : p.IsChain chain n) {i k : Nat} (inside : i ≤ n)
    (known : p.types.Knows (chain i)) (lt : k < i) : (chain k).index < (chain i).index := by
  induction i with
  | zero => exact absurd lt (Nat.not_lt_zero k)
  | succ i ih =>
    have parent := Registry.parent?_lt _ (h.parents i inside known)
    rcases Nat.lt_succ_iff_lt_or_eq.1 lt with lt | rfl
    · have known' := h.knows_le inside known (Nat.le_succ i)
      exact Nat.lt_trans (ih (Nat.le_of_succ_le inside) known' lt) parent
    · exact parent

theorem ne (h : p.IsChain chain n) {i k : Nat} (insideI : i ≤ n) (insideK : k ≤ n)
    (known : p.types.Knows (chain i)) (ne : k ≠ i) : chain k ≠ chain i := by
  intro same
  rcases Nat.lt_or_gt_of_ne ne with lt | lt
  · exact absurd (same ▸ h.lt_of_lt insideI known lt) (Nat.lt_irrefl _)
  · exact absurd (same ▸ h.lt_of_lt insideK (same ▸ known) lt) (Nat.lt_irrefl _)

theorem isObject (h : p.IsChain chain n) {i : Nat} (inside : i ≤ n)
    (known : p.types.Knows (chain i)) : p.types.isObject (chain i) = true := by
  cases i with
  | zero => exact h.first
  | succ i =>
    have parent := h.parents i inside known
    rw [Registry.parent?] at parent
    cases stored : p.types.get (chain (i + 1)) <;> rw [stored] at parent <;> cases parent
    rw [Registry.isObject, stored]
    rfl

theorem adopt (h : p.IsChain chain n) (owner : TypeId) (id : FunctionId) :
    (p.adopt owner id).IsChain chain n where
  first := (Registry.isObject_modifyMembers _ _ _ _).trans h.first
  parents i inside known := by
    have known' : p.types.Knows (chain (i + 1)) :=
      Nat.lt_of_lt_of_le known (Nat.le_of_eq (Registry.size_modifyMembers _ _ _))
    exact ((p.keepsShape_adopt owner id).parent?_eq known').trans (h.parents i inside known')

end IsChain

theorem declareMethod_eq_ok {owner : TypeId} {f : Function} :
    p.declareMethod owner f = .ok q ↔ (p.addFunction f).2.methodFault? owner f = none ∧
      q = (p.addFunction f).2.adopt owner (p.addFunction f).1 := by
  have new : (p.addFunction f).2.function (p.addFunction f).1 = f := by
    rw [function_addFunction, if_pos rfl]
  rw [declareMethod, addMethod, Shared.run_addMethod, new]
  cases (p.addFunction f).2.methodFault? owner f <;> simp [eq_comm]

end Program

namespace Traits

/-- The traits are the further ones, apart from how the method is looked up. -/
structure Bears (further t : Traits) : Prop where
  same : t = { further with isOverride := t.isOverride, isVirtual := t.isVirtual }
  dispatched : t.isDispatched = true

theorem mayOverride_of_bears {further own inherited : Traits} (h : further.Bears own)
    (h' : further.Bears inherited) (overrides : own.isOverride = true) :
    own.mayOverride inherited = inherited.isVirtual := by
  rw [mayOverride, h.same, h'.same, overrides]
  cases inherited.isVirtual <;> simp [union]

end Traits

namespace Function

theorem traits_asMethod {f : Function} (plain : f.name ≠ constructorName) (owner : TypeId) :
    (f.asMethod owner).traits = f.traits := by
  unfold asMethod withReceiver
  dsimp only
  split <;> rfl

end Function

namespace Program

variable {chain : Nat → TypeId} {n : Nat} {name : String} {further : Traits} {p q : Program}
  {declared : List (Nat × FunctionId)}

/-- The methods of that name on the chain are those that were declared. -/
structure Chained (chain : Nat → TypeId) (n : Nat) (name : String) (further : Traits)
    (declared : List (Nat × FunctionId)) (p : Program) : Prop extends p.IsChain chain n where
  own : ∀ i ≤ n, (p.types.get (chain i)).ownMethod? name = declared.lookup i
  declares : ∀ i ≤ n, ∀ id, declared.lookup i = some id → p.Declares id
  methods : ∀ i ≤ n, ∀ id, declared.lookup i = some id →
    (p.function id).name = name ∧ further.Bears (p.function id).traits

namespace Chained

variable {f : Function}

theorem findMethod?_eq (h : Chained chain n name further declared p)
    (base : (declared.lookup 0).isSome = true) {i : Nat} (inside : i ≤ n)
    (known : p.types.Knows (chain i)) :
    p.types.findMethod? (chain i) name = nearest? declared i := by
  induction i with
  | zero =>
    obtain ⟨id, first⟩ := Option.isSome_iff_exists.1 base
    rw [nearest?, first]
    exact Registry.findMethod?_own ((h.own 0 inside).trans first)
  | succ i ih =>
    have parent := h.parents i inside known
    have known' := h.knows_le inside known (Nat.le_succ i)
    rw [nearest?]
    cases own : declared.lookup (i + 1) with
    | some id => exact Registry.findMethod?_own ((h.own _ inside).trans own)
    | none =>
      rw [Registry.findMethod?_inherited parent ((h.own _ inside).trans own),
        ih (Nat.le_of_succ_le inside) known', Option.none_or]

theorem addFunction (h : Chained chain n name further declared p) (f : Function) :
    Chained chain n name further declared (p.addFunction f).2 where
  toIsChain := ⟨h.first, h.parents⟩
  own := h.own
  declares i inside id found := (extends_addFunction p f).declares (h.declares i inside id found)
  methods i inside id found := by
    rw [function_of_declares_addFunction f (h.declares i inside id found)]
    exact h.methods i inside id found

theorem adopt (h : Chained chain n name further declared p) {i : Nat} (inside : i ≤ n)
    (known : p.types.Knows (chain i)) {id : FunctionId} (declares : p.Declares id)
    (fresh : ∀ k ≤ n, declared.lookup k ≠ some id) (named : (p.function id).name = name)
    (plain : name ≠ constructorName) (bears : further.Bears (p.function id).traits) :
    Chained chain n name further ((i, id) :: declared) (p.adopt (chain i) id) where
  toIsChain := h.toIsChain.adopt (chain i) id
  own k insideK := by
    rw [List.lookup_cons]
    by_cases same : k = i
    · rw [same, ownMethod?_adopt (h.isObject inside known), named, if_pos rfl, beq_self_eq_true]
    · have other : (p.adopt (chain i) id).types.get (chain k) = p.types.get (chain k) :=
        (Registry.get_modifyMembers _ _ _ _).trans
          (if_neg (h.toIsChain.ne inside insideK known same))
      rw [other, h.own k insideK, beq_false_of_ne same]
  declares k insideK other found := by
    refine (extends_adopt p (chain i) id).declares ?_
    rw [List.lookup_cons] at found
    split at found
    · exact Option.some.inj found ▸ declares
    · exact h.declares k insideK other found
  methods k insideK other found := by
    rw [function_adopt (chain i) declares]
    rw [List.lookup_cons] at found
    split at found
    · obtain rfl : id = other := Option.some.inj found
      rw [if_pos rfl, Function.name_asMethod, Function.traits_asMethod (named ▸ plain)]
      exact ⟨named, bears⟩
    · have ne : other ≠ id := fun same => fresh k insideK (same ▸ found)
      rw [if_neg ne]
      exact h.methods k insideK other found

theorem apart (h : Chained chain n name further declared p) (between : Apart chain n name p q) :
    Chained chain n name further declared q where
  toIsChain := between.chained
  own i inside := (between.own i inside).trans (h.own i inside)
  declares i inside id found := Nat.lt_of_lt_of_le (h.declares i inside id found) between.declares
  methods i inside id found := by
    obtain ⟨named, traits⟩ := between.kept i inside id ((h.own i inside).trans found)
    rw [named, traits]
    exact h.methods i inside id found

end Chained

theorem exists_nearest (declared : List (Nat × FunctionId))
    (base : (declared.lookup 0).isSome = true) (i : Nat) :
    ∃ k ≤ i, ∃ id, declared.lookup k = some id ∧ nearest? declared i = some id := by
  induction i with
  | zero =>
    obtain ⟨id, first⟩ := Option.isSome_iff_exists.1 base
    exact ⟨0, Nat.le_refl 0, id, first, first⟩
  | succ i ih =>
    rw [nearest?]
    cases own : declared.lookup (i + 1) with
    | some id => exact ⟨i + 1, Nat.le_refl _, id, own, rfl⟩
    | none =>
      obtain ⟨k, le, id, found, same⟩ := ih
      exact ⟨k, Nat.le_succ_of_le le, id, found, same⟩

theorem Overrides.isOverride {f : Function} (h : Overrides name further f) :
    f.traits.isOverride = true := by
  rw [h.traits]

theorem Overrides.bears {f : Function} (h : Overrides name further f) :
    further.Bears f.traits := by
  refine ⟨?_, ?_⟩
  · rw [h.isOverride]
    exact h.traits
  · rw [Traits.isDispatched, h.isOverride, Bool.or_true]

/-- A method that overrides joins exactly if the nearest one above its type is virtual. -/
theorem Chained.methodFault?_eq_none_iff (h : Chained chain n name further declared p)
    (base : (declared.lookup 0).isSome = true) {i : Nat} (inside : i < n)
    (known : p.types.Knows (chain (i + 1))) {f : Function} (overrides : Overrides name further f) :
    p.methodFault? (chain (i + 1)) f = none ↔
      ∃ id, nearest? declared i = some id ∧ (p.function id).traits.isVirtual = true := by
  obtain ⟨k, le, id, found, nearest⟩ := exists_nearest declared base i
  have inside' := Nat.le_of_lt inside
  have known' := h.knows_le inside known (Nat.le_succ i)
  have bears := (h.methods k (Nat.le_trans le inside') id found).2
  have inherited : p.inheritedTraits? (chain (i + 1)) name = some (p.function id).traits := by
    rw [inheritedTraits?, h.parents i inside known]
    simp only [Option.bind_eq_bind, Option.bind_some, Option.pure_def,
      h.findMethod?_eq base inside' known', nearest]
  rw [methodFault?, if_pos overrides.isOverride, overrides.named, inherited]
  simp only [Option.map_some, Option.getD_some,
    Traits.mayOverride_of_bears overrides.bears bears overrides.isOverride,
    nearest, Option.some.injEq, exists_eq_left']
  cases (p.function id).traits.isVirtual <;> simp

theorem Chained.declareMethod (h : Chained chain n name further declared p)
    (plain : name ≠ constructorName) {i : Nat} (inside : i ≤ n)
    (known : p.types.Knows (chain i)) {f : Function} (named : f.name = name)
    (bears : further.Bears f.traits) (joined : p.declareMethod (chain i) f = .ok q) :
    Chained chain n name further ((i, (p.addFunction f).1) :: declared) q := by
  obtain ⟨-, rfl⟩ := declareMethod_eq_ok.1 joined
  have new : (p.addFunction f).2.function (p.addFunction f).1 = f := by
    rw [function_addFunction, if_pos rfl]
  refine (h.addFunction f).adopt inside known (declares_new p f) (fun k insideK found => ?_)
    (new.symm ▸ named) plain (new.symm ▸ bears)
  exact Nat.lt_irrefl _ (h.declares k insideK _ found)

theorem Descent.base (h : Descent chain n name further declared p) :
    (declared.lookup 0).isSome = true := by
  induction h with
  | first => rfl
  | override declared p q i f front inside overrides joined ih => exact ih
  | apart declared p q front between ih => exact ih

theorem knows_of_overrides {owner : TypeId} {f : Function} (override : f.traits.isOverride = true)
    (joins : p.methodFault? owner f = none) : p.types.Knows owner := by
  rw [methodFault?, if_pos override] at joins
  refine Registry.knows_of_get_ne_void fun unknown => ?_
  have orphan : p.inheritedTraits? owner f.name = none := by
    rw [inheritedTraits?, Registry.parent?, unknown]
    rfl
  rw [orphan] at joins
  cases joins

theorem Descent.chained (plain : name ≠ constructorName)
    (h : Descent chain n name further declared p) :
    Chained chain n name further declared p := by
  induction h with
  | first p q f chained unused named traits joined =>
    have empty : Chained chain n name further [] p := ⟨chained, unused, nofun, nofun⟩
    have bears : further.Bears f.traits := by
      rw [traits]
      exact ⟨rfl, rfl⟩
    exact empty.declareMethod plain (Nat.zero_le n) (knows_of_isObject chained.first) named bears
      joined
  | override declared p q i f front inside overrides joined ih =>
    have known : p.types.Knows (chain (i + 1)) :=
      knows_of_overrides (p := (p.addFunction f).2) overrides.isOverride
        (declareMethod_eq_ok.1 joined).1
    exact ih.declareMethod plain inside known overrides.named overrides.bears joined
  | apart declared p q front between ih => exact ih.apart between

/-- Whatever the static type of the receiver, a call runs the method nearest to its own type. -/
theorem Chained.callTarget_eq (h : Chained chain n name further declared p)
    (base : (declared.lookup 0).isSome = true) {i j : Nat} (insideI : i ≤ n) (insideJ : j ≤ n)
    (knownI : p.types.Knows (chain i)) (knownJ : p.types.Knows (chain j)) :
    ∃ target chosen, nearest? declared i = some target ∧ nearest? declared j = some chosen ∧
      Typing.methodTarget p (chain i) name = .ok target ∧
      ∀ (c : Machine.Context) (s : Machine.State) ref arguments line, c.program = p →
        (s.heap.object ref).type = chain j →
        Machine.callTarget c target true (.object ref :: arguments) line s =
          c.call chosen (.object ref :: arguments) line s := by
  obtain ⟨k, le, target, found, nearest⟩ := exists_nearest declared base i
  obtain ⟨-, -, chosen, -, nearest'⟩ := exists_nearest declared base j
  refine ⟨target, chosen, nearest, nearest', ?_, ?_⟩
  · exact Typing.methodTarget_eq_ok.2 ((h.findMethod?_eq base insideI knownI).trans nearest)
  · rintro c s ref arguments line rfl runtime
    obtain ⟨named, bears⟩ := h.methods k (Nat.le_trans le insideI) target found
    have dispatched : Machine.dispatch c.program target (some (.object ref)) s.heap = chosen := by
      have looked : (c.program.function target).traits.isVirtual ||
          (c.program.function target).traits.isOverride := bears.dispatched
      rw [Machine.dispatch]
      simp only [looked, if_true, runtime, named, h.findMethod?_eq base insideJ knownJ, nearest',
        Option.getD_some]
    change c.call (Machine.dispatch c.program target (some (.object ref)) s.heap) _ line s = _
    rw [dispatched]

/-- Overriding along a chain. The virtual method of the first type is accepted. A method that
    overrides is accepted exactly if the nearest type above its own that has declared the method so
    far has declared it virtual. What is accepted is what calls run: the method of the nearest type
    at or above the type of the receiver. -/
theorem overriding_along_chain (chain : Nat → TypeId) (n : Nat) (name : String) (further : Traits)
    (plain : name ≠ constructorName) :
    (∀ (p : Program) (f : Function), p.IsChain chain n →
      (∀ i ≤ n, (p.types.get (chain i)).ownMethod? name = none) →
      f.name = name → f.traits = { further with isVirtual := true } → further.isOverride = false →
      ∃ q, p.declareMethod (chain 0) f = .ok q ∧
        Descent chain n name further [(0, (p.addFunction f).1)] q) ∧
    ∀ (declared : List (Nat × FunctionId)) (p : Program),
      Descent chain n name further declared p →
      (∀ i < n, ∀ f : Function, p.types.Knows (chain (i + 1)) → Overrides name further f →
        ((∃ q, p.declareMethod (chain (i + 1)) f = .ok q) ↔
          ∃ id, nearest? declared i = some id ∧ (p.function id).traits.isVirtual = true)) ∧
      ∀ i ≤ n, ∀ j ≤ n, p.types.Knows (chain i) → p.types.Knows (chain j) →
        ∃ target chosen, nearest? declared i = some target ∧ nearest? declared j = some chosen ∧
          Typing.methodTarget p (chain i) name = .ok target ∧
          ∀ (c : Machine.Context) (s : Machine.State) ref arguments line, c.program = p →
            (s.heap.object ref).type = chain j →
            Machine.callTarget c target true (.object ref :: arguments) line s =
              c.call chosen (.object ref :: arguments) line s := by
  refine ⟨fun p f chained unused named traits override => ?_, fun declared p overriding =>
    ⟨fun i inside f known overrides => ?_, fun i insideI j insideJ knownI knownJ => ?_⟩⟩
  · have joins : (p.addFunction f).2.methodFault? (chain 0) f = none := by
      have new : ((p.addFunction f).2.types.get (chain 0)).ownMethod? f.name = none :=
        named.symm ▸ unused 0 (Nat.zero_le n)
      rw [methodFault?, traits, new, override]
      rfl
    have joined := declareMethod_eq_ok.2 ⟨joins, rfl⟩
    exact ⟨_, joined, .first p _ f chained unused named traits joined⟩
  · have placed := overriding.chained plain
    obtain ⟨k, le, id, found, nearest⟩ := exists_nearest declared overriding.base i
    have old : (p.addFunction f).2.function id = p.function id :=
      function_of_declares_addFunction f (placed.declares k (by omega) id found)
    have joins := (placed.addFunction f).methodFault?_eq_none_iff overriding.base inside known
      overrides
    simp only [declareMethod_eq_ok, exists_and_left, exists_eq, and_true, joins, nearest,
      Option.some.injEq, exists_eq_left', old]
  · exact (overriding.chained plain).callTarget_eq overriding.base insideI insideJ knownI knownJ

/-- The types `A`, `B` and `C` behind the builtin ones, each derived from the one in front of it. -/
def threeTypes : Program :=
  { types := ((((Registry.initial.declare "A" none).2).declare "B" (some ⟨6⟩)).2.declare "C"
      (some ⟨7⟩)).2 }

def place (i : Nat) : TypeId := ⟨6 + i⟩

def methodWith (traits : Traits) : Function := { name := "f", traits, module := 1, line := 1 }

def declaredOnce : Program :=
  (threeTypes.addFunction (methodWith { isVirtual := true })).2.adopt ⟨6⟩ ⟨0⟩

/-- `A` has declared a virtual method, and `B` one that overrides it, and may be virtual as well. -/
def declaredTwice (isVirtual : Bool) : Program :=
  (declaredOnce.addFunction (methodWith { isOverride := true, isVirtual })).2.adopt ⟨7⟩ ⟨1⟩

theorem isChain_threeTypes : threeTypes.IsChain place 2 := by
  have parents : ∀ i < 2, threeTypes.types.parent? (place (i + 1)) = some (place i) := by
    decide +kernel
  exact ⟨by decide +kernel, fun i inside _ => parents i inside⟩

theorem overriding_declaredTwice (isVirtual : Bool) :
    Descent place 2 "f" {} [(1, ⟨1⟩), (0, ⟨0⟩)] (declaredTwice isVirtual) := by
  have unused : ∀ i ≤ 2, (threeTypes.types.get (place i)).ownMethod? "f" = none := by
    decide +kernel
  have first : Descent place 2 "f" {} [(0, ⟨0⟩)] declaredOnce :=
    .first threeTypes _ (methodWith { isVirtual := true }) isChain_threeTypes unused rfl rfl
      (declareMethod_eq_ok.2 ⟨by decide +kernel, rfl⟩)
  refine .override [(0, ⟨0⟩)] declaredOnce _ 0 (methodWith { isOverride := true, isVirtual }) first
    (by decide) ⟨rfl, rfl⟩ (declareMethod_eq_ok.2 ⟨?_, rfl⟩)
  cases isVirtual <;> decide +kernel

/-- `C` may override the method of `B` if that is virtual as well, and then its method runs for an
    object of `C`, also where that is taken for an `A`. -/
theorem overriding_along_three :
    (∃ q, (declaredTwice true).declareMethod ⟨8⟩ (methodWith { isOverride := true }) = .ok q) ∧
      ∃ q, Descent place 2 "f" {} [(2, ⟨2⟩), (1, ⟨1⟩), (0, ⟨0⟩)] q ∧
        Typing.methodTarget q ⟨6⟩ "f" = .ok ⟨0⟩ ∧
        ∀ (c : Machine.Context) (s : Machine.State) ref arguments line, c.program = q →
          (s.heap.object ref).type = ⟨8⟩ →
          Machine.callTarget c ⟨0⟩ true (.object ref :: arguments) line s =
            c.call ⟨2⟩ (.object ref :: arguments) line s := by
  have along := (overriding_along_chain place 2 "f" {} (by decide)).2
  have overrides : Overrides "f" {} (methodWith { isOverride := true }) := ⟨rfl, rfl⟩
  have joins := ((along _ _ (overriding_declaredTwice true)).1 1 (by decide) _ (by decide +kernel)
    overrides).2 ⟨⟨1⟩, rfl, by decide +kernel⟩
  obtain ⟨q, joined⟩ := joins
  have third := Descent.override _ _ q 1 _ (overriding_declaredTwice true) (by decide) overrides
    joined
  refine ⟨⟨q, joined⟩, q, third, ?_⟩
  obtain ⟨-, rfl⟩ := declareMethod_eq_ok.1 joined
  obtain ⟨target, chosen, base, last, found, calls⟩ := (along _ _ third).2 0 (by decide) 2 (by decide)
    (by decide +kernel) (by decide +kernel)
  cases base
  cases last
  exact ⟨found, calls⟩

/-- The method of `B` overrides and is not virtual: now `C` cannot override it. -/
theorem override_of_override_refused :
    Descent place 2 "f" {} [(1, ⟨1⟩), (0, ⟨0⟩)] (declaredTwice false) ∧
      Overrides "f" {} (methodWith { isOverride := true }) ∧
      (declaredTwice false).types.parent? ⟨8⟩ = some ⟨7⟩ ∧
      (declaredTwice false).declareMethod ⟨8⟩ (methodWith { isOverride := true }) =
        .error ⟨.invalidOverride "C" "f", 1⟩ := by
  have fault : ((declaredTwice false).addFunction (methodWith { isOverride := true })).2.methodFault?
      ⟨8⟩ (methodWith { isOverride := true }) = some ⟨.invalidOverride "C" "f", 1⟩ := by
    decide +kernel
  refine ⟨overriding_declaredTwice false, ⟨rfl, rfl⟩, by decide +kernel, ?_⟩
  have new : ((declaredTwice false).addFunction (methodWith { isOverride := true })).2.function
      ((declaredTwice false).addFunction (methodWith { isOverride := true })).1 =
        methodWith { isOverride := true } := by
    rw [function_addFunction, if_pos rfl]
  rw [declareMethod, addMethod, Shared.run_addMethod, new, fault]

end Program
end ObjectLang
