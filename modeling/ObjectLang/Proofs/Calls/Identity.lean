import Mathlib.Data.List.Perm.Basic
import ObjectLang.Proofs.Calls.Visible
import ObjectLang.Proofs.Program.Regular
set_option autoImplicit false

/-!
# Which function a call means

Functions that a file sees can have the same signature: what it imports is compared with nothing, and
a method that overrides may be declared again. Apart from that, signatures are unique. Since equality
of types is identity wherever the base of all objects stays out of sight, at most one function then
agrees with a call, and the order in which functions are declared and imported does not matter.
-/

namespace ObjectLang

namespace Registry

def mentionsObject (r : Registry) (t : TypeId) : Bool :=
  t == .object ||
    match _h : r.get t with
    | .array element => r.mentionsObject element
    | .reference referent => r.mentionsObject referent
    | _ => false
termination_by t.index
decreasing_by all_goals exact r.components_get_lt t (by simp [_h, Ty.components])

variable {r r' : Registry} {a b c element : TypeId}

theorem ne_object_of_mentionsObject (h : r.mentionsObject a = false) : a ≠ .object := by
  rintro rfl
  rw [mentionsObject] at h
  cases h

theorem mentionsObject_array (h : r.mentionsObject a = false) (get : r.get a = .array element) :
    r.mentionsObject element = false := by
  rw [mentionsObject, Bool.or_eq_false_iff] at h
  have inside := h.2
  split at inside
  · rename_i same
    cases get.symm.trans same
    exact inside
  · rename_i same
    cases get.symm.trans same
  · rename_i no _
    exact absurd get (no element)

theorem mentionsObject_reference (h : r.mentionsObject a = false)
    (get : r.get a = .reference element) : r.mentionsObject element = false := by
  rw [mentionsObject, Bool.or_eq_false_iff] at h
  have inside := h.2
  split at inside
  · rename_i same
    cases get.symm.trans same
  · rename_i same
    cases get.symm.trans same
    exact inside
  · rename_i no
    exact absurd get (no element)

theorem equals_cases (plain_a : a ≠ .object) (plain_b : b ≠ .object) (h : r.equals a b = true) :
    a = b ∨ (∃ x y, r.get a = .array x ∧ r.get b = .array y ∧ r.equals x y = true) ∨
      ∃ x y, r.get a = .reference x ∧ r.get b = .reference y ∧ r.equals x y = true := by
  rw [equals_eq] at h
  simp only [Bool.or_eq_true, beq_iff_eq, plain_a, plain_b, or_false] at h
  rcases h with same | inside
  · exact .inl same
  · split at inside
    · rename_i x y hx hy
      exact .inr (.inl ⟨x, y, hx, hy, inside⟩)
    · rename_i x y hx hy
      exact .inr (.inr ⟨x, y, hx, hy, inside⟩)
    · cases inside

/-- Two known types that equal a third one are the same, since arrays and references are made once. -/
theorem Regular.eq_of_equals (regular : r.Regular) (grows : r.Grows r') (hb : r.Knows b)
    (hc : r.Knows c) (plain_a : r'.mentionsObject a = false) (plain_b : r'.mentionsObject b = false)
    (plain_c : r'.mentionsObject c = false) (equal_b : r'.equals b a = true)
    (equal_c : r'.equals c a = true) : b = c := by
  induction hn : a.index using Nat.strongRecOn generalizing a b c with
  | _ n ih =>
    have get_b := grows.get_eq hb
    have get_c := grows.get_eq hc
    have arrays {x y z : TypeId} (hx : r'.get b = .array x) (hy : r'.get a = .array y)
        (hz : r'.get c = .array z) (equal_x : r'.equals x y = true)
        (equal_z : r'.equals z y = true) : b = c := by
      have lower : y.index < n := hn ▸ r'.components_get_lt a (by simp [hy, Ty.components])
      rw [get_b] at hx
      rw [get_c] at hz
      have same : x = z := ih y.index lower
        (knows_component hb (by simp [hx, Ty.components]))
        (knows_component hc (by simp [hz, Ty.components]))
        (mentionsObject_array plain_a hy) (mentionsObject_array plain_b (get_b.trans hx))
        (mentionsObject_array plain_c (get_c.trans hz)) equal_x equal_z rfl
      exact regular.array b c x hx (same ▸ hz)
    have references {x y z : TypeId} (hx : r'.get b = .reference x) (hy : r'.get a = .reference y)
        (hz : r'.get c = .reference z) (equal_x : r'.equals x y = true)
        (equal_z : r'.equals z y = true) : b = c := by
      have lower : y.index < n := hn ▸ r'.components_get_lt a (by simp [hy, Ty.components])
      rw [get_b] at hx
      rw [get_c] at hz
      have same : x = z := ih y.index lower
        (knows_component hb (by simp [hx, Ty.components]))
        (knows_component hc (by simp [hz, Ty.components]))
        (mentionsObject_reference plain_a hy) (mentionsObject_reference plain_b (get_b.trans hx))
        (mentionsObject_reference plain_c (get_c.trans hz)) equal_x equal_z rfl
      exact regular.reference b c x hx (same ▸ hz)
    have base := ne_object_of_mentionsObject plain_a
    have cases_b := equals_cases (ne_object_of_mentionsObject plain_b) base equal_b
    have cases_c := equals_cases (ne_object_of_mentionsObject plain_c) base equal_c
    rcases cases_b with rfl | ⟨x, y, hx, hy, equal_x⟩ | ⟨x, y, hx, hy, equal_x⟩ <;>
      rcases cases_c with rfl | ⟨z, w, hz, hw, equal_z⟩ | ⟨z, w, hz, hw, equal_z⟩
    · rfl
    · exact arrays hw hw hz (equals_refl r' w) equal_z
    · exact references hw hw hz (equals_refl r' w) equal_z
    · exact arrays hx hy hy equal_x (equals_refl r' y)
    · cases hy.symm.trans hw
      exact arrays hx hy hz equal_x equal_z
    · cases hy.symm.trans hw
    · exact references hx hy hy equal_x (equals_refl r' y)
    · cases hy.symm.trans hw
    · cases hy.symm.trans hw
      exact references hx hy hz equal_x equal_z

end Registry

/-- The two functions have the same signature although they differ: both are free and come from
    different modules, or they are methods and one of them overrides. -/
def Program.Doubles (p : Program) (f g : FunctionId) : Prop :=
  (p.function f).parent = none ∧ (p.function f).module ≠ (p.function g).module ∨
    (p.function f).parent ≠ none ∧
      ((p.function f).traits.isOverride = true ∨ (p.function g).traits.isOverride = true)

/-- A function that the module sees, with the owner and the name of the key. -/
structure Module.Offers (m : Module) (p : Program) (key : Signature) (f : FunctionId) : Prop where
  visible : f ∈ m.functions
  owner : (p.function f).parent = key.owner
  name : (p.function f).name = key.name

/-- Neither the arguments of the key nor the parameters of the functions by its name mention the base
    of all objects. -/
structure Module.Plain (m : Module) (p : Program) (key : Signature) : Prop where
  arguments : ∀ t ∈ key.parameters, p.types.mentionsObject t = false
  parameters : ∀ f, m.Offers p key f →
    ∀ t ∈ (p.function f).parameterTypes, p.types.mentionsObject t = false

def Program.Agrees (p : Program) (f : FunctionId) (key : Signature) : Prop :=
  (p.function f).signature.agrees p.types.equals key = true

theorem Signature.agrees_iff {same : TypeId → TypeId → Bool} {a b : Signature} :
    a.agrees same b = true ↔ a.owner = b.owner ∧ a.name = b.name ∧
      a.parameters.length = b.parameters.length ∧
        ∀ x ∈ a.parameters.zip b.parameters, same x.1 x.2 = true := by
  simp only [agrees, Bool.and_eq_true, beq_iff_eq, List.all_eq_true, and_assoc]

theorem Module.findFunction?_eq {m : Module} {p : Program} {key : Signature} {f : FunctionId}
    (mem : f ∈ m.functions) (agrees : p.Agrees f key)
    (only : ∀ g ∈ m.functions, p.Agrees g key → g = f) : m.findFunction? p key = some f := by
  rw [findFunction?]
  cases found : m.functions.find? fun id => (p.function id).signature.agrees p.types.equals key with
  | none => exact absurd agrees (List.find?_eq_none.1 found f mem)
  | some g =>
    have holds : p.Agrees g key := (List.find?_some found :)
    exact congrArg some (only g (List.mem_of_find?_eq_some found) holds)

theorem Module.Plain.signature_eq {m : Module} {p q : Program} {key : Signature} {f g : FunctionId}
    (plain : m.Plain q key) (regular : p.types.Regular) (tables : p.Tables)
    (evolves : p.Evolves q) (hf : f ∈ m.functions) (hg : g ∈ m.functions)
    (agrees_f : q.Agrees f key) (agrees_g : q.Agrees g key) :
    (p.function f).signature = (p.function g).signature := by
  obtain ⟨owner_f, name_f, length_f, equal_f⟩ := Signature.agrees_iff.1 agrees_f
  obtain ⟨owner_g, name_g, length_g, equal_g⟩ := Signature.agrees_iff.1 agrees_g
  have plain_f := plain.parameters f ⟨hf, owner_f, name_f⟩
  have plain_g := plain.parameters g ⟨hg, owner_g, name_g⟩
  change ∀ t ∈ (q.function f).signature.parameters, _ at plain_f
  change ∀ t ∈ (q.function g).signature.parameters, _ at plain_g
  rw [evolves.signature_eq] at owner_f name_f length_f equal_f plain_f
  rw [evolves.signature_eq] at owner_g name_g length_g equal_g plain_g
  have knows (f : FunctionId) : ∀ t ∈ (p.function f).signature.parameters, p.types.Knows t := by
    intro t ht
    obtain ⟨x, hx, rfl⟩ := List.mem_map.1 ht
    exact ((tables.signatures f).parameters x hx).1
  have zipped {i : Nat} {types : List TypeId} (hi : i < types.length)
      (inside : i < key.parameters.length) : i < (types.zip key.parameters).length := by
    rw [List.length_zip]
    exact Nat.lt_min.2 ⟨hi, inside⟩
  have parameters : (p.function f).signature.parameters = (p.function g).signature.parameters := by
    refine List.ext_getElem (length_f.trans length_g.symm) fun i hi hi' => ?_
    have inside : i < key.parameters.length := length_f ▸ hi
    have mem_f := List.getElem_mem hi
    have mem_g := List.getElem_mem hi'
    refine regular.eq_of_equals evolves.types (knows f _ mem_f) (knows g _ mem_g)
      (plain.arguments _ (List.getElem_mem inside)) (plain_f _ mem_f) (plain_g _ mem_g) ?_ ?_
    · exact equal_f _ (List.getElem_zip ▸ List.getElem_mem (zipped hi inside))
    · exact equal_g _ (List.getElem_zip ▸ List.getElem_mem (zipped hi' inside))
  exact Signature.mk.injEq .. ▸ ⟨owner_f.trans owner_g.symm, name_f.trans name_g.symm, parameters⟩

namespace Library

variable {modules : List Module} {p : Program} {m n : Module} {f g : FunctionId}

theorem eq_of_index (h : Library modules p) (hm : m ∈ modules) (hn : n ∈ modules)
    (same : m.index = n.index) : m = n := by
  obtain ⟨i, at_i⟩ := List.getElem?_of_mem hm
  obtain ⟨j, at_j⟩ := List.getElem?_of_mem hn
  rw [h.index i m at_i, h.index j n at_j] at same
  exact Option.some.inj (at_i.symm.trans (same ▸ at_j))

theorem Listed.declared (listed : Listed modules p) (hm : m ∈ modules) (hf : f ∈ m.functions)
    (free : (p.function f).parent = none) : ∃ source ∈ modules, f ∈ source.ownFunctions := by
  rcases List.mem_append.1 hf with imported | own
  · exact (listed.modules m hm).imported f imported free
  · exact ⟨m, hm, own⟩

/-- Functions that are seen have the same signature only if they are doubles. -/
theorem Listed.eq_or_doubles (listed : Listed modules p) (h : Library modules p) (hm : m ∈ modules)
    (hf : f ∈ m.functions) (hg : g ∈ m.functions)
    (same : (p.function f).signature = (p.function g).signature) : f = g ∨ p.Doubles f g := by
  have parents : (p.function f).parent = (p.function g).parent := congrArg Signature.owner same
  cases parent : (p.function f).parent with
  | none =>
    obtain ⟨a, ha, own_a⟩ := listed.declared hm hf parent
    obtain ⟨b, hb, own_b⟩ := listed.declared hm hg (parents ▸ parent)
    by_cases one : a.index = b.index
    · obtain rfl := h.eq_of_index ha hb one
      exact .inl ((listed.modules a ha).distinct f own_a g own_b parent same)
    · rw [← (listed.modules a ha).own f own_a, ← (listed.modules b hb).own g own_b] at one
      exact .inr (.inl ⟨parent, one⟩)
  | some owner =>
    have apart := listed.methods.apart f g owner parent (parents ▸ parent)
      (congrArg Signature.name same)
    exact apart.imp_right fun overrides => .inr ⟨parent ▸ nofun, overrides⟩

end Library

namespace Grammar

/-- A file sees every function once, and two functions that it sees have the same signature only if
    they are doubles. So do functions that agree with a call, as long as nothing mentions the base of
    all objects. If no two functions by the name of the call have the same signature, at most one
    agrees with it, and it is found in whatever order the functions are listed. -/
theorem readFile_identifies {earlier : List Module} {p : Program} (written : Written earlier p)
    (name : String) (cursor : Cursor) (diagnostics : Diagnostics) {s : State}
    (file : readFile earlier name cursor p diagnostics = s) :
    s.module.functions.Nodup ∧
    (∀ f ∈ s.module.functions, ∀ g ∈ s.module.functions,
      (s.program.function f).signature = (s.program.function g).signature →
        f = g ∨ s.program.Doubles f g) ∧
    ∀ q, s.program.Evolves q → ∀ key, s.module.Plain q key →
      (∀ f ∈ s.module.functions, ∀ g ∈ s.module.functions, q.Agrees f key → q.Agrees g key →
        f = g ∨ s.program.Doubles f g) ∧
      ((∀ f g, s.module.Offers q key f → s.module.Offers q key g →
          (s.program.function f).signature = (s.program.function g).signature → f = g) →
        (∀ f ∈ s.module.functions, q.Agrees f key → s.module.findFunction? q key = some f) ∧
        ∀ m : Module, m.functions.Perm s.module.functions →
          m.findFunction? q key = s.module.findFunction? q key) := by
  have steps : Draft.Steps earlier (.start earlier name cursor.file p) s.draft :=
    file ▸ steps_readFile written.library name cursor diagnostics
  have read : Written (earlier ++ [s.module]) s.program := .file _ _ _ _ _ written steps
  have listed := read.listed
  have library := read.library
  have last : s.module ∈ earlier ++ [s.module] := List.mem_append_right _ (List.mem_singleton_self _)
  have doubles {f g : FunctionId} (hf : f ∈ s.module.functions) (hg : g ∈ s.module.functions) :=
    listed.eq_or_doubles library last hf hg
  refine ⟨(listed.modules _ last).once, fun f hf g hg => doubles hf hg, ?_⟩
  intro q evolves key plain
  have same {f g : FunctionId} (hf : f ∈ s.module.functions) (hg : g ∈ s.module.functions)
      (agrees_f : q.Agrees f key) (agrees_g : q.Agrees g key) :=
    plain.signature_eq read.regular.types library.program.toTables evolves hf hg agrees_f agrees_g
  refine ⟨fun f hf g hg agrees_f agrees_g => doubles hf hg (same hf hg agrees_f agrees_g), ?_⟩
  intro once
  have only {f g : FunctionId} (hf : f ∈ s.module.functions) (hg : g ∈ s.module.functions)
      (agrees_f : q.Agrees f key) (agrees_g : q.Agrees g key) : g = f := by
    obtain ⟨owner_f, name_f, -⟩ := Signature.agrees_iff.1 agrees_f
    obtain ⟨owner_g, name_g, -⟩ := Signature.agrees_iff.1 agrees_g
    exact once g f ⟨hg, owner_g, name_g⟩ ⟨hf, owner_f, name_f⟩ (same hg hf agrees_g agrees_f)
  have found (m : Module) (perm : m.functions.Perm s.module.functions) {f : FunctionId}
      (hf : f ∈ s.module.functions) (agrees : q.Agrees f key) : m.findFunction? q key = some f :=
    Module.findFunction?_eq (perm.mem_iff.2 hf) agrees fun g hg => only hf (perm.mem_iff.1 hg) agrees
  refine ⟨fun f hf agrees => found s.module (.refl _) hf agrees, fun m perm => ?_⟩
  cases here : s.module.findFunction? q key with
  | some f =>
    exact found m perm (List.mem_of_find?_eq_some here) (List.find?_some here :)
  | none =>
    refine List.find?_eq_none.2 fun f hf => ?_
    exact List.find?_eq_none.1 here f (perm.mem_iff.1 hf)

/-- Two functions that differ in the type of their parameter, in either order. -/
theorem readFile_identifies_overloads :
    let c := Compilation.new
    let cursor : Cursor := .ofTokens "m.kv"
      (Lexed.ofText "m.kv" "fn f(x: Int) { }\nfn f(x: Char) { }").tokens
    let s := readFile c.modules "m" cursor c.program c.diagnostics
    let key : Signature := ⟨none, "f", [.char]⟩
    let reversed : Module := { s.module with ownFunctions := s.module.ownFunctions.reverse }
    s.module.Plain s.program key ∧ s.module.findFunction? s.program key = some ⟨8⟩ ∧
      reversed.findFunction? s.program key = some ⟨8⟩ := by
  intro c cursor s key reversed
  have facts : (∀ f ∈ s.module.functions, (s.program.function f).name = "f" →
        ∀ t ∈ (s.program.function f).parameterTypes, s.program.types.mentionsObject t = false) ∧
      (∀ f ∈ s.module.functions, ∀ g ∈ s.module.functions, (s.program.function f).name = "f" →
        (s.program.function f).signature = (s.program.function g).signature → f = g) ∧
      s.program.types.mentionsObject .char = false ∧ ⟨8⟩ ∈ s.module.functions ∧
      (s.program.function ⟨8⟩).signature.agrees s.program.types.equals key = true := by
    decide +kernel
  obtain ⟨parameters, once, char, visible, agrees⟩ := facts
  have plain : s.module.Plain s.program key := by
    refine ⟨fun t ht => ?_, fun f offered => parameters f offered.visible offered.name⟩
    rw [List.mem_singleton.1 ht]
    exact char
  obtain ⟨-, -, calls⟩ := readFile_identifies Compilation.written_new "m" cursor c.diagnostics rfl
  obtain ⟨found, ordered⟩ := (calls s.program (.refl _) key plain).2
    fun f g hf hg => once f hf.visible g hg.visible hf.name
  have perm : reversed.functions.Perm s.module.functions :=
    List.Perm.append_left _ (List.reverse_perm _)
  exact ⟨plain, found ⟨8⟩ visible agrees, (ordered reversed perm).trans (found ⟨8⟩ visible agrees)⟩

/-- A file declares a function that it has imported, and calls the imported one. Were its own one
    listed first, it would call that. -/
theorem imported_function_declared :
    let c := Compilation.new.read "a" (.ofText "a.kv" "fn f() [public] -> Int => 1;")
    let cursor : Cursor := .ofTokens "b.kv"
      (Lexed.ofText "b.kv" "use a::f;\nfn f() -> Int => 2;\nlet y = f();").tokens
    let s := readFile c.modules "b" cursor c.program c.diagnostics
    let key : Signature := ⟨none, "f", []⟩
    let reversed : Module :=
      { s.module with
        importedFunctions := [], ownFunctions := s.module.functions.reverse }
    s.diagnostics.hasError = false ∧ ⟨7⟩ ∈ s.module.functions ∧ ⟨9⟩ ∈ s.module.functions ∧
      (s.program.function ⟨7⟩).signature = (s.program.function ⟨9⟩).signature ∧
      s.module.findFunction? s.program key = some ⟨7⟩ ∧
      reversed.findFunction? s.program key = some ⟨9⟩ := by
  decide +kernel

end Grammar
end ObjectLang
