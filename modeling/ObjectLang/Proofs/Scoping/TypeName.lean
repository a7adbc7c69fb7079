import Mathlib.Data.List.Find
import ObjectLang.Proofs.Calls.Node
import ObjectLang.Proofs.Program.Regular
set_option autoImplicit false

/-!
# Names of types

A name that is written as a type stands for the first visible type of that name. Where a static call
is checked, it stands for the last one, since the names of types are bound in order and the newest
binding counts. So the two agree on a name if and only if one visible type has it.
-/

namespace ObjectLang

section Lists

variable {α : Type} {l : List α} {p : α → Bool} {a b : α}

theorem find?_eq_find?_reverse_iff (once : l.Nodup) (first : l.find? p = some a)
    (last : l.reverse.find? p = some b) :
    a = b ↔ ∀ x ∈ l, ∀ y ∈ l, p x = true → p y = true → x = y := by
  obtain ⟨holds, before, behind, split, early⟩ := List.find?_eq_some_iff_append.1 first
  obtain ⟨holds', behind', before', split', late⟩ := List.find?_eq_some_iff_append.1 last
  have split' : l = before'.reverse ++ b :: behind'.reverse := by
    rw [← l.reverse_reverse, split']
    simp
  constructor
  · rintro rfl
    obtain ⟨-, tail, apart⟩ := List.nodup_append.1 (split ▸ once)
    have outside : a ∉ before := fun mem => apart a mem a List.mem_cons_self rfl
    obtain ⟨-, -, rfl⟩ := (List.append_cons_inj_of_notMem outside (List.nodup_cons.1 tail).1).1
      (split.symm.trans split')
    have only (x : α) (mem : x ∈ l) (hx : p x = true) : x = a := by
      rw [split] at mem
      rcases List.mem_append.1 mem with mem | mem
      · have no := early x mem
        rw [hx] at no
        cases no
      · rcases List.mem_cons.1 mem with same | mem
        · exact same
        · have no := late x (List.mem_reverse.1 mem)
          rw [hx] at no
          cases no
    exact fun x hx y hy px py => (only x hx px).trans (only y hy py).symm
  · intro one
    exact one a (List.mem_of_find?_eq_some first) b
      (List.mem_reverse.1 (List.mem_of_find?_eq_some last)) holds holds'

theorem lookup_map {β γ : Type} [BEq β] (name : α → β) (value : α → γ) (l : List α) (key : β) :
    (l.map fun x => (name x, value x)).lookup key =
      (l.find? fun x => key == name x).map value := by
  induction l with
  | nil => rfl
  | cons x rest ih =>
    rw [List.map_cons, List.lookup_cons, List.find?_cons]
    cases key == name x with
    | true => rfl
    | false => exact ih

end Lists

namespace Typing

/-- Since the scopes were `Γ`, variables have been bound and nothing else. -/
def Stacks (Γ Δ : Scopes Meaning) : Prop :=
  ∃ locals, Δ.bindings = locals ++ Γ.bindings ∧ ∀ x ∈ locals, ∃ type, x.2 = .value type

namespace Stacks

variable {Γ Δ : Scopes Meaning}

theorem refl (Γ : Scopes Meaning) : Stacks Γ Γ := ⟨[], rfl, nofun⟩

theorem openSegment (h : Stacks Γ Δ) : Stacks Γ (Δ.openSegment []) := h

theorem push (h : Stacks Γ Δ) (name : String) (type : TypeId) :
    Stacks Γ (Δ.push name (.value type)) := by
  obtain ⟨locals, same, values⟩ := h
  refine ⟨(name, .value type) :: locals, congrArg _ same, fun x hx => ?_⟩
  rcases List.mem_cons.1 hx with rfl | hx
  · exact ⟨type, rfl⟩
  · exact values x hx

theorem scopesBehind (h : Stacks Γ Δ) (statement : Statement) :
    Stacks Γ (statement.scopesBehind Δ) := by
  unfold Statement.scopesBehind
  split
  · exact h.push _ _
  · exact h

mutual

theorem of_mem_callNodes (h : Stacks Γ Δ) (e : Expr) : ∀ n ∈ e.callNodes Δ, Stacks Γ n.scopes := by
  cases e with
  | binary op lhs rhs line =>
    exact List.forall_mem_append.2 ⟨h.of_mem_callNodes lhs, h.of_mem_callNodes rhs⟩
  | literal value line => exact nofun
  | var name type line => exact nofun
  | field base name type line => exact h.of_mem_callNodes base
  | new type line => exact nofun
  | allocate element size line => exact h.of_mem_callNodes size
  | array element items line => exact h.of_mem_allCallNodes items
  | index base place line =>
    exact List.forall_mem_append.2 ⟨h.of_mem_callNodes base, h.of_mem_callNodes place⟩
  | reference expr line => exact h.of_mem_callNodes expr
  | cast expr type line => exact h.of_mem_callNodes expr
  | call callee arguments target injected line =>
    exact List.forall_mem_cons.2 ⟨h, List.forall_mem_append.2
      ⟨h.of_mem_callNodes callee, h.of_mem_allCallNodes arguments⟩⟩
termination_by structural e

theorem of_mem_allCallNodes (h : Stacks Γ Δ) (es : List Expr) :
    ∀ n ∈ Expr.allCallNodes Δ es, Stacks Γ n.scopes := by
  cases es with
  | nil => exact nofun
  | cons e rest =>
    exact List.forall_mem_append.2 ⟨h.of_mem_callNodes e, h.of_mem_allCallNodes rest⟩
termination_by structural es

end

mutual

theorem of_mem_statement {Δ : Scopes Meaning} (h : Stacks Γ Δ) (statement : Statement) :
    ∀ n ∈ statement.callNodes Δ, Stacks Γ n.scopes := by
  cases statement with
  | block statements line => exact h.openSegment.of_mem_statements statements
  | assign declares target written value line =>
    exact List.forall_mem_append.2 ⟨h.of_mem_callNodes value, h.of_mem_callNodes target⟩
  | ret value line => exact h.of_mem_callNodes value
  | ifThen test body line =>
    exact List.forall_mem_append.2
      ⟨h.of_mem_callNodes test, h.openSegment.of_mem_statement body⟩
  | ifElse test body otherwise line =>
    exact List.forall_mem_append.2 ⟨h.of_mem_callNodes test, List.forall_mem_append.2
      ⟨h.openSegment.of_mem_statement body, h.openSegment.of_mem_statement otherwise⟩⟩
  | whileLoop test body line =>
    exact List.forall_mem_append.2
      ⟨h.of_mem_callNodes test, h.openSegment.of_mem_statement body⟩
  | forLoop first test step body line =>
    have inside := h.openSegment.scopesBehind first
    exact List.forall_mem_append.2 ⟨h.openSegment.of_mem_statement first,
      List.forall_mem_append.2 ⟨inside.of_mem_callNodes test, List.forall_mem_append.2
        ⟨inside.of_mem_statement step, inside.openSegment.of_mem_statement body⟩⟩⟩
  | call callee arguments target injected line =>
    exact h.of_mem_callNodes (.call callee arguments target injected line)
termination_by structural statement

theorem of_mem_statements {Δ : Scopes Meaning} (h : Stacks Γ Δ) (statements : List Statement) :
    ∀ n ∈ Statement.allCallNodes Δ statements, Stacks Γ n.scopes := by
  cases statements with
  | nil => exact nofun
  | cons statement rest =>
    exact List.forall_mem_append.2
      ⟨h.of_mem_statement statement, (h.scopesBehind statement).of_mem_statements rest⟩
termination_by structural statements

end

end Stacks

variable {m : Module} {p : Program} {f : Function} {Γ : Scopes Meaning} {name : String}

/-- A name that is no variable stands for the last visible type of that name. -/
theorem get?_of_stacks (grown : Stacks (functionScopes m p f) Γ)
    (free : ∀ type, Γ.get? name ≠ some (.value type)) :
    Γ.get? name =
      ((m.visibleObjectTypes p).reverse.find? fun t => name == p.types.name t).map .type := by
  obtain ⟨locals, same, values⟩ := grown
  let types := ((m.visibleObjectTypes p).map fun t => (p.types.name t, Meaning.type t)).reverse
  let parameters := (f.parameters.map fun x => (x.name, Meaning.value x.type)).reverse
  have bindings : Γ.bindings = (locals ++ parameters) ++ types := by
    rw [same, functionScopes]
    simp [Scopes.openSegment, Scopes.empty, parameters, types]
  have front : ∀ x ∈ locals ++ parameters, ∃ type, x.2 = .value type := by
    intro x hx
    rcases List.mem_append.1 hx with hx | hx
    · exact values x hx
    · obtain ⟨y, -, rfl⟩ := List.mem_map.1 (List.mem_reverse.1 hx)
      exact ⟨y.type, rfl⟩
  rw [Scopes.get?, bindings, List.lookup_append] at free ⊢
  cases found : (locals ++ parameters).lookup name with
  | some meaning =>
    obtain ⟨before, behind, split, -⟩ := List.lookup_eq_some_iff.1 found
    obtain ⟨type, value⟩ := front (name, meaning)
      (split ▸ List.mem_append_right _ List.mem_cons_self)
    rw [found] at free
    exact absurd (congrArg some value) (free type)
  | none =>
    rw [Option.none_or]
    exact (congrArg (List.lookup name) List.map_reverse.symm).trans (lookup_map _ _ _ _)

theorem namedType?_eq (t : State) (noted : Option TypeId) (line : Nat) {found : Option TypeId}
    (h : t.scopes.get? name = found.map .type) : namedType? t (.var name noted line) = found := by
  rw [namedType?, h]
  cases found <;> rfl

end Typing

/-- One visible type with members has the name. -/
def Module.NamesOnce (m : Module) (p : Program) (name : String) : Prop :=
  ∀ s ∈ m.visibleObjectTypes p, ∀ t ∈ m.visibleObjectTypes p,
    p.types.name s = name → p.types.name t = name → s = t

instance (m : Module) (p : Program) (name : String) : Decidable (m.NamesOnce p name) := by
  unfold Module.NamesOnce
  infer_instance

namespace Draft

variable {earlier : List Module} {d e : Draft} {name : String}

theorem Closed.builtin?_name (hd : d.Closed earlier) {t : TypeId}
    (builtin : t ∈ Primitive.all.map Primitive.id ++ [.object]) :
    Registry.builtin? (d.program.types.name t) = some t := by
  have named (name : String) (h : Registry.builtin? name = some t) :
      Registry.builtin? (d.program.types.name t) = some t := by
    rw [hd.names name t h, h]
  rcases List.mem_append.1 builtin with primitive | base
  · obtain ⟨p, -, rfl⟩ := List.mem_map.1 primitive
    exact named p.name (by cases p <;> decide)
  · rw [List.mem_singleton.1 base] at named ⊢
    exact named "Object" (by decide)

/-- A name that a visible type with members has is the name of no other visible type. -/
theorem Regular.object_of_name (hd : d.Closed earlier) (h : d.Regular earlier)
    (shown : ∃ t ∈ d.module.visibleObjectTypes d.program, d.program.types.name t = name) {t : TypeId}
    (mem : t ∈ d.module.types) (named : d.program.types.name t = name) :
    t ∈ d.module.visibleObjectTypes d.program := by
  obtain ⟨s, visible, same⟩ := shown
  obtain ⟨-, object⟩ := List.mem_filter.1 visible
  rw [Module.isObjectType, Bool.and_eq_true, bne_iff_ne] at object
  have plain := h.types.plain s object.2 object.1
  refine List.mem_filter.2 ⟨mem, (h.module.shown t mem).resolve_left fun builtin => ?_⟩
  rw [same, ← named, hd.builtin?_name builtin] at plain
  cases plain

/-- A name that is written as a type stands for the first visible type of that name. -/
theorem Regular.findType?_eq (hd : d.Closed earlier) (h : d.Regular earlier)
    (shown : ∃ t ∈ d.module.visibleObjectTypes d.program, d.program.types.name t = name) :
    d.module.findType? d.program name =
      (d.module.visibleObjectTypes d.program).find? fun t => name == d.program.types.name t := by
  rw [Module.findType?, Module.visibleObjectTypes, List.find?_filter]
  refine List.find?_congr fun t mem => ?_
  by_cases named : d.program.types.name t = name
  · obtain ⟨-, object⟩ := List.mem_filter.1 (h.object_of_name hd shown mem named)
    simp [named, object]
  · have other : name ≠ d.program.types.name t := Ne.symm named
    simp [named, other]

theorem Regular.visible_of_read (hd : d.Closed earlier) (h : d.Regular earlier)
    (shown : ∃ t ∈ d.module.visibleObjectTypes d.program, d.program.types.name t = name)
    (he : e.Closed earlier) (steps : Steps earlier e d) {t : TypeId}
    (read : e.module.findType? e.program name = some t) :
    t ∈ d.module.visibleObjectTypes d.program ∧ d.program.types.name t = name := by
  have mem := List.mem_of_find?_eq_some read
  have named : e.program.types.name t = name := by simpa using List.find?_some read
  have keeps : e.module.types ⊆ d.module.types ∧ e.program.types.KeepsShape d.program.types := by
    clear read mem named h shown hd
    induction steps with
    | refl => exact ⟨List.Subset.refl _, .refl _⟩
    | tail _ step ih =>
      exact ⟨List.Subset.trans ih.1 step.within.types, ih.2.trans step.keepsShape⟩
  have still : d.program.types.name t = name :=
    (keeps.2.name_eq (he.module.types t mem)).trans named
  exact ⟨h.object_of_name hd shown (keeps.1 mem) still, still⟩

end Draft

namespace Grammar

open Typing

/-- Wherever a body of the file is checked, a name of a visible type that no variable has stands for
    such a type. It is the one that the name stands for where a type is written if and only if there
    is no other, and then the name has been read as that type from its first use on. -/
theorem readFile_names_agree {earlier : List Module} {p : Program} (written : Written earlier p)
    (name : String) (cursor : Cursor) (diagnostics : Diagnostics) {s : State}
    (file : readFile earlier name cursor p diagnostics = s) {word : String}
    (shown : ∃ t ∈ s.module.visibleObjectTypes s.program, s.program.types.name t = word)
    {t : Typing.State} (evolves : s.program.Evolves t.program) {id : FunctionId}
    (grown : Stacks (functionScopes s.module t.program (t.program.function id)) t.scopes)
    (free : ∀ type, t.scopes.get? word ≠ some (.value type)) (noted : Option TypeId) (line : Nat) :
    ∃ read called, s.module.findType? s.program word = some read ∧
      namedType? t (.var word noted line) = some called ∧
      (read = called ↔ s.module.NamesOnce s.program word) ∧
      (s.module.NamesOnce s.program word → ∀ e,
        Draft.Steps earlier (.start earlier name cursor.file p) e → Draft.Steps earlier e s.draft →
          ∀ type, e.module.findType? e.program word = some type → type = called) := by
  have library := written.library
  have start := Draft.closed_start library name cursor.file
  have steps : Draft.Steps earlier (.start earlier name cursor.file p) s.draft :=
    file ▸ steps_readFile library name cursor diagnostics
  have closed := (steps.closed start).1
  have regular := steps.regular start (Draft.regular_start written.regular name cursor.file)
  let types := s.module.visibleObjectTypes s.program
  let named (x : TypeId) : Bool := word == s.program.types.name x
  have once : types.Nodup := regular.module.once.filter _
  have some_named : ∃ x ∈ types, named x = true := by
    obtain ⟨x, mem, same⟩ := shown
    exact ⟨x, mem, beq_iff_eq.2 same.symm⟩
  obtain ⟨read, first⟩ : ∃ read, types.find? named = some read :=
    Option.isSome_iff_exists.1 (List.find?_isSome.2 some_named)
  obtain ⟨called, last⟩ : ∃ called, types.reverse.find? named = some called := by
    refine Option.isSome_iff_exists.1 (List.find?_isSome.2 ?_)
    obtain ⟨x, mem, same⟩ := some_named
    exact ⟨x, List.mem_reverse.2 mem, same⟩
  have unique : (∀ x ∈ types, ∀ y ∈ types, named x = true → named y = true → x = y) ↔
      s.module.NamesOnce s.program word := by
    have iff (x : TypeId) : named x = true ↔ s.program.types.name x = word :=
      beq_iff_eq.trans eq_comm
    exact forall₄_congr fun x _ y _ => by rw [iff x, iff y]
  have seen : t.scopes.get? word = (some called).map .type := by
    have same : functionScopes s.module t.program (t.program.function id) =
        functionScopes s.module s.program (s.program.function id) :=
      functionScopes_evolves evolves closed.module id
    rw [same] at grown
    rw [get?_of_stacks grown free]
    exact congrArg (Option.map Meaning.type) last
  refine ⟨read, called, (regular.findType?_eq closed shown).trans first,
    namedType?_eq t noted line seen, (find?_eq_find?_reverse_iff once first last).trans unique, ?_⟩
  intro one e before after type found
  obtain ⟨mem, same⟩ :=
    regular.visible_of_read closed shown (before.closed start).1 after found
  have holds : named called = true := List.find?_some last
  exact one type mem called (List.mem_reverse.1 (List.mem_of_find?_eq_some last)) same
    (beq_iff_eq.1 holds).symm

/-- A file behind others, as it is read, and the state in which its body is checked. -/
def readBehind (files : List SourceFile) (file : SourceFile) : State :=
  let c := Compilation.new.readAll (files.map Compilation.lex)
  let lexed := Compilation.lex file
  readFile c.modules lexed.1 (.ofTokens lexed.2.file lexed.2.tokens) c.program c.diagnostics

def State.checked (s : State) : Typing.State where
  program := s.program
  diagnostics := s.diagnostics
  scopes := functionScopes s.module s.program
    (s.program.function (s.module.body.getD ⟨0⟩))

def State.callNodes (s : State) : List CallNode :=
  Statement.allCallNodes s.checked.scopes (s.program.function (s.module.body.getD ⟨0⟩)).body

/-- The file has one type of the name, which it declares, and calls it where a variable is bound. -/
theorem readFile_names_agree_declared :
    let s := readBehind [] ⟨"m.kv", "type A { } fn A.new() { } let x = 1; let a: A = A.new();"⟩
    s.diagnostics.hasError = false ∧ s.module.NamesOnce s.program "A" ∧ s.callNodes.length = 1 ∧
      ∀ n ∈ s.callNodes, ∃ type, s.module.findType? s.program "A" = some type ∧
        namedType? { s.checked with scopes := n.scopes } (.var "A" none 1) = some type := by
  intro s
  have facts : s.diagnostics.hasError = false ∧ s.module.NamesOnce s.program "A" ∧
      (∃ t ∈ s.module.visibleObjectTypes s.program, s.program.types.name t = "A") ∧
      s.callNodes.length = 1 ∧
      ∀ n ∈ s.callNodes, n.scopes.get? "A" = some (.type ⟨6⟩) := by decide +kernel
  obtain ⟨quiet, one, shown, single, bound⟩ := facts
  refine ⟨quiet, one, single, fun n hn => ?_⟩
  have grown : Stacks s.checked.scopes n.scopes := (Stacks.refl _).of_mem_statements _ n hn
  obtain ⟨read, called, found, named, agree, -⟩ :=
    readFile_names_agree Compilation.written_new "m" _ _ rfl shown
      (t := { s.checked with scopes := n.scopes }) (.refl _) grown
      (fun type value => by rw [bound n hn] at value; cases value) none 1
  exact ⟨read, found, agree.2 one ▸ named⟩

/-- The type that was imported last comes first, so that is the one that is written, and the one that
    was imported first is called. -/
theorem names_differ_imported_twice :
    let a : SourceFile := ⟨"a.kv", "type A { } fn A.new() [public] { }"⟩
    let b : SourceFile := ⟨"b.kv", "type A { } fn A.new() [public] { }"⟩
    let s := readBehind [a, b] ⟨"c.kv", "use a::A; use b::A; let x: A = A.new();"⟩
    s.diagnostics.hasError = false ∧ s.module.findType? s.program "A" = some ⟨7⟩ ∧
      namedType? s.checked (.var "A" none 1) = some ⟨6⟩ := by
  decide +kernel

end Grammar
end ObjectLang
