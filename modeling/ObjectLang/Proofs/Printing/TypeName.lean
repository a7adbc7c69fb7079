import Mathlib.Data.List.Find
import ObjectLang.Proofs.Grammar.Step
import ObjectLang.Proofs.Lists.Made
import ObjectLang.Proofs.Printing.Token
set_option autoImplicit false

/-!
# Written types

How a type is written in a file: built from brackets around the types of its elements, or by its name.
What is written reads as the type again, without a change to the program, and it still does after
more types have been shown to the file.
-/

namespace ObjectLang

namespace Registry

variable {r r' : Registry} {id : TypeId}

theorem eq_false_of_find? {p : Ty → Bool} (none : r.find? p = none) (known : r.Knows id) :
    p (r.get id) = false := by
  rw [find?, Option.map_eq_none_iff, Array.findIdx?_eq_none_iff] at none
  exact none _ (Array.mem_of_getElem? (get_eq_of_knows known))

theorem find?_of_unique {p : Ty → Bool} (known : r.Knows id) (holds : p (r.get id) = true)
    (unique : ∀ other, p (r.get other) = true → other = id) : r.find? p = some id := by
  cases found : r.find? p with
  | none =>
    rw [eq_false_of_find? found known] at holds
    cases holds
  | some other => rw [unique other (get_of_find? found).2]

end Registry

namespace Program

variable {p : Program} {element : TypeId}

theorem get_listOf_new (known : p.types.Knows element)
    (new : p.types.findList? element = none) :
    (∃ members, (p.listOf element).2.types.get (p.listOf element).1 = .list element members) ∧
      (∀ id, p.types.Knows id → (p.listOf element).2.types.get id = p.types.get id) ∧
      ∀ id members, (p.listOf element).2.types.get id = .list element members →
        id = (p.listOf element).1 := by
  obtain ⟨fresh, -, -, list, old, only⟩ := withList_new known
  let q := (p.withList element).2
  let owner := (p.withList element).1
  have added := added_addFunctions q (ListMethod.all element (p.arrayOf element).1)
  obtain ⟨others, own⟩ := get_adoptAll (q.addFunctions
    (ListMethod.all element (p.arrayOf element).1)).2 owner
    (q.addFunctions (ListMethod.all element (p.arrayOf element).1)).1
  rw [added.types] at others own
  rw [listOf_eq_new new, addMethods_eq]
  obtain ⟨members, type, -⟩ := own _ _ list
  refine ⟨⟨members, type⟩, fun id hid => ?_, fun id m hid => ?_⟩
  · have ne : id ≠ owner := fun same : id = (p.withList element).1 => fresh (same ▸ hid)
    exact (others id ne).trans (old id hid)
  · by_contra ne
    rcases only id element m ((others id ne).symm.trans hid) with same | before
    · exact ne same
    · have known : p.types.Knows id := by
        refine Registry.knows_of_get_ne_void ?_
        rw [before]
        nofun
      have missing := Registry.eq_false_of_find? new known
      rw [before, Registry.isListOf, beq_self_eq_true] at missing
      cases missing

/-- A list type that was made is found from then on. -/
theorem findList?_listOf (known : p.types.Knows element) :
    (p.listOf element).2.types.findList? element = some (p.listOf element).1 := by
  cases found : p.types.findList? element with
  | some list => rwa [listOf_eq_known found]
  | none =>
    obtain ⟨⟨members, type⟩, -, only⟩ := get_listOf_new known found
    refine Registry.find?_of_unique ?_ ?_ fun other holds => ?_
    · refine Registry.knows_of_get_ne_void ?_
      rw [type]
      nofun
    · rw [type]
      exact beq_self_eq_true element
    · obtain ⟨members', type'⟩ : ∃ members,
          (p.listOf element).2.types.get other = .list element members := by
        revert holds
        cases (p.listOf element).2.types.get other with
        | list e members => exact fun holds => ⟨members, by rw [eq_of_beq holds]⟩
        | _ => nofun
      exact only other members' type'

theorem grows_listOf (hp : p.Closed) (known : p.types.Knows element) (filled : element ≠ .void) :
    p.types.Grows (p.listOf element).2.types := by
  cases found : p.types.findList? element with
  | some list =>
    rw [listOf_eq_known found]
    exact .refl _
  | none =>
    exact Registry.grows_of_get (hp.listOf known filled).2.1.types (get_listOf_new known found).2.1

end Program

/-- The tokens are one way to write the type in the file of `d`. -/
inductive Draft.Spells (d : Draft) : TypeId → List Token → Prop
  | list {element list : TypeId} {tokens : List Token} (filled : element ≠ .void)
    (found : d.program.types.findList? element = some list) (shown : list ∈ d.module.types)
    (spells : d.Spells element tokens) :
    d.Spells list (.fixed .bracketOpen 0 :: (tokens ++ [.fixed .bracketClose 0]))
  | array {element array : TypeId} {tokens : List Token}
    (found : d.program.types.findArray? element = some array) (spells : d.Spells element tokens) :
    d.Spells array (.fixed .less 0 :: (tokens ++ [.fixed .greater 0]))
  | reference {referent reference : TypeId}
    (found : d.program.types.findReference? referent = some reference)
    (named : d.module.findType? d.program (d.program.types.name referent) = some referent) :
    d.Spells reference [.fixed .ampersand 0, .name (d.program.types.name referent) 0]
  | name {type : TypeId}
    (named : d.module.findType? d.program (d.program.types.name type) = some type) :
    d.Spells type [.name (d.program.types.name type) 0]

/-- The spelling that is chosen for a type. Brackets are preferred to names. -/
def Draft.typeTokens? (d : Draft) (type : TypeId) : Option (List Token) :=
  let bracketed : Option (List Token) :=
    match _h : d.program.types.get type with
    | .list element _ =>
      if element ≠ .void ∧ d.program.types.findList? element = some type ∧
          type ∈ d.module.types then
        (d.typeTokens? element).map fun tokens =>
          .fixed .bracketOpen 0 :: (tokens ++ [.fixed .bracketClose 0])
      else none
    | .array element =>
      if d.program.types.findArray? element = some type then
        (d.typeTokens? element).map fun tokens =>
          .fixed .less 0 :: (tokens ++ [.fixed .greater 0])
      else none
    | .reference referent =>
      if d.program.types.findReference? referent = some type ∧
          d.module.findType? d.program (d.program.types.name referent) = some referent then
        some [.fixed .ampersand 0, .name (d.program.types.name referent) 0]
      else none
    | _ => none
  bracketed.or <|
    if d.module.findType? d.program (d.program.types.name type) = some type then
      some [.name (d.program.types.name type) 0]
    else none
termination_by type.index
decreasing_by all_goals exact d.program.types.components_get_lt type (by simp [_h, Ty.components])

def Draft.typeTokens (d : Draft) (type : TypeId) : List Token := (d.typeTokens? type).getD []

def Draft.Spelled (d : Draft) (type : TypeId) : Prop := ∃ tokens, d.Spells type tokens

namespace Draft

variable {d e : Draft} {type : TypeId}

theorem spells_of_typeTokens? {type : TypeId} {tokens : List Token} (h : d.typeTokens? type = some tokens) :
    d.Spells type tokens := by
  rw [typeTokens?, Option.or_eq_some_iff] at h
  rcases h with h | ⟨-, h⟩
  · split at h
    · rename_i element members get
      have lt : element.index < type.index :=
        d.program.types.components_get_lt type (by rw [get]; exact List.mem_singleton_self _)
      split at h
      · rename_i allowed
        obtain ⟨inner, spelled, rfl⟩ := Option.map_eq_some_iff.1 h
        exact .list allowed.1 allowed.2.1 allowed.2.2 (spells_of_typeTokens? spelled)
      · cases h
    · rename_i element get
      have lt : element.index < type.index :=
        d.program.types.components_get_lt type (by rw [get]; exact List.mem_singleton_self _)
      split at h
      · rename_i found
        obtain ⟨inner, spelled, rfl⟩ := Option.map_eq_some_iff.1 h
        exact .array found (spells_of_typeTokens? spelled)
      · cases h
    · split at h
      · rename_i found
        cases h
        exact .reference found.1 found.2
      · cases h
    · cases h
  · split at h
    · rename_i named
      cases h
      exact .name named
    · cases h
termination_by type.index

theorem isSome_typeTokens? {tokens : List Token} (h : d.Spells type tokens) :
    (d.typeTokens? type).isSome = true := by
  induction h with
  | @list element list tokens filled found shown spells ih =>
    obtain ⟨inner, spelled⟩ := Option.isSome_iff_exists.1 ih
    obtain ⟨members, get⟩ := Program.get_of_findList? found
    rw [typeTokens?, Option.isSome_or]
    split
    · rename_i element' members' get'
      rw [get] at get'
      cases get'
      rw [if_pos ⟨filled, found, shown⟩, spelled]
      rfl
    all_goals
      rename_i get'
      simp_all
  | @array element array tokens found spells ih =>
    obtain ⟨inner, spelled⟩ := Option.isSome_iff_exists.1 ih
    have get := Registry.get_of_findArray? found
    rw [typeTokens?, Option.isSome_or]
    split
    · simp_all
    · rename_i element' get'
      rw [get] at get'
      cases get'
      rw [if_pos found, spelled]
      rfl
    all_goals simp_all
  | @reference referent reference found named =>
    have get := Registry.get_of_findReference? found
    rw [typeTokens?, Option.isSome_or]
    split
    · simp_all
    · simp_all
    · rename_i referent' get'
      rw [get] at get'
      cases get'
      rw [if_pos ⟨found, named⟩]
      rfl
    · simp_all
  | @name type named =>
    rw [typeTokens?, Option.isSome_or, if_pos named]
    exact Bool.or_true _

theorem Spelled.spells_typeTokens (h : d.Spelled type) : d.Spells type (d.typeTokens type) := by
  obtain ⟨tokens, spells⟩ := h
  obtain ⟨chosen, same⟩ := Option.isSome_iff_exists.1 (isSome_typeTokens? spells)
  rw [typeTokens, same]
  exact spells_of_typeTokens? same

theorem Spells.nested {tokens : List Token} (h : d.Spells type tokens) : Nested tokens := by
  induction h with
  | list _ _ _ _ ih => exact .bracketed rfl ih
  | array _ _ ih => exact .plain rfl (ih.append (.single rfl))
  | reference _ _ => exact .plain rfl (.single rfl)
  | name _ => exact .single rfl

end Draft

namespace Module

variable {m n : Module}

theorem addType_of_mem {id : TypeId} (shown : id ∈ m.types) : m.addType id = m :=
  if_pos (List.contains_iff_mem.2 shown)

theorem types_addType (m : Module) (id : TypeId) : m.types <+: (m.addType id).types := by
  unfold addType
  split
  · exact List.prefix_rfl
  · exact ⟨[id], List.append_assoc ..⟩

theorem mem_types_addType (m : Module) (id : TypeId) : id ∈ (m.addType id).types := by
  unfold addType
  split
  · exact List.contains_iff_mem.1 ‹_›
  · exact List.mem_append_right _ (List.mem_append_right _ (List.mem_singleton_self id))

/-- A name stands for the same type when more types are shown behind. -/
theorem findType?_of_prefix {p : Program} {name : String} {type : TypeId}
    (shown : m.types <+: n.types) (found : m.findType? p name = some type) :
    n.findType? p name = some type := by
  obtain ⟨more, same⟩ := shown
  rw [findType?] at found
  rw [findType?, ← same, List.find?_append, found]
  rfl

end Module

namespace Draft

variable {d e : Draft} {type : TypeId}

/-- All types stay, and the file is shown more of them, behind the others. -/
structure Broadens (d e : Draft) : Prop where
  types : d.program.types.Grows e.program.types
  shown : d.module.types <+: e.module.types

namespace Broadens

theorem refl (d : Draft) : Broadens d d := ⟨.refl _, List.prefix_rfl⟩

theorem trans {f : Draft} (h : Broadens d e) (h' : Broadens e f) : Broadens d f :=
  ⟨h.types.trans h'.types, h.shown.trans h'.shown⟩

theorem of_program {p : Program} (types : d.program.types.Grows p.types) :
    Broadens d { d with program := p } := ⟨types, List.prefix_rfl⟩

theorem mem (h : Broadens d e) (shown : type ∈ d.module.types) : type ∈ e.module.types :=
  h.shown.subset shown

theorem findType?_eq {earlier : List Module} (hd : d.Closed earlier) (h : Broadens d e)
    {name : String} (found : d.module.findType? d.program name = some type) :
    e.module.findType? e.program name = some type := by
  have front : d.module.findType? e.program name = some type := by
    rw [← found, Module.findType?]
    refine List.find?_congr fun t ht => ?_
    rw [h.types.name_eq (hd.module.types t ht)]
  exact Module.findType?_of_prefix h.shown front

theorem spells {earlier : List Module} (hd : d.Closed earlier) (h : Broadens d e)
    {tokens : List Token} (spells : d.Spells type tokens) : e.Spells type tokens := by
  induction spells with
  | list filled found shown _ ih => exact .list filled (h.types.find?_eq found) (h.mem shown) ih
  | array found _ ih => exact .array (h.types.findArray?_eq found) ih
  | reference found named =>
    have known := hd.module.types _ (List.mem_of_find?_eq_some named)
    have same := h.types.name_eq known
    rw [← same] at named ⊢
    exact .reference (h.types.findReference?_eq found) (h.findType?_eq hd (same ▸ named))
  | name named =>
    have known := hd.module.types _ (List.mem_of_find?_eq_some named)
    have same := h.types.name_eq known
    rw [← same] at named ⊢
    exact .name (h.findType?_eq hd (same ▸ named))

theorem spelled {earlier : List Module} (hd : d.Closed earlier) (h : Broadens d e)
    (spelled : d.Spelled type) : e.Spelled type :=
  spelled.imp fun _ spells => h.spells hd spells

end Broadens
end Draft

namespace Grammar

variable {s : State} {type : TypeId} {tokens rest : List Token}

theorem plainTypeName_name {name : String} {line : Nat}
    (found : s.module.findType? s.program name = some type)
    (front : s.cursor.tokens = .name name line :: rest) :
    (plainTypeName s).outcome = (.ok type, s.seek rest line) := by
  rw [plainTypeName, Step.outcome_andThen (State.expect_cons .identifier front rfl)]
  split
  · rename_i type' found'
    cases found.symm.trans found'
    rfl
  · rename_i missing
    cases found.symm.trans missing

theorem State.listOf_found {element list : TypeId}
    (found : s.program.types.findList? element = some list) :
    s.listOf element = (list, { s with module := s.module.addType list }) := by
  have same : s.program.listOf element = (list, s.program) := Program.listOf_eq_known found
  rw [State.listOf, same]

theorem State.listOf_shown {element list : TypeId}
    (found : s.program.types.findList? element = some list) (shown : list ∈ s.module.types) :
    s.listOf element = (list, s) := by
  rw [State.listOf_found found, Module.addType_of_mem shown]

theorem State.arrayOf_found {element array : TypeId}
    (found : s.program.types.findArray? element = some array) :
    s.arrayOf element = (array, s) := by
  rw [State.arrayOf, Program.arrayOf, Registry.arrayOf_of_findArray? found]

theorem State.referenceTo_found {referent reference : TypeId}
    (found : s.program.types.findReference? referent = some reference) :
    s.referenceTo referent = (reference, s) := by
  rw [State.referenceTo, Program.referenceTo, Registry.referenceTo_of_findReference? found]

theorem skipAmpersands_other {t : Token} {line : Nat} (front : s.cursor.tokens = t :: rest)
    (other : t.kind ≠ .ampersand) : (skipAmpersands line s).outcome = (.ok (), s) := by
  rw [skipAmpersands, State.take?_cons front]
  dsimp only
  rw [if_neg other]
  rfl

theorem outcome_ofPair {α : Type} {n : Nat} {x : α × State} {value : α} (h : x = (value, s))
    (size : x.2.size = n) : (Step.ofPair x size).outcome = (.ok value, s) := by
  subst h
  rfl

section Productions

variable {u v : State} {opening closing : Token} {inner : List Token} {element : TypeId}

theorem typeName_list (front : s.cursor.tokens = opening :: inner) (opens : opening.kind = .bracketOpen)
    (read : (typeName (s.seek inner opening.line)).outcome = (.ok element, u))
    (behind : u.cursor.tokens = closing :: rest) (closes : closing.kind = .bracketClose)
    (filled : element ≠ .void) (made : (u.seek rest closing.line).listOf element = (type, v)) :
    (typeName s).outcome = (.ok type, v) := by
  rw [typeName, State.take?_cons front]
  dsimp only
  rw [opens]
  dsimp only
  rw [Step.outcome_widen, Step.outcome_andThen read,
    Step.outcome_andThen (State.expect_cons .bracketClose behind closes), if_neg filled]
  exact outcome_ofPair made _

theorem typeName_array (front : s.cursor.tokens = opening :: inner) (opens : opening.kind = .less)
    (read : (typeName (s.seek inner opening.line)).outcome = (.ok element, u))
    (behind : u.cursor.tokens = closing :: rest) (closes : closing.kind = .greater)
    (made : (u.seek rest closing.line).arrayOf element = (type, v)) :
    (typeName s).outcome = (.ok type, v) := by
  rw [typeName, State.take?_cons front]
  dsimp only
  rw [opens]
  dsimp only
  rw [Step.outcome_widen, Step.outcome_andThen read,
    Step.outcome_andThen (State.expect_cons .greater behind closes)]
  exact outcome_ofPair made _

theorem typeName_reference {name : String} {line line' : Nat} {referent : TypeId}
    (front : s.cursor.tokens = .fixed .ampersand line :: .name name line' :: rest)
    (found : s.module.findType? s.program name = some referent)
    (made : (s.seek rest line').referenceTo referent = (type, v)) :
    (typeName s).outcome = (.ok type, v) := by
  let t : State := s.seek (.name name line' :: rest) line
  have single : (skipAmpersands line t).outcome = (.ok (), t) :=
    skipAmpersands_other (t := .name name line') rfl nofun
  have plain : (plainTypeName t).outcome = (.ok referent, s.seek rest line') :=
    plainTypeName_name (s := t) found rfl
  rw [typeName, State.take?_cons front]
  dsimp only [Token.fixed]
  rw [Step.outcome_widen, Step.outcome_andThen single, Step.outcome_andThen plain]
  exact outcome_ofPair made _

theorem typeName_name {name : String} {line : Nat}
    (front : s.cursor.tokens = .name name line :: rest)
    (found : s.module.findType? s.program name = some type) :
    (typeName s).outcome = (.ok type, s.seek rest line) := by
  rw [typeName, State.take?_cons front]
  exact plainTypeName_name found front

end Productions

/-- What is written for a type reads as that type. -/
theorem typeName_spells {d : Draft} (spells : d.Spells type tokens) (same : s.draft = d)
    (front : s.cursor.tokens = tokens ++ rest) :
    ∃ line, (typeName s).outcome = (.ok type, s.seek rest line) := by
  induction spells generalizing s rest with
  | @list element list inner filled found shown _ ih =>
    subst same
    rw [List.cons_append, List.append_assoc] at front
    obtain ⟨line, read⟩ := ih (s := s.seek _ 0) rfl rfl
    exact ⟨0, typeName_list front rfl read rfl rfl filled
      (State.listOf_shown (s := s.seek rest 0) found shown)⟩
  | @array element array inner found _ ih =>
    subst same
    rw [List.cons_append, List.append_assoc] at front
    obtain ⟨line, read⟩ := ih (s := s.seek _ 0) rfl rfl
    exact ⟨0, typeName_array front rfl read rfl rfl
      (State.arrayOf_found (s := s.seek rest 0) found)⟩
  | reference found named =>
    subst same
    exact ⟨0, typeName_reference front named
      (State.referenceTo_found (s := s.seek rest 0) found)⟩
  | name named =>
    subst same
    exact ⟨0, typeName_name front named⟩

end Grammar
end ObjectLang
