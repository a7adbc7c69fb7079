import ObjectLang.Module
set_option autoImplicit false

/-!
# What a module sees, as one list with a boundary

The ids that a module sees can be kept in one list: imports are inserted at its front, own ids are
appended, and a boundary counts the imports. A module's two parts are the two sides of that boundary
after any additions in any order. What stands on each side is told by the additions alone: an id is
visible from its first mention on, and what is mentioned again is not imported again.
-/

namespace ObjectLang

inductive Mention (ι : Type) where
  | own (id : ι)
  | imported (id : ι)

namespace Mention

variable {ι : Type}

def id : Mention ι → ι
  | .own id => id
  | .imported id => id

def own? : Mention ι → Option ι
  | .own id => some id
  | .imported _ => none

def imported? : Mention ι → Option ι
  | .own _ => none
  | .imported id => some id

def firsts [DecidableEq ι] (seen : List ι) : List (Mention ι) → List (Mention ι)
  | [] => []
  | mention :: rest =>
    if mention.id ∈ seen then firsts seen rest
    else mention :: firsts (mention.id :: seen) rest

theorem imported_sublist (mentions : List (Mention ι)) :
    (mentions.filterMap imported?).Sublist (mentions.map Mention.id) := by
  induction mentions with
  | nil => exact .slnil
  | cons mention rest ih =>
    cases mention with
    | own id => exact ih.cons id
    | imported id => exact ih.cons_cons id

variable [DecidableEq ι]

/-- Only what has been seen counts, not in which order. -/
theorem firsts_congr {seen seen' : List ι} (same : ∀ id, id ∈ seen ↔ id ∈ seen')
    (mentions : List (Mention ι)) : firsts seen mentions = firsts seen' mentions := by
  induction mentions generalizing seen seen' with
  | nil => rfl
  | cons mention rest ih =>
    have more : ∀ id, id ∈ mention.id :: seen ↔ id ∈ mention.id :: seen' := fun id => by
      rw [List.mem_cons, List.mem_cons, same id]
    rw [firsts, firsts, ih same, ih more]
    simp only [same]

theorem not_mem_seen_of_mem_firsts {seen : List ι} {mentions : List (Mention ι)}
    {mention : Mention ι} (mem : mention ∈ firsts seen mentions) : mention.id ∉ seen := by
  induction mentions generalizing seen with
  | nil => cases mem
  | cons first rest ih =>
    rw [firsts] at mem
    split at mem
    · exact ih mem
    · rename_i unseen
      rcases List.mem_cons.1 mem with rfl | later
      · exact unseen
      · exact fun earlier => ih later (.tail _ earlier)

theorem nodup_firsts (seen : List ι) (mentions : List (Mention ι)) :
    ((firsts seen mentions).map Mention.id).Nodup := by
  induction mentions generalizing seen with
  | nil => exact .nil
  | cons first rest ih =>
    rw [firsts]
    split
    · exact ih seen
    · refine List.nodup_cons.2 ⟨fun again => ?_, ih _⟩
      obtain ⟨mention, mem, same⟩ := List.mem_map.1 again
      exact not_mem_seen_of_mem_firsts mem (same ▸ .head _)

theorem nodup_imports (seen : List ι) (mentions : List (Mention ι)) :
    ((firsts seen mentions).filterMap imported?).Nodup :=
  (imported_sublist _).nodup (nodup_firsts seen mentions)

theorem firsts_cons (seen : List ι) (mention : Mention ι) (rest : List (Mention ι)) :
    firsts seen (mention :: rest) =
      (if mention.id ∈ seen then [] else [mention]) ++ firsts (mention.id :: seen) rest := by
  rw [firsts]
  split
  · rename_i old
    refine firsts_congr (fun id => ⟨.tail _, fun mem => ?_⟩) rest
    exact (List.mem_cons.1 mem).elim (· ▸ old) fun older => older
  · rfl

end Mention

/-- Imports and own ids in one list, the imports in front of the boundary. -/
structure Listing (ι : Type) where
  entries : List ι
  boundary : Nat

namespace Listing

variable {ι : Type}

def imported (l : Listing ι) : List ι := l.entries.take l.boundary

def own (l : Listing ι) : List ι := l.entries.drop l.boundary

def ofParts (imported own : List ι) : Listing ι := ⟨imported ++ own, imported.length⟩

theorem imported_ofParts (imported own : List ι) : (ofParts imported own).imported = imported :=
  List.take_left

theorem own_ofParts (imported own : List ι) : (ofParts imported own).own = own :=
  List.drop_left

/-- Of the later listing, the earlier one is a stretch that reaches the boundary from both sides. -/
structure Precedes (l l' : Listing ι) : Prop where
  boundary : l.boundary ≤ l'.boundary
  entries : l.entries <:+: l'.entries
  imported : l.imported <:+ l'.imported
  own : l.own <+: l'.own

namespace Precedes

theorem refl (l : Listing ι) : Precedes l l :=
  ⟨Nat.le_refl _, List.infix_rfl, List.suffix_rfl, List.prefix_rfl⟩

theorem trans {l l' l'' : Listing ι} (h : Precedes l l') (h' : Precedes l' l'') :
    Precedes l l'' :=
  ⟨Nat.le_trans h.boundary h'.boundary, h.entries.trans h'.entries, h.imported.trans h'.imported,
    h.own.trans h'.own⟩

end Precedes

variable {again : Bool} {l : Listing ι}

/-- The boundary stands in the list or at its end. -/
def Bounded (l : Listing ι) : Prop := l.boundary ≤ l.entries.length

theorem imported_append (bounded : l.Bounded) (id : ι) :
    ({ l with entries := l.entries ++ [id] } : Listing ι).imported = l.imported :=
  List.take_append_of_le_length bounded

theorem own_append (bounded : l.Bounded) (id : ι) :
    ({ l with entries := l.entries ++ [id] } : Listing ι).own = l.own ++ [id] :=
  List.drop_append_of_le_length bounded

variable [DecidableEq ι]

/-- Appends an own id and inserts an import at the front. What is visible already is not imported,
    and it is appended only where ids may be listed `again`. -/
def record (again : Bool) (l : Listing ι) : Mention ι → Listing ι
  | .own id =>
    if !again && l.entries.contains id then l else { l with entries := l.entries ++ [id] }
  | .imported id => if l.entries.contains id then l else ⟨id :: l.entries, l.boundary + 1⟩

def recordAll (again : Bool) (l : Listing ι) (mentions : List (Mention ι)) : Listing ι :=
  mentions.foldl (record again) l

theorem bounded_record (bounded : l.Bounded) (mention : Mention ι) :
    (l.record again mention).Bounded := by
  cases mention with
  | own id =>
    rw [record]
    split
    · exact bounded
    · exact Nat.le_trans bounded (by simp)
  | imported id =>
    rw [record]
    split
    · exact bounded
    · exact Nat.succ_le_succ bounded

theorem precedes_record (bounded : l.Bounded) (mention : Mention ι) :
    l.Precedes (l.record again mention) := by
  cases mention with
  | own id =>
    rw [record]
    split
    · exact .refl l
    · exact ⟨Nat.le_refl _, (List.prefix_append _ _).isInfix,
        imported_append bounded id ▸ List.suffix_rfl,
        own_append bounded id ▸ List.prefix_append _ _⟩
  | imported id =>
    rw [record]
    split
    · exact .refl l
    · exact ⟨Nat.le_succ _, (List.suffix_cons _ _).isInfix, List.suffix_cons _ _, List.prefix_rfl⟩

theorem precedes_recordAll (bounded : l.Bounded) (mentions : List (Mention ι)) :
    l.Precedes (l.recordAll again mentions) := by
  induction mentions generalizing l with
  | nil => exact .refl l
  | cons mention rest ih =>
    exact (precedes_record bounded mention).trans (ih (bounded_record bounded mention))

theorem mem_entries_record (mention : Mention ι) (id : ι) :
    id ∈ (l.record again mention).entries ↔ id ∈ mention.id :: l.entries := by
  cases mention with
  | own own =>
    rw [record]
    split
    · rename_i skipped
      have seen : own ∈ l.entries := by simpa using (Bool.and_eq_true_iff.1 skipped).2
      exact ⟨.tail _, fun mem => (List.mem_cons.1 mem).elim (· ▸ seen) (fun old => old)⟩
    · simp [Mention.id, or_comm]
  | imported imported =>
    rw [record]
    split
    · rename_i skipped
      have seen : imported ∈ l.entries := by simpa using skipped
      exact ⟨.tail _, fun mem => (List.mem_cons.1 mem).elim (· ▸ seen) (fun old => old)⟩
    · exact Iff.rfl

theorem imported_record (bounded : l.Bounded) (mention : Mention ι) :
    (l.record again mention).imported =
      (if mention.id ∈ l.entries then [] else [mention]).filterMap Mention.imported? ++
        l.imported := by
  cases mention with
  | own id =>
    have none : (if id ∈ l.entries then [] else [Mention.own id]).filterMap
        Mention.imported? = [] := by
      split <;> rfl
    rw [record, Mention.id, none]
    split
    · rfl
    · exact imported_append bounded id
  | imported id =>
    by_cases seen : id ∈ l.entries
    · simp [record, Mention.id, seen]
    · simp [record, Mention.id, seen, imported, Mention.imported?]

theorem own_record (bounded : l.Bounded) (mention : Mention ι) :
    (l.record again mention).own = l.own ++
      (if again || !l.entries.contains mention.id then [mention] else []).filterMap
        Mention.own? := by
  cases mention with
  | own id =>
    have guard : (!again && l.entries.contains id) = !(again || !l.entries.contains id) := by simp
    rw [record, Mention.id, guard]
    cases again || !l.entries.contains id with
    | false => exact (List.append_nil _).symm
    | true => exact own_append bounded id
  | imported id =>
    have none : (if again || !l.entries.contains id then [Mention.imported id] else []).filterMap
        Mention.own? = [] := by
      split <;> rfl
    rw [record, Mention.id, none, List.append_nil]
    split <;> rfl

structure Accounts (again : Bool) (l : Listing ι) (mentions : List (Mention ι))
    (l' : Listing ι) : Prop where
  bounded : l'.boundary ≤ l'.entries.length
  visible : ∀ id, id ∈ l'.entries ↔ id ∈ l.entries ∨ id ∈ mentions.map Mention.id
  imported : l'.imported =
    ((Mention.firsts l.entries mentions).filterMap Mention.imported?).reverse ++ l.imported
  own : l'.own = l.own ++
    (if again then mentions else Mention.firsts l.entries mentions).filterMap Mention.own?

theorem accounts_recordAll (bounded : l.Bounded) (mentions : List (Mention ι)) :
    Accounts again l mentions (l.recordAll again mentions) := by
  induction mentions generalizing l with
  | nil =>
    exact ⟨bounded, by simp [recordAll], rfl, by cases again <;> exact (List.append_nil _).symm⟩
  | cons mention rest ih =>
    have kept : (l.record again mention).Bounded := bounded_record bounded mention
    have entries : ∀ id, id ∈ (l.record again mention).entries ↔ id ∈ mention.id :: l.entries :=
      mem_entries_record mention
    have next := ih kept
    have seen := Mention.firsts_congr entries rest
    refine ⟨next.bounded, fun id => ?_, ?_, ?_⟩
    · have visible := next.visible id
      rw [mem_entries_record] at visible
      simpa [recordAll, or_assoc, or_left_comm, eq_comm] using visible
    · have imported := next.imported
      rw [seen, imported_record bounded] at imported
      rw [Mention.firsts_cons, List.filterMap_append, List.reverse_append, List.append_assoc]
      refine imported.trans (congrArg _ (congrArg (· ++ l.imported) ?_))
      split
      · rfl
      · cases mention <;> rfl
    · have own := next.own
      rw [seen, own_record bounded, List.append_assoc, ← List.filterMap_append] at own
      refine own.trans (congrArg (l.own ++ List.filterMap Mention.own? ·) ?_)
      cases again with
      | true => rfl
      | false =>
        rw [Mention.firsts_cons]
        by_cases mem : mention.id ∈ l.entries
        · simp [mem]
        · simp [mem]

end Listing

namespace Module

inductive Addition where
  | function (id : FunctionId)
  | type (id : TypeId)
  | importedFunction (id : FunctionId)
  | importedType (id : TypeId)

def Addition.function? : Addition → Option (Mention FunctionId)
  | .function id => some (.own id)
  | .importedFunction id => some (.imported id)
  | .type _ | .importedType _ => none

def Addition.type? : Addition → Option (Mention TypeId)
  | .type id => some (.own id)
  | .importedType id => some (.imported id)
  | .function _ | .importedFunction _ => none

def add (m : Module) : Addition → Module
  | .function id => m.addFunction id
  | .type id => m.addType id
  | .importedFunction id => m.importFunction id
  | .importedType id => m.importType id

def addAll (m : Module) (additions : List Addition) : Module := additions.foldl add m

def functionListing (m : Module) : Listing FunctionId := .ofParts m.importedFunctions m.ownFunctions

def typeListing (m : Module) : Listing TypeId := .ofParts m.importedTypes m.ownTypes

theorem functionListing_add (m : Module) (addition : Addition) :
    (m.add addition).functionListing =
      m.functionListing.recordAll true addition.function?.toList := by
  cases addition with
  | function id => simp [add, functionListing, addFunction, Listing.ofParts, Listing.recordAll,
      Listing.record, Addition.function?]
  | type id =>
    change (m.addType id).functionListing = m.functionListing
    rw [addType]
    split <;> rfl
  | importedFunction id =>
    change (m.importFunction id).functionListing = m.functionListing.record true (.imported id)
    rw [importFunction, Listing.record]
    change _ = if m.functions.contains id then _ else _
    split <;> rfl
  | importedType id =>
    change (m.importType id).functionListing = m.functionListing
    rw [importType]
    split <;> rfl

theorem typeListing_add (m : Module) (addition : Addition) :
    (m.add addition).typeListing = m.typeListing.recordAll false addition.type?.toList := by
  cases addition with
  | type id =>
    change (m.addType id).typeListing = m.typeListing.record false (.own id)
    rw [addType, Listing.record]
    change _ = if m.types.contains id then _ else _
    split
    · rfl
    · simp [typeListing, Listing.ofParts]
  | importedType id =>
    change (m.importType id).typeListing = m.typeListing.record false (.imported id)
    rw [importType, Listing.record]
    change _ = if m.types.contains id then _ else _
    split <;> rfl
  | function id => rfl
  | importedFunction id =>
    change (m.importFunction id).typeListing = m.typeListing
    rw [importFunction]
    split <;> rfl

theorem functionListing_addAll (m : Module) (additions : List Addition) :
    (m.addAll additions).functionListing =
      m.functionListing.recordAll true (additions.filterMap Addition.function?) := by
  induction additions generalizing m with
  | nil => rfl
  | cons addition rest ih =>
    refine (ih (m.add addition)).trans ?_
    rw [functionListing_add, List.filterMap_cons]
    cases addition.function? with
    | none => rfl
    | some mention => rfl

theorem typeListing_addAll (m : Module) (additions : List Addition) :
    (m.addAll additions).typeListing =
      m.typeListing.recordAll false (additions.filterMap Addition.type?) := by
  induction additions generalizing m with
  | nil => rfl
  | cons addition rest ih =>
    refine (ih (m.add addition)).trans ?_
    rw [typeListing_add, List.filterMap_cons]
    cases addition.type? with
    | none => rfl
    | some mention => rfl

theorem bounded_functionListing (m : Module) : m.functionListing.Bounded := by
  simp [Listing.Bounded, functionListing, Listing.ofParts]

theorem bounded_typeListing (m : Module) : m.typeListing.Bounded := by
  simp [Listing.Bounded, typeListing, Listing.ofParts]

def builtinTypes : List TypeId := Primitive.all.map Primitive.id ++ [.object]

/-- The lists of a module after any additions. They are one list each with a boundary in it, which
    never moves back. Own functions are listed as they were added. Own types, behind the builtin
    ones, and imports, the latest in front, are listed once, where they were not visible before, and
    visible is what has been mentioned. What was listed stays listed, in its order. -/
theorem lists_of_additions (name : String) (index : Nat) (additions : List Addition) :
    let m := (new name index).addAll additions
    let functions := additions.filterMap Addition.function?
    let types := additions.filterMap Addition.type?
    (m.functionListing = Listing.recordAll true ⟨[], 0⟩ functions ∧
      m.typeListing = Listing.recordAll false ⟨builtinTypes, 0⟩ types) ∧
    (m.functionListing.boundary ≤ m.functions.length ∧ m.typeListing.boundary ≤ m.types.length) ∧
    (m.ownFunctions = functions.filterMap Mention.own? ∧
      m.ownTypes = builtinTypes ++ (Mention.firsts builtinTypes types).filterMap Mention.own?) ∧
    (m.importedFunctions = ((Mention.firsts [] functions).filterMap Mention.imported?).reverse ∧
      m.importedFunctions.Nodup) ∧
    (m.importedTypes = ((Mention.firsts builtinTypes types).filterMap Mention.imported?).reverse ∧
      m.importedTypes.Nodup) ∧
    (∀ id, id ∈ m.functions ↔ id ∈ functions.map Mention.id) ∧
    (∀ id, id ∈ m.types ↔ id ∈ builtinTypes ∨ id ∈ types.map Mention.id) ∧
    ∀ later, m.functionListing.Precedes (m.addAll later).functionListing ∧
      m.typeListing.Precedes (m.addAll later).typeListing := by
  intro m functions types
  have recordedFunctions : m.functionListing = Listing.recordAll true ⟨[], 0⟩ functions :=
    functionListing_addAll (new name index) additions
  have recordedTypes : m.typeListing = Listing.recordAll false ⟨builtinTypes, 0⟩ types :=
    typeListing_addAll (new name index) additions
  have accountFunctions : Listing.Accounts true ⟨[], 0⟩ functions m.functionListing := by
    rw [recordedFunctions]
    exact Listing.accounts_recordAll (Nat.zero_le _) functions
  have accountTypes : Listing.Accounts false ⟨builtinTypes, 0⟩ types m.typeListing := by
    rw [recordedTypes]
    exact Listing.accounts_recordAll (Nat.zero_le _) types
  have importedFunctions := accountFunctions.imported
  have importedTypes := accountTypes.imported
  have ownFunctions := accountFunctions.own
  have ownTypes := accountTypes.own
  rw [functionListing, Listing.imported_ofParts] at importedFunctions
  rw [typeListing, Listing.imported_ofParts] at importedTypes
  rw [functionListing, Listing.own_ofParts] at ownFunctions
  rw [typeListing, Listing.own_ofParts] at ownTypes
  replace importedFunctions := importedFunctions.trans (List.append_nil _)
  replace importedTypes := importedTypes.trans (List.append_nil _)
  refine ⟨⟨recordedFunctions, recordedTypes⟩, ⟨accountFunctions.bounded, accountTypes.bounded⟩,
    ⟨ownFunctions, ownTypes⟩, ⟨importedFunctions, ?_⟩, ⟨importedTypes, ?_⟩, fun id => ?_,
    accountTypes.visible, fun later => ⟨?_, ?_⟩⟩
  · rw [importedFunctions]
    exact (List.reverse_perm _).nodup_iff.2 (Mention.nodup_imports [] functions)
  · rw [importedTypes]
    exact (List.reverse_perm _).nodup_iff.2 (Mention.nodup_imports builtinTypes types)
  · exact (accountFunctions.visible id).trans (by simp)
  · rw [functionListing_addAll m later]
    exact Listing.precedes_recordAll (bounded_functionListing m) _
  · rw [typeListing_addAll m later]
    exact Listing.precedes_recordAll (bounded_typeListing m) _

/-- An import behind an own function, and once more. -/
example : ((new "m" 1).addAll [.function ⟨1⟩, .importedFunction ⟨2⟩, .importedFunction ⟨1⟩,
    .importedFunction ⟨2⟩, .function ⟨1⟩]).functions = [⟨2⟩, ⟨1⟩, ⟨1⟩] := by
  decide

end Module
end ObjectLang
