import ObjectLang.Proofs.Printing.TypeName
import ObjectLang.Proofs.Program.Interner
import ObjectLang.Proofs.Token.Lexed
set_option autoImplicit false

/-!
# Spelled types

The name of a type is a text: the types that have names of their own stand in it as words, inside the
brackets of arrays and lists and behind the ampersands of references. Cut into tokens and read in a
file that sees those types, it is the type again, and nothing was made for it.
-/

namespace ObjectLang

namespace Piece

theorem cut_of_lead {kind : TokenKind} {c : Char} {body rest : List Char}
    (h : lead c (body ++ rest) = (some kind, body.length)) :
    cut (c :: (body ++ rest)) = ⟨some kind, c :: body⟩ :: cut rest := by
  rw [cut_cons, h]
  dsimp only
  rw [List.take_left, List.drop_left]

theorem cut_symbol {kind : TokenKind} {c : Char} {rest : List Char}
    (mem : (c, kind) ∈ TokenKind.symbols) (slash : c ≠ '/')
    (alone : ∀ d ∈ rest.head?, TokenKind.pairs.lookup (c, d) = none) :
    cut (c :: rest) = ⟨some kind, [c]⟩ :: cut rest := by
  obtain ⟨plain, known⟩ := isPlain_of_symbol mem
  have leads : lead c ([] ++ rest) = (some kind, ([] : List Char).length) := by
    rw [List.nil_append, lead_plain plain fun h => slash h.1, symbolRest_symbol alone, known]
    rfl
  exact cut_of_lead leads

theorem cut_word {c : Char} {body rest : List Char} (start : isWordStart c = true)
    (parts : ∀ d ∈ body, isWordPart d = true) (stop : ∀ d ∈ rest.head?, isWordPart d = false) :
    cut (c :: (body ++ rest)) = ⟨some (.ofWord (String.ofList (c :: body))), c :: body⟩ :: cut rest := by
  refine cut_of_lead ?_
  rw [lead_word start, run_eq_length parts stop, List.take_left]

/-- What the name of a type begins with. -/
def beginsType (c : Char) : Bool := isWordStart c || ['<', '[', '&'].contains c

def endsType (c : Char) : Bool := ['>', ']'].contains c

theorem lookup_pairs_eq_none {c d : Char} (other : ∀ e ∈ TokenKind.pairs, e.1 ≠ (c, d)) :
    TokenKind.pairs.lookup (c, d) = none :=
  List.lookup_eq_none_iff.2 fun e he => bne_iff_ne.2 fun same => other e he same.symm

theorem lookup_pairs_of_beginsType {d : Char} (begins : beginsType d = true) (c : Char) :
    TokenKind.pairs.lookup (c, d) = none := by
  have each : ∀ e ∈ TokenKind.pairs, beginsType e.1.2 = false := by decide
  refine lookup_pairs_eq_none fun e he same => ?_
  have second := each e he
  rw [same, begins] at second
  cases second

theorem lookup_pairs_of_endsType {c d : Char} (hc : endsType c = true) (hd : endsType d = true) :
    TokenKind.pairs.lookup (c, d) = none := by
  have each : ∀ e ∈ TokenKind.pairs, (endsType e.1.1 && endsType e.1.2) = false := by decide
  refine lookup_pairs_eq_none fun e he same => ?_
  have pair := each e he
  rw [same, hc, hd] at pair
  cases pair

theorem isWordPart_of_endsType {c : Char} (h : endsType c = true) : isWordPart c = false := by
  obtain rfl | rfl := List.mem_pair.1 (List.contains_iff_mem.1 h) <;> decide

def IsIdentifier (text : List Char) : Prop :=
  ∃ c body, text = c :: body ∧ isWordStart c = true ∧ (∀ d ∈ body, isWordPart d = true) ∧
    TokenKind.ofWord (String.ofList text) = .identifier

end Piece

namespace Lexed

open Piece

/-- A text that begins like the name of a type, and becomes the tokens on the first line where nothing
    or a closing bracket stands behind it. -/
structure Yields (text : List Char) (tokens : List Token) : Prop where
  begins : ∃ c body, text = c :: body ∧ beginsType c = true
  tokens : ∀ (file : String) (rest : List Char), (∀ c ∈ rest.head?, endsType c = true) →
    tokensFrom file 1 (cut (text ++ rest)) = tokens ++ tokensFrom file 1 (cut rest)
  errors : ∀ rest : List Char, (∀ c ∈ rest.head?, endsType c = true) →
    errorsFrom 1 (cut (text ++ rest)) = errorsFrom 1 (cut rest)

theorem tokensFrom_shown {kind : TokenKind} {text : List Char} (shown : kind ≠ .whitespace)
    (line : '\n' ∉ text) (file : String) (ps : List Piece) :
    tokensFrom file 1 (⟨some kind, text⟩ :: ps) =
      ⟨kind, String.ofList text, 1⟩ :: tokensFrom file 1 ps := by
  rw [tokensFrom_cons, token?_of_kind shown, List.count_eq_zero_of_not_mem line]
  rfl

theorem errorsFrom_shown {kind : TokenKind} {text : List Char} (line : '\n' ∉ text)
    (ps : List Piece) : errorsFrom 1 (⟨some kind, text⟩ :: ps) = errorsFrom 1 ps := by
  rw [errorsFrom_cons, List.count_eq_zero_of_not_mem line]
  rfl

namespace Yields

theorem word {text : List Char} (identifier : IsIdentifier text) :
    Yields text [.name (String.ofList text) 1] := by
  obtain ⟨c, body, rfl, start, parts, kind⟩ := identifier
  have line : '\n' ∉ c :: body :=
    List.not_mem_cons_of_ne_of_not_mem (ne_of_class start rfl).symm (not_mem_of_class rfl parts)
  have cuts (rest : List Char) (stop : ∀ d ∈ rest.head?, endsType d = true) :
      cut (c :: (body ++ rest)) = ⟨some .identifier, c :: body⟩ :: cut rest := by
    rw [cut_word start parts fun d hd => isWordPart_of_endsType (stop d hd), kind]
  refine ⟨⟨c, body, rfl, ?_⟩, fun file rest stop => ?_, fun rest stop => ?_⟩
  · rw [beginsType, start]
    rfl
  · rw [List.cons_append, cuts rest stop]
    exact tokensFrom_shown (by decide) line file _
  · rw [List.cons_append, cuts rest stop]
    exact errorsFrom_shown line _

variable {text : List Char} {tokens : List Token} {c : Char} {kind : TokenKind}

theorem cons (h : Yields text tokens) (mem : (c, kind) ∈ TokenKind.symbols)
    (opens : beginsType c = true) : Yields (c :: text) (⟨kind, String.ofList [c], 1⟩ :: tokens) := by
  have slash : c ≠ '/' := ne_of_class opens rfl
  have line : '\n' ∉ [c] := fun mem => ne_of_class opens rfl (List.mem_singleton.1 mem).symm
  have cuts (rest : List Char) : cut (c :: (text ++ rest)) = ⟨some kind, [c]⟩ :: cut (text ++ rest) := by
    obtain ⟨d, body, rfl, begins⟩ := h.begins
    refine cut_symbol mem slash ?_
    rintro _ ⟨⟩
    exact lookup_pairs_of_beginsType begins c
  refine ⟨⟨c, text, rfl, opens⟩, fun file rest stop => ?_, fun rest stop => ?_⟩
  · rw [List.cons_append, cuts, tokensFrom_shown (TokenKind.shown_of_symbol mem).1 line,
      h.tokens file rest stop]
    rfl
  · rw [List.cons_append, cuts, errorsFrom_shown line, h.errors rest stop]

theorem concat (h : Yields text tokens) (mem : (c, kind) ∈ TokenKind.symbols)
    (closes : endsType c = true) :
    Yields (text ++ [c]) (tokens ++ [⟨kind, String.ofList [c], 1⟩]) := by
  have slash : c ≠ '/' := ne_of_class closes rfl
  have line : '\n' ∉ [c] := fun mem => ne_of_class closes rfl (List.mem_singleton.1 mem).symm
  have stops (rest : List Char) : ∀ d ∈ (c :: rest).head?, endsType d = true := by
    rintro _ ⟨⟩
    exact closes
  have cuts (rest : List Char) (stop : ∀ d ∈ rest.head?, endsType d = true) :
      cut (c :: rest) = ⟨some kind, [c]⟩ :: cut rest :=
    cut_symbol mem slash fun d hd => lookup_pairs_of_endsType closes (stop d hd)
  obtain ⟨d, body, rfl, begins⟩ := h.begins
  refine ⟨⟨d, body ++ [c], rfl, begins⟩, fun file rest stop => ?_, fun rest stop => ?_⟩
  · rw [List.append_assoc, List.singleton_append, h.tokens file _ (stops rest), cuts rest stop,
      tokensFrom_shown (TokenKind.shown_of_symbol mem).1 line, List.append_assoc]
    rfl
  · rw [List.append_assoc, List.singleton_append, h.errors _ (stops rest), cuts rest stop,
      errorsFrom_shown line]

theorem ofText {text : String} {tokens : List Token} (h : Yields text.toList tokens)
    (file : String) : Lexed.ofText file text = ⟨file, tokens ++ [.endOfFile file 1], []⟩ := by
  have nothing : ∀ c ∈ ([] : List Char).head?, endsType c = true := nofun
  have whole := h.tokens file [] nothing
  have right := h.errors [] nothing
  rw [List.append_nil] at whole right
  simp only [Lexed.ofText, whole, right, cut_nil]
  rfl

end Yields
end Lexed

/-- A primitive type, the base of all objects, or a declared object type. -/
def Ty.isNamed : Ty → Bool
  | primitive _ | object .. => true
  | _ => false

namespace Program

variable {p : Program} {m : Module}

/-- A type whose own name is an identifier, and that a file sees under it. -/
structure Names (p : Program) (m : Module) (type : TypeId) : Prop where
  named : (p.types.get type).isNamed = true
  identifier : Piece.IsIdentifier (p.types.name type).toList
  found : m.findType? p (p.types.name type) = some type

/-- The types that are built from named ones by arrays, by lists of anything but `Void`, and by
    references directly to named ones. -/
inductive Writes (p : Program) (m : Module) : TypeId → Prop
  | named {type : TypeId} (names : p.Names m type) : Writes p m type
  | array {element array : TypeId} (built : p.types.get array = .array element)
      (writes : Writes p m element) : Writes p m array
  | list {element list : TypeId} {members : Members}
      (built : p.types.get list = .list element members) (filled : element ≠ .void)
      (writes : Writes p m element) : Writes p m list
  | reference {referent reference : TypeId}
      (built : p.types.get reference = .reference referent) (names : p.Names m referent) :
      Writes p m reference

/-- A reading of the tokens, from a state in which the file sees at least what `m` shows, takes them
    for the type. Lists that the program has may be shown to the file on the way. -/
def ReadsAs (p : Program) (m : Module) (type : TypeId) (tokens : List Token) : Prop :=
  ∀ (s : Grammar.State) (rest : List Token), s.program = p → m.types <+: s.module.types →
    s.cursor.tokens = tokens ++ rest →
    ∃ lists : List TypeId, (∀ list ∈ lists, ∃ element members, p.types.get list = .list element members) ∧
      (Grammar.typeName s).outcome =
        (.ok type, { s.seek rest 1 with module := lists.foldl Module.addType s.module })

variable {type : TypeId}

theorem Names.readsAs (names : p.Names m type) : p.ReadsAs m type [.name (p.types.name type) 1] := by
  intro s rest program shown front
  subst program
  exact ⟨[], nofun, Grammar.typeName_name front (Module.findType?_of_prefix shown names.found)⟩

theorem readsAs_array {element : TypeId} {tokens : List Token} (h : p.ReadsAs m element tokens)
    (found : p.types.findArray? element = some type) :
    p.ReadsAs m type (.fixed .less 1 :: (tokens ++ [.fixed .greater 1])) := by
  intro s rest program shown front
  subst program
  rw [List.cons_append, List.append_assoc] at front
  obtain ⟨lists, stored, read⟩ := h (s.seek (tokens ++ .fixed .greater 1 :: rest) 1) _ rfl shown rfl
  exact ⟨lists, stored, Grammar.typeName_array front rfl read rfl rfl
    (Grammar.State.arrayOf_found found)⟩

theorem readsAs_list {element : TypeId} {tokens : List Token} {members : Members}
    (h : p.ReadsAs m element tokens) (filled : element ≠ .void)
    (built : p.types.get type = .list element members)
    (found : p.types.findList? element = some type) :
    p.ReadsAs m type (.fixed .bracketOpen 1 :: (tokens ++ [.fixed .bracketClose 1])) := by
  intro s rest program shown front
  subst program
  rw [List.cons_append, List.append_assoc] at front
  obtain ⟨lists, stored, read⟩ :=
    h (s.seek (tokens ++ .fixed .bracketClose 1 :: rest) 1) _ rfl shown rfl
  refine ⟨lists ++ [type], ?_, ?_⟩
  · exact List.forall_mem_append.2 ⟨stored, List.forall_mem_singleton.2 ⟨element, members, built⟩⟩
  · rw [List.foldl_append]
    exact Grammar.typeName_list front rfl read rfl rfl filled (Grammar.State.listOf_found found)

theorem readsAs_reference {referent : TypeId} (names : p.Names m referent)
    (found : p.types.findReference? referent = some type) :
    p.ReadsAs m type [.fixed .ampersand 1, .name (p.types.name referent) 1] := by
  intro s rest program shown front
  subst program
  exact ⟨[], nofun, Grammar.typeName_reference front
    (Module.findType?_of_prefix shown names.found) (Grammar.State.referenceTo_found found)⟩

open Lexed in
theorem Names.yields (names : p.Names m type) :
    Yields (p.types.name type).toList [.name (p.types.name type) 1] := by
  have word := Yields.word names.identifier
  rwa [String.ofList_toList] at word

open Lexed in
/-- The name of a type becomes tokens that are read as the type. -/
theorem Writes.spells (interned : p.types.Interned) (writes : p.Writes m type) :
    ∃ tokens, Yields (p.types.name type).toList tokens ∧ p.ReadsAs m type tokens := by
  induction writes with
  | named names => exact ⟨_, names.yields, names.readsAs⟩
  | @array element array built _ ih =>
    obtain ⟨tokens, yields, reads⟩ := ih
    have found : p.types.findArray? element = some array :=
      interned .array element array (Former.array_iff.2 built)
    have name : (p.types.name array).toList = '<' :: ((p.types.name element).toList ++ ['>']) := by
      rw [Registry.name_unfold, built]
      simp
    rw [name]
    refine ⟨.fixed .less 1 :: (tokens ++ [.fixed .greater 1]),
      (yields.concat ?_ rfl).cons ?_ rfl, readsAs_array reads found⟩ <;> decide
  | @list element list members built filled _ ih =>
    obtain ⟨tokens, yields, reads⟩ := ih
    have found : p.types.findList? element = some list :=
      interned .list element list (Former.list_iff.2 ⟨members, built⟩)
    have name : (p.types.name list).toList = '[' :: ((p.types.name element).toList ++ [']']) := by
      rw [Registry.name_unfold, built]
      simp
    rw [name]
    refine ⟨.fixed .bracketOpen 1 :: (tokens ++ [.fixed .bracketClose 1]),
      (yields.concat ?_ rfl).cons ?_ rfl, readsAs_list reads filled built found⟩ <;> decide
  | @reference referent reference built names =>
    have found : p.types.findReference? referent = some reference :=
      interned .reference referent reference (Former.reference_iff.2 built)
    have name : (p.types.name reference).toList = '&' :: (p.types.name referent).toList := by
      rw [Registry.name_unfold, built]
      simp
    rw [name]
    exact ⟨[.fixed .ampersand 1, .name (p.types.name referent) 1],
      names.yields.cons (by decide) rfl, readsAs_reference names found⟩

/-- The name of a type reads as the type, in every program that was made. Its tokens are cut from it
    without an error and are all taken; nothing is reported, and types and functions stay as they are.
    At most, lists that are there already are shown to the file. -/
theorem typeName_of_name (made : Operations {} p) (writes : p.Writes m type) (file : String) :
    ∃ tokens, Lexed.ofText file (p.types.name type) = ⟨file, tokens ++ [.endOfFile file 1], []⟩ ∧
      ∀ (s : Grammar.State) (rest : List Token), s.program = p → s.module = m →
        s.cursor.tokens = tokens ++ rest →
        ∃ lists : List TypeId,
          (∀ list ∈ lists, ∃ element members, p.types.get list = .list element members) ∧
          (Grammar.typeName s).result = .ok type ∧
          (Grammar.typeName s).state = { s with
            cursor := { s.cursor with tokens := rest, line := 1 }
            module := lists.foldl Module.addType m } := by
  obtain ⟨tokens, yields, reads⟩ := writes.spells (made.interned Registry.interned_initial)
  refine ⟨tokens, yields.ofText file, fun s rest program module front => ?_⟩
  subst program module
  obtain ⟨lists, stored, read⟩ := reads s rest rfl List.prefix_rfl front
  exact ⟨lists, stored, congrArg Prod.fst read, congrArg Prod.snd read⟩

/-- An array of lists of references to a declared type. -/
def boxes : Program :=
  let box : Program := { types := (Registry.initial.declare "Box" none).2 }
  (((box.referenceTo ⟨6⟩).2.listOf ⟨7⟩).2.arrayOf ⟨9⟩).2

theorem boxes_made : Operations {} boxes := by
  have box := Operation.declare (p := {}) "Box" none nofun
  exact (Relation.ReflTransGen.single box).tail (.referenceTo ⟨6⟩ (by decide))
    |>.tail (.listOf ⟨7⟩ (by decide +kernel)) |>.tail (.arrayOf ⟨9⟩ (by decide +kernel))

/-- A file that sees the declared type, but not the list, reads `<[&Box]>`. -/
theorem typeName_of_name_boxes :
    let m := (Module.new "m" 1).addType ⟨6⟩
    let tokens := (Lexed.ofText "m" "<[&Box]>").tokens
    let s : Grammar.State :=
      { cursor := .ofTokens "m" tokens, program := boxes, diagnostics := default, module := m }
    boxes.types.name ⟨10⟩ = "<[&Box]>" ∧ boxes.Writes m ⟨10⟩ ∧
      (Grammar.typeName s).result = .ok ⟨10⟩ ∧
      (Grammar.typeName s).state.cursor.tokens = [.endOfFile "m" 1] := by
  intro m tokens s
  have name : boxes.types.name ⟨10⟩ = "<[&Box]>" := by decide +kernel
  have identifier : Piece.IsIdentifier (boxes.types.name ⟨6⟩).toList :=
    ⟨'B', ['o', 'x'], by decide +kernel, by decide,
      List.forall_mem_cons.2 ⟨by decide, List.forall_mem_singleton.2 (by decide)⟩,
      by decide +kernel⟩
  have box : boxes.Names m ⟨6⟩ := ⟨by decide +kernel, identifier, by decide +kernel⟩
  have array : boxes.types.findArray? ⟨9⟩ = some ⟨10⟩ := by decide +kernel
  have list : boxes.types.findList? ⟨7⟩ = some ⟨9⟩ := by decide +kernel
  have reference : boxes.types.findReference? ⟨6⟩ = some ⟨7⟩ := by decide +kernel
  obtain ⟨members, list⟩ := get_of_findList? list
  have writes : boxes.Writes m ⟨10⟩ :=
    .array (Registry.get_of_findArray? array) (.list list (by decide)
      (.reference (Registry.get_of_findReference? reference) box))
  obtain ⟨tokens', cut, reads⟩ := typeName_of_name boxes_made writes "m"
  rw [name] at cut
  obtain ⟨lists, -, result, state⟩ := reads s [.endOfFile "m" 1] rfl rfl (congrArg Lexed.tokens cut)
  exact ⟨name, writes, result, by rw [state]⟩

end Program
end ObjectLang
