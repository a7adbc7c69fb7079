import ObjectLang.Proofs.Token.Cut
import ObjectLang.Token.Lexed
set_option autoImplicit false

/-!
# Tokens of a text

Every character of a text belongs to one token, to one text that is reported, or to one that is
skipped. Lines are counted by the line feeds in front. A line feed separates what stands before it
from what stands behind it: two texts with a line feed between them have the tokens of the one and,
further down, the tokens of the other.
-/

namespace ObjectLang

namespace Piece

def token? (line : Nat) (p : Piece) : Option Token :=
  match p.kind with
  | none | some .whitespace => none
  | some kind => some ⟨kind, String.ofList p.text, line⟩

theorem token?_of_kind {kind : TokenKind} (shown : kind ≠ .whitespace) (line : Nat)
    (text : List Char) : (⟨some kind, text⟩ : Piece).token? line =
      some ⟨kind, String.ofList text, line⟩ := by
  cases kind
  case whitespace => exact absurd rfl shown
  all_goals rfl

theorem token?_eq_some {p : Piece} {line : Nat} {t : Token} (h : p.token? line = some t) :
    p.kind = some t.kind ∧ p.text = t.text.toList ∧ t.line = line := by
  obtain ⟨_ | kind, text⟩ := p
  · cases h
  · by_cases white : kind = .whitespace
    · subst white
      cases h
    · rw [token?_of_kind white] at h
      obtain rfl := Option.some.inj h
      exact ⟨rfl, String.toList_ofList.symm, rfl⟩

def error? (line : Nat) (p : Piece) : Option SyntaxError :=
  match p.kind with
  | none => some ⟨.invalidToken (String.ofList p.text), line⟩
  | some _ => none

end Piece

namespace Lexed

theorem tokensFrom_cons (file : String) (line : Nat) (p : Piece) (ps : List Piece) :
    tokensFrom file line (p :: ps) =
      (p.token? line).toList ++ tokensFrom file (line + p.text.count '\n') ps := by
  obtain ⟨_ | kind, text⟩ := p
  · rfl
  · cases kind <;> rfl

theorem errorsFrom_cons (line : Nat) (p : Piece) (ps : List Piece) :
    errorsFrom line (p :: ps) =
      (p.error? line).toList ++ errorsFrom (line + p.text.count '\n') ps := by
  obtain ⟨_ | kind, text⟩ := p <;> rfl

end Lexed

structure Slice where
  start : Nat
  piece : Piece

def lineAt (cs : List Char) (n : Nat) : Nat := 1 + (cs.take n).count '\n'

theorem lineAt_length (before rest : List Char) :
    lineAt (before ++ rest) before.length = 1 + before.count '\n' := by
  rw [lineAt, List.take_left]

namespace Slice

def line (cs : List Char) (s : Slice) : Nat := lineAt cs s.start

/-- The slices are the text from its character `n` on, one behind the other, and each is what the
    text begins with there. -/
inductive Tile (cs : List Char) : Nat → List Slice → Prop
  | done : Tile cs cs.length []
  | next {n : Nat} {p : Piece} {rest : List Slice} (begins : Piece.Begins (cs.drop n) p)
      (more : Tile cs (n + p.text.length) rest) : Tile cs n (⟨n, p⟩ :: rest)

theorem Tile.begins {cs : List Char} {n : Nat} {slices : List Slice} (h : Tile cs n slices) :
    ∀ s ∈ slices, Piece.Begins (cs.drop s.start) s.piece := by
  induction h with
  | done => simp
  | next begins _ ih => exact List.forall_mem_cons.2 ⟨begins, ih⟩

def ofPieces (n : Nat) : List Piece → List Slice
  | [] => []
  | p :: rest => ⟨n, p⟩ :: ofPieces (n + p.text.length) rest

theorem tile_cut (before cs : List Char) :
    Tile (before ++ cs) before.length (ofPieces before.length (Piece.cut cs)) := by
  induction cs using Piece.cut.induct generalizing before with
  | case1 =>
    have empty : Tile before before.length [] := .done
    simpa [Piece.cut_nil, ofPieces] using empty
  | case2 c cs kind rest h ih =>
    have begins := Piece.begins_lead c cs
    rw [Piece.cut_cons, h] at *
    have later := ih (before ++ c :: cs.take rest)
    have same : before ++ c :: cs.take rest ++ cs.drop rest = before ++ c :: cs := by simp
    rw [same, List.length_append] at later
    exact .next (by simpa using begins) later

/-- Counting the line feeds while going along comes to counting those in front. -/
theorem filterMap_ofPieces {α : Type} (f : Nat → Piece → Option α) (from_ : Nat → List Piece → List α)
    (unfold : ∀ line p ps, from_ line (p :: ps) =
      (f line p).toList ++ from_ (line + p.text.count '\n') ps) (before : List Char)
    (ps : List Piece) :
    from_ (1 + before.count '\n') ps =
      (ofPieces before.length ps).filterMap
          (fun s => f (s.line (before ++ ps.flatMap Piece.text)) s.piece) ++
        from_ (lineAt (before ++ ps.flatMap Piece.text)
          (before ++ ps.flatMap Piece.text).length) [] := by
  induction ps generalizing before with
  | nil => simp [ofPieces, lineAt]
  | cons p ps ih =>
    have later := ih (before ++ p.text)
    rw [List.append_assoc, List.count_append, ← Nat.add_assoc, List.length_append] at later
    rw [unfold, List.flatMap_cons, ofPieces, later]
    simp only [List.filterMap_cons, line, lineAt_length]
    cases f (1 + before.count '\n') p <;> rfl

end Slice

inductive Skipped : List Char → Prop
  | blanks {cs : List Char} (spaces : ∀ c ∈ cs, Piece.isSpace c = true) : Skipped cs
  | lineFeed : Skipped ['\n']
  | comment {cs : List Char} (line : ∀ c ∈ cs, c ≠ '\n' ∧ c ≠ '\r') : Skipped ('/' :: '/' :: cs)

namespace TokenKind

theorem shown_of_word {word : String} {kind : TokenKind} (mem : (word, kind) ∈ words) :
    kind ≠ .whitespace ∧ kind ≠ .endOfFile := by
  have each : ∀ e ∈ words, e.2 ≠ .whitespace ∧ e.2 ≠ .endOfFile := by decide
  exact each _ mem

theorem shown_of_pair {pair : Char × Char} {kind : TokenKind} (mem : (pair, kind) ∈ pairs) :
    kind ≠ .whitespace ∧ kind ≠ .endOfFile := by
  have each : ∀ e ∈ pairs, e.2 ≠ .whitespace ∧ e.2 ≠ .endOfFile := by decide
  exact each _ mem

theorem shown_of_symbol {c : Char} {kind : TokenKind} (mem : (c, kind) ∈ symbols) :
    kind ≠ .whitespace ∧ kind ≠ .endOfFile := by
  have each : ∀ e ∈ symbols, e.2 ≠ .whitespace ∧ e.2 ≠ .endOfFile := by decide
  exact each _ mem

end TokenKind

theorem Piece.skipped_of_matches {text : List Char} (h : Matches .whitespace text) :
    Skipped text := by
  cases h with
  | word mem => exact absurd rfl (TokenKind.shown_of_word mem).1
  | pair mem => exact absurd rfl (TokenKind.shown_of_pair mem).1
  | symbol mem => exact absurd rfl (TokenKind.shown_of_symbol mem).1
  | comment line => exact .comment line
  | lineFeed => exact .lineFeed
  | spaces space more => exact .blanks (List.forall_mem_cons.2 ⟨space, more⟩)

theorem Piece.ne_endOfFile_of_matches {kind : TokenKind} {text : List Char}
    (h : Matches kind text) : kind ≠ .endOfFile := by
  cases h with
  | word mem => exact (TokenKind.shown_of_word mem).2
  | pair mem => exact (TokenKind.shown_of_pair mem).2
  | symbol mem => exact (TokenKind.shown_of_symbol mem).2
  | zero | integer | rational | string | marker | identifier | comment | lineFeed | spaces =>
    simp

theorem Piece.Begins.matches_of_kind {cs : List Char} {p : Piece} (h : Begins cs p)
    {kind : TokenKind} (is : p.kind = some kind) : Matches kind p.text := by
  cases h with
  | longest _ fits => exact Option.some.inj is ▸ fits
  | stray => cases is

namespace Lexed

/-- The slices account for every character of the text and for what came of it. -/
structure Accounts (l : Lexed) (cs : List Char) (slices : List Slice) : Prop where
  tiles : Slice.Tile cs 0 slices
  nonempty : ∀ s ∈ slices, s.piece.text ≠ []
  tokens : l.tokens = slices.filterMap (fun s => s.piece.token? (s.line cs)) ++
    [.endOfFile l.file (lineAt cs cs.length)]
  diagnostics : l.diagnostics = (slices.filterMap fun s => s.piece.error? (s.line cs)).map
    fun e => ⟨.error, l.file, e.line, e.message⟩
  skipped : ∀ s ∈ slices, s.piece.kind = some .whitespace → Skipped s.piece.text
  /-- Lines end at a line feed of their own and nowhere else. -/
  lineFeeds : ∀ s ∈ slices, '\n' ∈ s.piece.text → s.piece = .lineFeed
  closing : ∀ s ∈ slices, s.piece.kind ≠ some .endOfFile

/-- Every character of a text belongs to a token, to what is reported or to what is skipped. -/
theorem ofText_accounts (file text : String) :
    ∃ slices, (ofText file text).Accounts text.toList slices := by
  have whole : (Piece.cut text.toList).flatMap Piece.text = text.toList :=
    Piece.flatMap_text_cut _
  have tiles : Slice.Tile text.toList 0 (Slice.ofPieces 0 (Piece.cut text.toList)) :=
    Slice.tile_cut [] text.toList
  have begins := tiles.begins
  have tokens := Slice.filterMap_ofPieces Piece.token? (tokensFrom file) (tokensFrom_cons file) []
    (Piece.cut text.toList)
  have errors := Slice.filterMap_ofPieces Piece.error? errorsFrom errorsFrom_cons []
    (Piece.cut text.toList)
  rw [List.nil_append, whole] at tokens errors
  refine ⟨Slice.ofPieces 0 (Piece.cut text.toList), tiles, ?_, tokens, ?_, ?_, ?_, ?_⟩
  · exact fun s mem => (begins s mem).ne_nil
  · rw [errorsFrom, List.append_nil] at errors
    exact congrArg (List.map _) errors
  · exact fun s mem is => Piece.skipped_of_matches ((begins s mem).matches_of_kind is)
  · exact fun s mem => Piece.lineFeed_of_begins (begins s mem)
  · exact fun s mem is =>
      Piece.ne_endOfFile_of_matches ((begins s mem).matches_of_kind is) rfl

end Lexed

def Token.down (n : Nat) (t : Token) : Token := { t with line := t.line + n }

def Diagnostic.down (n : Nat) (d : Diagnostic) : Diagnostic := { d with line := d.line + n }

namespace Lexed

theorem tokensFrom_ne_nil (file : String) (line : Nat) (ps : List Piece) :
    tokensFrom file line ps ≠ [] := by
  induction ps generalizing line with
  | nil => simp [tokensFrom]
  | cons p ps ih => simp [tokensFrom_cons, ih]

theorem tokensFrom_append (file : String) (line : Nat) (ps qs : List Piece) :
    tokensFrom file line (ps ++ qs) = (tokensFrom file line ps).dropLast ++
      tokensFrom file (line + (ps.flatMap Piece.text).count '\n') qs := by
  induction ps generalizing line with
  | nil => simp [tokensFrom]
  | cons p ps ih =>
    rw [List.cons_append, tokensFrom_cons, tokensFrom_cons, ih,
      List.dropLast_append_of_ne_nil (tokensFrom_ne_nil _ _ _), List.flatMap_cons,
      List.count_append, Nat.add_assoc, List.append_assoc]

theorem errorsFrom_append (line : Nat) (ps qs : List Piece) :
    errorsFrom line (ps ++ qs) = errorsFrom line ps ++
      errorsFrom (line + (ps.flatMap Piece.text).count '\n') qs := by
  induction ps generalizing line with
  | nil => simp [errorsFrom]
  | cons p ps ih =>
    rw [List.cons_append, errorsFrom_cons, errorsFrom_cons, ih, List.flatMap_cons,
      List.count_append, Nat.add_assoc, List.append_assoc]

theorem tokensFrom_down (file : String) (line n : Nat) (ps : List Piece) :
    tokensFrom file (line + n) ps = (tokensFrom file line ps).map (Token.down n) := by
  induction ps generalizing line with
  | nil => rfl
  | cons p ps ih =>
    have here : p.token? (line + n) = (p.token? line).map (Token.down n) := by
      obtain ⟨_ | kind, text⟩ := p
      · rfl
      · cases kind <;> rfl
    rw [tokensFrom_cons, tokensFrom_cons, Nat.add_right_comm, ih, here, List.map_append]
    cases p.token? line <;> rfl

theorem errorsFrom_down (line n : Nat) (ps : List Piece) :
    errorsFrom (line + n) ps = (errorsFrom line ps).map fun e => { e with line := e.line + n } := by
  induction ps generalizing line with
  | nil => rfl
  | cons p ps ih =>
    rw [errorsFrom_cons, errorsFrom_cons, Nat.add_right_comm, ih]
    obtain ⟨_ | kind, text⟩ := p <;> rfl

/-- The tokens of some pieces stand on the lines of these pieces. -/
theorem line_of_mem_tokensFrom {file : String} {line : Nat} {ps : List Piece} {t : Token}
    (h : t ∈ tokensFrom file line ps) :
    line ≤ t.line ∧ t.line ≤ line + (ps.flatMap Piece.text).count '\n' := by
  induction ps generalizing line with
  | nil =>
    obtain rfl : t = .endOfFile file line := by simpa [tokensFrom] using h
    exact ⟨Nat.le_refl _, Nat.le_refl _⟩
  | cons p ps ih =>
    rw [tokensFrom_cons, List.mem_append] at h
    rw [List.flatMap_cons, List.count_append]
    rcases h with here | later
    · have same := (Piece.token?_eq_some (Option.mem_toList.1 here)).2.2
      omega
    · have := ih later
      omega

theorem line_of_mem_errorsFrom {line : Nat} {ps : List Piece} {e : SyntaxError}
    (h : e ∈ errorsFrom line ps) :
    line ≤ e.line ∧ e.line ≤ line + (ps.flatMap Piece.text).count '\n' := by
  induction ps generalizing line with
  | nil => simp [errorsFrom] at h
  | cons p ps ih =>
    rw [errorsFrom_cons, List.mem_append] at h
    rw [List.flatMap_cons, List.count_append]
    rcases h with here | later
    · have same : e.line = line := by
        obtain ⟨_ | kind, text⟩ := p <;> simp_all [Piece.error?]
      omega
    · have := ih later
      omega

/-- The tokens and the reports of a text apart from those on one line. -/
def elsewhere (l : Lexed) (line : Nat) : List Token × List Diagnostic :=
  (l.tokens.filter (·.line != line), l.diagnostics.filter (·.line != line))

theorem pieces_below (above below : String) :
    Piece.cut (above ++ "\n" ++ below).toList =
      (Piece.cut above.toList ++ [Piece.lineFeed]) ++ Piece.cut below.toList := by
  rw [String.toList_append, String.toList_append, List.append_assoc, List.append_assoc]
  exact Piece.cut_append_lineFeed above.toList below.toList

theorem feeds_above (above : String) :
    ((Piece.cut above.toList ++ [Piece.lineFeed]).flatMap Piece.text).count '\n' =
      1 + above.toList.count '\n' := by
  simp [Piece.flatMap_text_cut, Piece.lineFeed, Nat.add_comm]

theorem tokens_below (file above below : String) :
    (ofText file (above ++ "\n" ++ below)).tokens =
      (ofText file above).tokens.dropLast ++
        (ofText file below).tokens.map (Token.down (1 + above.toList.count '\n')) := by
  simp only [ofText]
  rw [pieces_below, tokensFrom_append, feeds_above, tokensFrom_down, tokensFrom_append]
  simp [tokensFrom, Piece.lineFeed]

theorem diagnostics_below (file above below : String) :
    (ofText file (above ++ "\n" ++ below)).diagnostics =
      (ofText file above).diagnostics ++
        (ofText file below).diagnostics.map (Diagnostic.down (1 + above.toList.count '\n')) := by
  simp only [ofText]
  rw [pieces_below, errorsFrom_append, feeds_above, errorsFrom_down, errorsFrom_append]
  simp [errorsFrom, Piece.lineFeed, Diagnostic.down, SyntaxError.message]

theorem line_of_single (file : String) {line : String} (one : '\n' ∉ line.toList) :
    (∀ t ∈ (ofText file line).tokens, t.line = 1) ∧
      ∀ d ∈ (ofText file line).diagnostics, d.line = 1 := by
  have feeds : ((Piece.cut line.toList).flatMap Piece.text).count '\n' = 0 := by
    rw [Piece.flatMap_text_cut, List.count_eq_zero]
    exact one
  constructor
  · intro t mem
    have := line_of_mem_tokensFrom mem
    omega
  · intro d mem
    obtain ⟨e, mem', rfl⟩ := List.mem_map.1 mem
    have := line_of_mem_errorsFrom mem'
    simp only
    omega

theorem elsewhere_line {line : String} (one : '\n' ∉ line.toList) (file above below : String) :
    let n := 1 + above.toList.count '\n'
    (ofText file (above ++ "\n" ++ (line ++ "\n" ++ below))).elsewhere (1 + n) =
      (((ofText file above).tokens.dropLast ++
          ((ofText file below).tokens.map (Token.down 1)).map (Token.down n)).filter
            (·.line != 1 + n),
        ((ofText file above).diagnostics ++
          ((ofText file below).diagnostics.map (Diagnostic.down 1)).map (Diagnostic.down n)).filter
            (·.line != 1 + n)) := by
  intro n
  obtain ⟨tokens, diagnostics⟩ := line_of_single file one
  have none : line.toList.count '\n' = 0 := List.count_eq_zero.2 one
  have no_token : ((ofText file line).tokens.dropLast.map (Token.down n)).filter
      (·.line != 1 + n) = [] := by
    refine List.filter_eq_nil_iff.2 fun t mem => ?_
    obtain ⟨u, mem', rfl⟩ := List.mem_map.1 mem
    simp [Token.down, tokens u (List.dropLast_subset _ mem')]
  have no_diagnostic : ((ofText file line).diagnostics.map (Diagnostic.down n)).filter
      (·.line != 1 + n) = [] := by
    refine List.filter_eq_nil_iff.2 fun d mem => ?_
    obtain ⟨e, mem', rfl⟩ := List.mem_map.1 mem
    simp [Diagnostic.down, diagnostics e mem']
  rw [elsewhere, tokens_below, tokens_below, diagnostics_below, diagnostics_below, none]
  rw [List.map_append, List.map_append, List.filter_append, List.filter_append, List.filter_append,
    List.filter_append, no_token, no_diagnostic, List.nil_append, List.nil_append,
    ← List.filter_append, ← List.filter_append]

/-- A text is read line by line: what stands above a line feed is read as if nothing stood below it,
    and what stands below it as if it stood alone, further down. So whatever one line holds, the
    tokens and the reports of the others are the same. -/
theorem lines_apart (file above below : String) :
    (ofText file (above ++ "\n" ++ below)).tokens =
      (ofText file above).tokens.dropLast ++
        (ofText file below).tokens.map (Token.down (1 + above.toList.count '\n')) ∧
    (ofText file (above ++ "\n" ++ below)).diagnostics =
      (ofText file above).diagnostics ++
        (ofText file below).diagnostics.map (Diagnostic.down (1 + above.toList.count '\n')) ∧
    ∀ line other : String, '\n' ∉ line.toList → '\n' ∉ other.toList →
      (ofText file (above ++ "\n" ++ (line ++ "\n" ++ below))).elsewhere
          (2 + above.toList.count '\n') =
        (ofText file (above ++ "\n" ++ (other ++ "\n" ++ below))).elsewhere
          (2 + above.toList.count '\n') := by
  refine ⟨tokens_below file above below, diagnostics_below file above below, ?_⟩
  intro line other one one'
  have here := elsewhere_line one file above below
  have there := elsewhere_line one' file above below
  rw [show 2 + above.toList.count '\n' = 1 + (1 + above.toList.count '\n') by omega]
  exact here.trans there.symm

/-- An unterminated string, a trailing backslash, a comment and a stray character, each on a line of
    its own, and what stands on the lines around them. -/
theorem lines_apart_broken :
    (ofText "m.kv" ("a\n\"b\\" ++ "\n" ++ "c // d \"\n$ e")).tokens =
        [⟨.identifier, "a", 1⟩, ⟨.identifier, "c", 3⟩, ⟨.identifier, "e", 4⟩,
          .endOfFile "m.kv" 4] ∧
      (ofText "m.kv" ("a" ++ "\n" ++ ("\"b" ++ "\n" ++ "c"))).elsewhere 2 =
        (ofText "m.kv" ("a" ++ "\n" ++ ("// b" ++ "\n" ++ "c"))).elsewhere 2 := by
  obtain ⟨tokens, -, -⟩ := lines_apart "m.kv" "a\n\"b\\" "c // d \"\n$ e"
  obtain ⟨-, -, others⟩ := lines_apart "m.kv" "a" "c"
  refine ⟨tokens.trans ?_, others "\"b" "// b" (by decide) (by decide)⟩
  decide +kernel

end Lexed
end ObjectLang
