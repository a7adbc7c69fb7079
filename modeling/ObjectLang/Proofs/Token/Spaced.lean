import ObjectLang.Proofs.Token.Lexed
set_option autoImplicit false

/-!
# Tokens with spaces between them

Where one token ends and the next begins is up to what stands behind it: a zero ends in front of another
digit, a word in front of a symbol. Each token is one by itself all the same. The texts of all tokens of
a text, with a space between any two, are cut into the same tokens again, and nothing is reported.
-/

namespace ObjectLang

namespace Piece

def Parted (rest : List Char) : Prop := ∀ c ∈ rest.head?, c = ' '

theorem parted_nil : Parted [] := nofun

theorem parted_space (cs : List Char) : Parted (' ' :: cs) := fun _ h => (Option.some.inj h).symm

variable {rest : List Char}

theorem Parted.stop (parted : Parted rest) {p : Char → Bool} (other : p ' ' = false) :
    ∀ c ∈ rest.head?, p c = false := by
  intro c mem
  rw [parted c mem, other]

theorem run_eq_zero {p : Char → Bool} {cs : List Char} (stop : ∀ c ∈ cs.head?, p c = false) :
    run p cs = 0 :=
  have nothing : ∀ d ∈ ([] : List Char), p d = true := nofun
  run_eq_length nothing stop

theorem run_taken {p : Char → Bool} (parted : Parted rest) (other : p ' ' = false) (cs : List Char) :
    run p (cs.take (run p cs) ++ rest) = run p cs := by
  rw [run_eq_length (fun _ => of_mem_take_run) (parted.stop other),
    List.length_take_of_le (run_le p cs)]

theorem numberRest_taken (c : Char) (cs : List Char) (parted : Parted rest) :
    numberRest c (cs.take (numberRest c cs).2 ++ rest) = numberRest c cs := by
  have space : isDigit ' ' = false := rfl
  by_cases point : ∃ fraction, cs.drop (run isDigit cs) = '.' :: fraction
  · obtain ⟨fraction, point⟩ := point
    let more := fraction.take (run isDigit fraction) ++ rest
    have text : cs.take (run isDigit cs + 1 + run isDigit fraction) ++ rest =
        cs.take (run isDigit cs) ++ '.' :: more := by
      rw [Nat.add_assoc, List.take_add, point, Nat.add_comm 1, List.take_succ_cons,
        List.append_assoc, List.cons_append]
    have whole : run isDigit (cs.take (run isDigit cs) ++ '.' :: more) = run isDigit cs := by
      rw [run_eq_length (fun _ => of_mem_take_run) (by simp [isDigit]),
        List.length_take_of_le (run_le _ _)]
    have point' : (cs.take (run isDigit cs) ++ '.' :: more).drop
        (run isDigit (cs.take (run isDigit cs) ++ '.' :: more)) = '.' :: more := by
      rw [whole]
      exact List.drop_left' (List.length_take_of_le (run_le _ _))
    rw [numberRest_point point, text, numberRest_point point', whole, run_taken parted space]
  · have other : ∀ fraction, rest ≠ '.' :: fraction := by
      rintro fraction rfl
      exact absurd (parted '.' rfl) (by decide)
    rw [numberRest_whole (not_exists.1 point)]
    by_cases zero : c = '0'
    · have none : run isDigit rest = 0 := run_eq_zero (parted.stop space)
      rw [if_pos zero, List.take_zero, List.nil_append,
        numberRest_whole (by rwa [none, List.drop_zero]), if_pos zero]
    · have behind : (cs.take (run isDigit cs) ++ rest).drop
          (run isDigit (cs.take (run isDigit cs) ++ rest)) = rest := by
        rw [run_taken parted space]
        exact List.drop_left' (List.length_take_of_le (run_le _ _))
      rw [if_neg zero, numberRest_whole (by rwa [behind]), if_neg zero, run_taken parted space]

/-- No symbol of two characters begins with a slash. -/
theorem symbolRest_slash (cs : List Char) : (symbolRest '/' cs).2 = 0 := by
  have alone : ∀ d ∈ cs.head?, TokenKind.pairs.lookup ('/', d) = none := by
    intro d _
    by_contra some_kind
    obtain ⟨kind, known⟩ := Option.ne_none_iff_exists'.1 some_kind
    exact (isPlain_of_pair (lookup_mem known)).2.1 rfl
  rw [symbolRest_symbol alone]

theorem symbolRest_taken (c : Char) (cs : List Char) (parted : Parted rest) :
    symbolRest c (cs.take (symbolRest c cs).2 ++ rest) = symbolRest c cs := by
  by_cases pair : ∃ d ∈ cs.head?, ∃ kind, TokenKind.pairs.lookup (c, d) = some kind
  · obtain ⟨d, next, kind, pair⟩ := pair
    obtain ⟨more, rfl⟩ := List.head?_eq_some_iff.1 next
    rw [symbolRest_pair pair]
    exact symbolRest_pair pair
  · have alone : ∀ d ∈ cs.head?, TokenKind.pairs.lookup (c, d) = none := fun d next =>
      Option.eq_none_iff_forall_not_mem.2 fun kind found => pair ⟨d, next, kind, found⟩
    have space : TokenKind.pairs.lookup (c, ' ') = none := by
      by_contra some_kind
      obtain ⟨kind, known⟩ := Option.ne_none_iff_exists'.1 some_kind
      have each : ∀ e ∈ TokenKind.pairs, e.1.2 ≠ ' ' := by decide
      exact each _ (lookup_mem known) rfl
    rw [symbolRest_symbol alone]
    exact symbolRest_symbol fun d next => by rw [parted d next, space]

/-- What becomes a token is taken again in front of a space, without what stood behind it. -/
theorem lead_taken {c : Char} {cs : List Char} {kind : TokenKind} (found : (lead c cs).1 = some kind)
    (shown : kind ≠ .whitespace) (parted : Parted rest) :
    lead c (cs.take (lead c cs).2 ++ rest) = lead c cs := by
  rcases lead_cases c cs with rfl | space | ⟨rfl, more, rfl⟩ | start | digit | rfl | rfl |
    ⟨plain, comment⟩
  · exact absurd (Option.some.inj found).symm shown
  · rw [lead_space space] at found
    exact absurd (Option.some.inj found).symm shown
  · rw [lead_comment] at found
    exact absurd (Option.some.inj found).symm shown
  · have again := run_taken parted (p := isWordPart) rfl cs
    rw [lead_word start, lead_word start, again,
      List.take_left' (List.length_take_of_le (run_le _ _))]
  · rw [lead_digit digit, lead_digit digit, numberRest_taken c cs parted]
  · cases read : stringRest cs with
    | mk closed n =>
      rw [lead_quote cs, read] at found ⊢
      obtain rfl : closed = true := by
        cases closed
        · cases found
        · rfl
      obtain ⟨body, behind, quotable, rfl, rfl⟩ := quotable_of_stringRest read
      have text : (body ++ '"' :: behind).take (body.length + 1) ++ rest = body ++ '"' :: rest := by
        rw [List.take_append, List.take_of_length_le (Nat.le_succ _)]
        simp
      rw [lead_quote, text, stringRest_of_quotable quotable]
  · rw [lead_at, lead_at, run_taken parted rfl]
  · have comment' : ¬(c = '/' ∧ (cs.take (symbolRest c cs).2 ++ rest).head? = some '/') := by
      rintro ⟨rfl, next⟩
      rw [symbolRest_slash, List.take_zero, List.nil_append] at next
      exact absurd (parted '/' next) (by decide)
    rw [lead_plain plain comment, lead_plain plain comment', symbolRest_taken c cs parted]

theorem isSpace_eq_false_of_shown {c : Char} {cs : List Char} {kind : TokenKind}
    (found : (lead c cs).1 = some kind) (shown : kind ≠ .whitespace) : isSpace c = false := by
  by_contra space
  rw [lead_space (Bool.of_not_eq_false space)] at found
  exact shown (Option.some.inj found).symm

def isShown (p : Piece) : Bool := (p.token? 0).isSome

/-- A text that is cut off as this piece wherever it stands in front of a space. -/
structure Whole (p : Piece) : Prop where
  cut : ∀ rest, Parted rest → cut (p.text ++ rest) = p :: Piece.cut rest
  first : ∃ c cs, p.text = c :: cs ∧ isSpace c = false

theorem isShown_iff {p : Piece} : p.isShown = true ↔ ∃ kind, p.kind = some kind ∧ kind ≠ .whitespace := by
  obtain ⟨_ | kind, text⟩ := p
  · simp [isShown, token?]
  · by_cases white : kind = .whitespace
    · simp [isShown, token?, white]
    · simp [isShown, token?_of_kind white, white]

theorem whole_of_lead {c : Char} {cs : List Char}
    (shown : (⟨(lead c cs).1, c :: cs.take (lead c cs).2⟩ : Piece).isShown = true) :
    Whole ⟨(lead c cs).1, c :: cs.take (lead c cs).2⟩ := by
  obtain ⟨kind, found, shown⟩ := isShown_iff.1 shown
  constructor
  · intro rest parted
    have size : (cs.take (lead c cs).2).length = (lead c cs).2 := List.length_take_of_le (lead_le c cs)
    rw [List.cons_append, cut_cons, lead_taken found shown parted, List.take_left' size,
      List.drop_left' size]
  · exact ⟨c, cs.take (lead c cs).2, rfl, isSpace_eq_false_of_shown found shown⟩

theorem whole_of_mem_cut {cs : List Char} {p : Piece} (mem : p ∈ cut cs) (shown : p.isShown = true) :
    p.Whole := by
  obtain ⟨c, ds, rfl⟩ := exists_lead_of_mem_cut mem
  exact whole_of_lead shown

def blank : Piece := ⟨some .whitespace, [' ']⟩

theorem cut_blank {cs : List Char} (other : ∀ c ∈ cs.head?, isSpace c = false) :
    cut (' ' :: cs) = blank :: cut cs := by
  have alone : run isSpace cs = 0 := run_eq_zero other
  rw [cut_cons, lead_space rfl, alone]
  rfl

/-- Whole pieces with spaces between them are cut apart at the spaces. -/
theorem cut_spaced {ps : List Piece} (whole : ∀ p ∈ ps, p.Whole) :
    cut ([' '].intercalate (ps.map text)) = ps.intersperse blank := by
  induction ps with
  | nil => exact cut_nil
  | cons p ps ih =>
    obtain ⟨here, later⟩ := List.forall_mem_cons.1 whole
    cases ps with
    | nil => simpa [cut_nil] using here.cut [] parted_nil
    | cons q ps =>
      have begins : ∀ c ∈ ([' '].intercalate ((q :: ps).map text)).head?, isSpace c = false := by
        obtain ⟨c, cs, first, other⟩ := (later q List.mem_cons_self).first
        cases ps with
        | nil => simpa [first] using other
        | cons r ps => simpa [first] using other
      rw [List.map_cons, List.map_cons, List.intercalate_cons_cons, ← List.map_cons,
        List.append_assoc, List.singleton_append, here.cut _ (parted_space _), cut_blank begins,
        ih later]
      rfl

end Piece

def Token.content (t : Token) : TokenKind × String := (t.kind, t.text)

namespace Piece

def content? (p : Piece) : Option (TokenKind × String) := (p.token? 0).map Token.content

theorem map_content_token? (line : Nat) (p : Piece) :
    (p.token? line).map Token.content = p.content? := by
  obtain ⟨_ | kind, text⟩ := p
  · rfl
  · cases kind <;> rfl

theorem isSome_content? (p : Piece) : p.content?.isSome = p.isShown := Option.isSome_map

theorem filterMap_content?_spaced (ps : List Piece) :
    (ps.intersperse blank).filterMap content? = ps.filterMap content? := by
  induction ps with
  | nil => rfl
  | cons p ps ih =>
    cases ps with
    | nil => rfl
    | cons q ps =>
      have none : blank.content? = none := rfl
      rw [List.intersperse_cons_cons, List.filterMap_cons, List.filterMap_cons_none none, ih,
        List.filterMap_cons (l := q :: ps)]

theorem filterMap_content?_shown (ps : List Piece) :
    (ps.filter isShown).filterMap content? = ps.filterMap content? := by
  rw [List.filterMap_filter]
  congr 1
  funext p
  rw [← isSome_content?]
  cases p.content? <;> rfl

theorem isSome_kind_spaced {ps : List Piece} (known : ∀ p ∈ ps, p.kind.isSome = true) :
    ∀ p ∈ ps.intersperse blank, p.kind.isSome = true := by
  induction ps with
  | nil => exact known
  | cons p ps ih =>
    obtain ⟨here, later⟩ := List.forall_mem_cons.1 known
    cases ps with
    | nil => exact known
    | cons q ps =>
      rw [List.intersperse_cons_cons]
      exact List.forall_mem_cons.2 ⟨here, List.forall_mem_cons.2 ⟨rfl, ih later⟩⟩

end Piece

namespace Lexed

theorem contents_tokensFrom (file : String) (line : Nat) (ps : List Piece) :
    (tokensFrom file line ps).map Token.content =
      ps.filterMap Piece.content? ++ [(.endOfFile, file)] := by
  induction ps generalizing line with
  | nil => rfl
  | cons p ps ih =>
    rw [tokensFrom_cons, List.map_append, ih, List.filterMap_cons, ← p.map_content_token? line]
    cases p.token? line <;> rfl

theorem errorsFrom_eq_nil {ps : List Piece} (known : ∀ p ∈ ps, p.kind.isSome = true) (line : Nat) :
    errorsFrom line ps = [] := by
  induction ps generalizing line with
  | nil => rfl
  | cons p ps ih =>
    obtain ⟨here, later⟩ := List.forall_mem_cons.1 known
    have none : p.error? line = none := by
      obtain ⟨_ | kind, text⟩ := p
      · cases here
      · rfl
    rw [errorsFrom_cons, none, ih later]
    rfl

/-- The texts of the tokens before the end of the file, with a space between any two. -/
def respaced (l : Lexed) : String :=
  " ".intercalate ((l.tokens.filter fun t => t.kind != .endOfFile).map Token.text)

theorem texts_tokensFrom (file : String) (line : Nat) {ps : List Piece}
    (inside : ∀ p ∈ ps, p.kind ≠ some .endOfFile) :
    ((tokensFrom file line ps).filter fun t => t.kind != .endOfFile).map
      (String.toList ∘ Token.text) = (ps.filter Piece.isShown).map Piece.text := by
  induction ps generalizing line with
  | nil => rfl
  | cons p ps ih =>
    obtain ⟨here, later⟩ := List.forall_mem_cons.1 inside
    rw [tokensFrom_cons, List.filter_append, List.map_append, ih _ later]
    obtain ⟨_ | kind, text⟩ := p
    · rfl
    · by_cases white : kind = .whitespace
      · rw [white]
        rfl
      · have notEnd : kind ≠ .endOfFile := fun same => here (congrArg some same)
        have shown : (⟨some kind, text⟩ : Piece).isShown = true := Piece.isShown_iff.2 ⟨kind, rfl, white⟩
        simp [Piece.token?_of_kind white, notEnd, shown]

theorem toList_respaced (file text : String) : (ofText file text).respaced.toList =
    [' '].intercalate (((Piece.cut text.toList).filter Piece.isShown).map Piece.text) := by
  have inside : ∀ p ∈ Piece.cut text.toList, p.kind ≠ some .endOfFile := by
    intro p mem is
    obtain ⟨rest, begins⟩ := Piece.begins_of_mem_cut mem
    exact Piece.ne_endOfFile_of_matches (begins.matches_of_kind is) rfl
  rw [respaced, String.toList_intercalate, List.map_map]
  exact congrArg _ (texts_tokensFrom file 1 inside)

/-- **Tokens may be written apart.** The texts of the tokens of any text, with a space between any two,
    are cut into tokens of the same kinds and texts again, and nothing is reported. -/
theorem ofText_respaced (file text : String) :
    (ofText file (ofText file text).respaced).diagnostics = [] ∧
      (ofText file (ofText file text).respaced).tokens.map Token.content =
        (ofText file text).tokens.map Token.content := by
  let shown := (Piece.cut text.toList).filter Piece.isShown
  have whole : ∀ p ∈ shown, p.Whole := fun p mem =>
    Piece.whole_of_mem_cut (List.mem_filter.1 mem).1 (List.mem_filter.1 mem).2
  have known : ∀ p ∈ shown, p.kind.isSome = true := by
    intro p mem
    obtain ⟨kind, is, -⟩ := Piece.isShown_iff.1 (List.mem_filter.1 mem).2
    rw [is]
    rfl
  have pieces : Piece.cut (ofText file text).respaced.toList = shown.intersperse Piece.blank := by
    rw [toList_respaced]
    exact Piece.cut_spaced whole
  generalize (ofText file text).respaced = again at pieces ⊢
  simp only [ofText, pieces]
  constructor
  · rw [errorsFrom_eq_nil (Piece.isSome_kind_spaced known)]
    rfl
  · rw [contents_tokensFrom, contents_tokensFrom, Piece.filterMap_content?_spaced,
      Piece.filterMap_content?_shown]

/-- A zero ends in front of another digit, and an integer in front of a letter. -/
example : (ofText "f" "007x(a<=b)").respaced = "0 0 7 x ( a <= b )" := by decide +kernel

end Lexed
end ObjectLang
