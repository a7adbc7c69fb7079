import ObjectLang.Proofs.Token.Pattern
set_option autoImplicit false

/-!
# Pieces and lines

A line feed is a piece of its own, and no other piece has one. What is taken at a character does not
depend on anything behind the next line feed, so a text can be cut line by line.
-/

namespace ObjectLang.Piece

def lineFeed : Piece := ⟨some .whitespace, ['\n']⟩

theorem lineFeed_not_mem_of_quotable {body : List Char} (h : Quotable body) : '\n' ∉ body := by
  induction h with
  | nil => simp
  | plain _ _ line _ ih => simp [ih, Ne.symm line]
  | escape line _ ih => simp [ih, Ne.symm line]

theorem not_mem_of_class {p : Char → Bool} {c : Char} {cs : List Char} (other : p c = false)
    (all : ∀ d ∈ cs, p d = true) : c ∉ cs := fun mem => ne_of_class (all c mem) other rfl

/-- The only text with a line feed that has a pattern is the line feed. -/
theorem lineFeed_not_mem_of_matches {kind : TokenKind} {text : List Char} (h : Matches kind text)
    (other : text ≠ ['\n']) : '\n' ∉ text := by
  cases h with
  | zero => decide
  | integer digit _ digits => exact not_mem_of_class (p := isDigit) rfl (by simpa [digit] using digits)
  | rational digit digits more =>
    have whole := not_mem_of_class (c := '\n') rfl digits
    have fraction := not_mem_of_class (c := '\n') rfl more
    have first := ne_of_class (d := '\n') digit rfl
    simp [whole, fraction, Ne.symm first]
  | string quotable => simp [lineFeed_not_mem_of_quotable quotable]
  | word mem =>
    have each : ∀ e ∈ TokenKind.words, '\n' ∉ e.1.toList := by decide
    exact each _ mem
  | pair mem =>
    have each : ∀ e ∈ TokenKind.pairs, '\n' ∉ [e.1.1, e.1.2] := by decide
    exact each _ mem
  | symbol mem =>
    have each : ∀ e ∈ TokenKind.symbols, '\n' ∉ [e.1] := by decide
    exact each _ mem
  | marker _ letters =>
    have named := not_mem_of_class (c := '\n') rfl letters
    simp [named]
  | identifier start parts =>
    have first := ne_of_class (d := '\n') start rfl
    have more := not_mem_of_class (c := '\n') rfl parts
    simp [Ne.symm first, more]
  | comment line =>
    have inside : '\n' ∉ _ := fun mem => (line '\n' mem).1 rfl
    simp [inside]
  | lineFeed => exact absurd rfl other
  | spaces space more => exact not_mem_of_class (p := isSpace) rfl (by simpa [space] using more)

theorem lineFeed_of_begins {cs : List Char} {p : Piece} (h : Begins cs p) (mem : '\n' ∈ p.text) :
    p = lineFeed := by
  cases h with
  | @longest kind text front fits most =>
    have alone : text = ['\n'] := by
      by_contra other
      exact lineFeed_not_mem_of_matches fits other mem
    subst alone
    rcases (most _ _ .lineFeed front).2 rfl with rfl | other
    · rfl
    · cases other
  | stray split shape unfit =>
    cases shape with
    | openString inside => simp [inside] at mem
    | lone =>
      obtain rfl : '\n' = _ := by simpa using mem
      exact absurd (by simp [split]) (unfit _ _ .lineFeed)

theorem stringRest_append_lineFeed (cs ds : List Char) :
    stringRest (cs ++ '\n' :: ds) = stringRest cs := by
  induction cs using stringRest.induct with
  | case1 => simp [stringRest]
  | case2 => simp [stringRest]
  | case3 => simp [stringRest]
  | case4 => simp [stringRest]
  | case5 => simp [stringRest]
  | case6 c cs line _ _ _ ih => simp_all [stringRest]
  | case7 c cs quote line alone newline escape _ _ _ ih =>
    have backslash : c ≠ '\\' := by
      intro hc
      cases cs with
      | nil => exact alone hc rfl
      | cons d cs => exact escape d cs hc rfl
    simp_all [stringRest]

theorem numberRest_append_lineFeed (c : Char) (cs ds : List Char) :
    numberRest c (cs ++ '\n' :: ds) = numberRest c cs := by
  have same : run isDigit (cs ++ '\n' :: ds) = run isDigit cs := run_append_stop rfl cs ds
  have behind : (cs ++ '\n' :: ds).drop (run isDigit cs) =
      cs.drop (run isDigit cs) ++ '\n' :: ds := List.drop_append_of_le_length (run_le _ _)
  by_cases point : ∃ fraction, cs.drop (run isDigit cs) = '.' :: fraction
  · obtain ⟨fraction, point⟩ := point
    have longer : (cs ++ '\n' :: ds).drop (run isDigit (cs ++ '\n' :: ds)) =
        '.' :: (fraction ++ '\n' :: ds) := by
      rw [same, behind, point, List.cons_append]
    rw [numberRest_point point, numberRest_point longer, same, run_append_stop rfl]
  · have none := not_exists.1 point
    rw [numberRest_whole none, numberRest_whole, same]
    intro fraction
    rw [same, behind]
    cases rest : cs.drop (run isDigit cs) with
    | nil => simp
    | cons d rest' =>
      intro h
      exact none rest' (by rw [rest, (List.cons.inj h).1])

theorem symbolRest_append_lineFeed (c : Char) (cs ds : List Char) :
    symbolRest c (cs ++ '\n' :: ds) = symbolRest c cs := by
  cases cs with
  | nil =>
    have none : TokenKind.pairs.lookup (c, '\n') = none := by
      by_contra some_kind
      obtain ⟨kind, known⟩ := Option.ne_none_iff_exists'.1 some_kind
      exact (isPlain_of_pair (lookup_mem known)).2.2.1 rfl
    exact symbolRest_symbol (by simpa using none)
  | cons d cs => rfl

/-- A line feed stops every piece in front of it, as the end of the text does. -/
theorem lead_append_lineFeed {c : Char} (other : c ≠ '\n') (cs ds : List Char) :
    lead c (cs ++ '\n' :: ds) = lead c cs := by
  rcases lead_cases c cs with rfl | space | ⟨rfl, rest, rfl⟩ | start | digit | rfl | rfl |
    ⟨plain, comment⟩
  · exact absurd rfl other
  · rw [lead_space space, lead_space space, run_append_stop rfl]
  · rw [List.cons_append, lead_comment, lead_comment, ← List.cons_append, run_append_stop rfl]
  · have same : run isWordPart (cs ++ '\n' :: ds) = run isWordPart cs := run_append_stop rfl cs ds
    rw [lead_word start, lead_word start, same, List.take_append_of_le_length (run_le _ _)]
  · rw [lead_digit digit, lead_digit digit, numberRest_append_lineFeed]
  · rw [lead_quote, lead_quote, stringRest_append_lineFeed]
  · rw [lead_at, lead_at, run_append_stop rfl]
  · have comment' : ¬(c = '/' ∧ (cs ++ '\n' :: ds).head? = some '/') := by
      cases cs with
      | nil => simp
      | cons d cs => simpa using comment
    rw [lead_plain plain comment', lead_plain plain comment, symbolRest_append_lineFeed]

theorem lead_lineFeed (cs : List Char) : lead '\n' cs = (some .whitespace, 0) := rfl

theorem cut_lineFeed (cs : List Char) : cut ('\n' :: cs) = lineFeed :: cut cs := by
  rw [cut_cons, lead_lineFeed]
  rfl

theorem cut_append_lineFeed (as bs : List Char) :
    cut (as ++ '\n' :: bs) = cut as ++ lineFeed :: cut bs := by
  induction as using cut.induct with
  | case1 => rw [cut_nil, List.nil_append, List.nil_append, cut_lineFeed]
  | case2 c cs kind rest h ih =>
    by_cases line : c = '\n'
    · subst line
      obtain rfl : 0 = rest := (Prod.mk.inj ((lead_lineFeed cs).symm.trans h)).2
      rw [List.drop_zero] at ih
      rw [List.cons_append, cut_lineFeed, cut_lineFeed, List.cons_append, ih]
    · have size := lead_le c cs
      simp only [h] at size
      rw [List.cons_append, cut_cons, cut_cons, lead_append_lineFeed line, h]
      simp only
      rw [List.take_append_of_le_length size, List.drop_append_of_le_length size, ih]
      rfl

end ObjectLang.Piece
