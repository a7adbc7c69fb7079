import Mathlib.Data.List.TakeWhile
import ObjectLang.Token.Piece
set_option autoImplicit false

/-!
# Patterns of tokens

The texts that each kind of token may have, kind by kind and without the scanner. At every character
the scanner takes the longest text that has a pattern. Where two kinds have a pattern for it, one of
them is the identifier and the other a word, which goes first.
-/

namespace ObjectLang.Piece

inductive Quotable : List Char → Prop
  | nil : Quotable []
  | plain {c : Char} {body : List Char} (quote : c ≠ '"') (backslash : c ≠ '\\') (line : c ≠ '\n')
      (rest : Quotable body) : Quotable (c :: body)
  | escape {c : Char} {body : List Char} (line : c ≠ '\n') (rest : Quotable body) :
      Quotable ('\\' :: c :: body)

inductive Matches : TokenKind → List Char → Prop
  | zero : Matches .integer ['0']
  | integer {c : Char} {cs : List Char} (digit : isDigit c = true) (nonzero : c ≠ '0')
      (digits : ∀ d ∈ cs, isDigit d = true) : Matches .integer (c :: cs)
  | rational {c : Char} {whole fraction : List Char} (digit : isDigit c = true)
      (digits : ∀ d ∈ whole, isDigit d = true) (more : ∀ d ∈ fraction, isDigit d = true) :
      Matches .rational (c :: (whole ++ '.' :: fraction))
  | string {body : List Char} (quotable : Quotable body) :
      Matches .string ('"' :: (body ++ ['"']))
  | word {word : String} {kind : TokenKind} (mem : (word, kind) ∈ TokenKind.words) :
      Matches kind word.toList
  | pair {c d : Char} {kind : TokenKind} (mem : ((c, d), kind) ∈ TokenKind.pairs) :
      Matches kind [c, d]
  | symbol {c : Char} {kind : TokenKind} (mem : (c, kind) ∈ TokenKind.symbols) : Matches kind [c]
  | marker {cs : List Char} (named : cs ≠ []) (letters : ∀ c ∈ cs, c.isLower = true) :
      Matches .marker ('@' :: cs)
  | identifier {c : Char} {cs : List Char} (start : isWordStart c = true)
      (parts : ∀ d ∈ cs, isWordPart d = true) : Matches .identifier (c :: cs)
  | comment {cs : List Char} (line : ∀ c ∈ cs, c ≠ '\n' ∧ c ≠ '\r') :
      Matches .whitespace ('/' :: '/' :: cs)
  | lineFeed : Matches .whitespace ['\n']
  | spaces {c : Char} {cs : List Char} (space : isSpace c = true)
      (more : ∀ d ∈ cs, isSpace d = true) : Matches .whitespace (c :: cs)

theorem run_le (p : Char → Bool) (cs : List Char) : run p cs ≤ cs.length :=
  (List.takeWhile_prefix p).length_le

theorem take_run (p : Char → Bool) (cs : List Char) : cs.take (run p cs) = cs.takeWhile p :=
  (List.prefix_iff_eq_take.1 (List.takeWhile_prefix p)).symm

theorem of_mem_take_run {p : Char → Bool} {cs : List Char} {c : Char}
    (h : c ∈ cs.take (run p cs)) : p c = true := by
  rw [take_run] at h
  exact List.mem_takeWhile_imp h

/-- A run takes everything up to a character that does not belong to it. -/
theorem run_append_stop {p : Char → Bool} {c : Char} (stop : p c = false) (cs ds : List Char) :
    run p (cs ++ c :: ds) = run p cs := by
  induction cs with
  | nil => simp [run, stop]
  | cons d cs ih =>
    by_cases h : p d = true
    · simpa [run, h] using ih
    · simp [run, h]

theorem length_le_run {p : Char → Bool} {body cs : List Char} (all : ∀ d ∈ body, p d = true)
    (front : body <+: cs) : body.length ≤ run p cs := by
  obtain ⟨rest, rfl⟩ := front
  simp [run, List.takeWhile_append_of_pos all]

theorem run_eq_length {p : Char → Bool} {body rest : List Char} (all : ∀ d ∈ body, p d = true)
    (stop : ∀ c ∈ rest.head?, p c = false) : run p (body ++ rest) = body.length := by
  rw [run, List.takeWhile_append_of_pos all, List.length_append]
  cases rest with
  | nil => rfl
  | cons c rest => simp [stop c rfl]

theorem eq_of_isSpace {c : Char} (h : isSpace c = true) :
    c = ' ' ∨ c = '\t' ∨ c = '\r' ∨ c = '\x0c' := by
  simpa [isSpace, or_assoc] using h

theorem ne_of_class {p : Char → Bool} {c d : Char} (h : p c = true) (other : p d = false) :
    c ≠ d := by
  rintro rfl
  simp [h] at other

theorem isSpace_eq_false {p : Char → Bool} {c : Char} (h : p c = true)
    (other : [' ', '\t', '\r', '\x0c'].any p = false) : isSpace c = false := by
  by_contra space
  have mem : c ∈ [' ', '\t', '\r', '\x0c'] := by
    simpa using eq_of_isSpace (Bool.of_not_eq_false space)
  exact List.any_eq_false.1 other c mem h

theorem isWordStart_of_isDigit {c : Char} (h : isDigit c = true) : isWordStart c = false := by
  by_contra start
  have digit : (decide (48 ≤ c.val) && decide (c.val ≤ 57)) = true := h
  have letter : (decide (65 ≤ c.val ∧ c.val ≤ 90) || (decide (97 ≤ c.val) && decide (c.val ≤ 122)) ||
      c == '_') = true := Bool.of_not_eq_false start
  simp only [Bool.or_eq_true, Bool.and_eq_true, decide_eq_true_eq, beq_iff_eq] at digit letter
  change 48 ≤ c.toNat ∧ c.toNat ≤ 57 at digit
  change ((65 ≤ c.toNat ∧ c.toNat ≤ 90) ∨ (97 ≤ c.toNat ∧ c.toNat ≤ 122)) ∨ c = '_' at letter
  rcases letter with (upper | lower) | rfl
  · omega
  · omega
  · revert h
    decide

theorem lead_space {c : Char} (h : isSpace c = true) (cs : List Char) :
    lead c cs = (some .whitespace, run isSpace cs) := by
  have line : c ≠ '\n' := by
    rintro rfl
    exact absurd h (by decide)
  simp [lead, line, h]

theorem lead_comment (cs : List Char) : lead '/' ('/' :: cs) =
    (some .whitespace, run (fun d => d != '\n' && d != '\r') ('/' :: cs)) := by
  simp [lead, isSpace]

theorem lead_word {c : Char} (h : isWordStart c = true) (cs : List Char) :
    lead c cs = (some (.ofWord (String.ofList (c :: cs.take (run isWordPart cs)))),
      run isWordPart cs) := by
  have line : c ≠ '\n' := ne_of_class h (by decide)
  have space : isSpace c = false := isSpace_eq_false h (by decide)
  have slash : c ≠ '/' := ne_of_class h (by decide)
  simp [lead, line, space, slash, h]

theorem lead_digit {c : Char} (h : isDigit c = true) (cs : List Char) :
    lead c cs = (some (numberRest c cs).1, (numberRest c cs).2) := by
  have line : c ≠ '\n' := ne_of_class h (by decide)
  have space : isSpace c = false := isSpace_eq_false h (by decide)
  have slash : c ≠ '/' := ne_of_class h (by decide)
  simp [lead, line, space, slash, isWordStart_of_isDigit h, h]

theorem lead_quote (cs : List Char) : lead '"' cs =
    (if (stringRest cs).1 then some .string else none, (stringRest cs).2) := by
  simp [lead, isSpace, isWordStart, isDigit]

theorem lead_at (cs : List Char) : lead '@' cs =
    (if run Char.isLower cs = 0 then none else some .marker, run Char.isLower cs) := by
  simp [lead, isSpace, isWordStart, isDigit]

def isPlain (c : Char) : Bool :=
  c != '\n' && !isSpace c && !isWordStart c && !isDigit c && c != '"' && c != '@'

theorem lead_plain {c : Char} {cs : List Char} (plain : isPlain c = true)
    (comment : ¬(c = '/' ∧ cs.head? = some '/')) : lead c cs = symbolRest c cs := by
  simp only [isPlain, Bool.and_eq_true, bne_iff_ne, ne_eq, Bool.not_eq_true'] at plain
  simp only [lead, plain, comment, if_false, Bool.false_eq_true]

theorem lead_cases (c : Char) (cs : List Char) : c = '\n' ∨ isSpace c = true ∨
    (c = '/' ∧ ∃ rest, cs = '/' :: rest) ∨ isWordStart c = true ∨ isDigit c = true ∨ c = '"' ∨
    c = '@' ∨ (isPlain c = true ∧ ¬(c = '/' ∧ cs.head? = some '/')) := by
  by_cases plain : isPlain c = true
  · by_cases comment : c = '/' ∧ cs.head? = some '/'
    · simp [comment.1, List.head?_eq_some_iff.1 comment.2]
    · simp [plain, comment]
  · simp only [isPlain, Bool.and_eq_true, bne_iff_ne, ne_eq, Bool.not_eq_true'] at plain
    grind

theorem isPlain_of_symbol {c : Char} {kind : TokenKind} (mem : (c, kind) ∈ TokenKind.symbols) :
    isPlain c = true ∧ TokenKind.symbols.lookup c = some kind := by
  have each : ∀ e ∈ TokenKind.symbols,
      isPlain e.1 = true ∧ TokenKind.symbols.lookup e.1 = some e.2 := by decide
  exact each _ mem

theorem isPlain_of_pair {c d : Char} {kind : TokenKind} (mem : ((c, d), kind) ∈ TokenKind.pairs) :
    isPlain c = true ∧ c ≠ '/' ∧ d ≠ '\n' ∧ TokenKind.pairs.lookup (c, d) = some kind := by
  have each : ∀ e ∈ TokenKind.pairs, isPlain e.1.1 = true ∧ e.1.1 ≠ '/' ∧ e.1.2 ≠ '\n' ∧
      TokenKind.pairs.lookup e.1 = some e.2 := by decide
  exact each _ mem

theorem symbolRest_pair {c d : Char} {cs : List Char} {kind : TokenKind}
    (h : TokenKind.pairs.lookup (c, d) = some kind) : symbolRest c (d :: cs) = (some kind, 1) := by
  simp [symbolRest, h]

theorem symbolRest_symbol {c : Char} {cs : List Char}
    (h : ∀ d ∈ cs.head?, TokenKind.pairs.lookup (c, d) = none) :
    symbolRest c cs = (TokenKind.symbols.lookup c, 0) := by
  cases cs with
  | nil => rfl
  | cons d cs => simp [symbolRest, h d rfl]

theorem stringRest_of_quotable {body : List Char} (h : Quotable body) (rest : List Char) :
    stringRest (body ++ '"' :: rest) = (true, body.length + 1) := by
  induction h with
  | nil => simp [stringRest]
  | plain _ _ _ _ ih => simp_all [stringRest]
  | escape _ _ ih => simp_all [stringRest]

theorem quotable_of_stringRest {cs : List Char} {n : Nat} (h : stringRest cs = (true, n)) :
    ∃ body rest, Quotable body ∧ cs = body ++ '"' :: rest ∧ n = body.length + 1 := by
  induction cs using stringRest.induct generalizing n with
  | case1 => simp [stringRest] at h
  | case2 rest => exact ⟨[], rest, .nil, rfl, by simpa [stringRest, eq_comm] using h⟩
  | case3 => simp [stringRest] at h
  | case4 => simp [stringRest] at h
  | case5 => simp [stringRest] at h
  | case6 c cs line closed m read ih =>
    simp only [stringRest, read, Prod.mk.injEq] at h
    obtain ⟨rfl, rfl⟩ := h
    obtain ⟨body, rest, quotable, rfl, rfl⟩ := ih read
    exact ⟨'\\' :: c :: body, rest, .escape line quotable, rfl, rfl⟩
  | case7 c cs quote line alone newline escape closed m read ih =>
    simp only [stringRest, read, Prod.mk.injEq] at h
    obtain ⟨rfl, rfl⟩ := h
    obtain ⟨body, rest, quotable, rfl, rfl⟩ := ih read
    have backslash : c ≠ '\\' := by
      intro hc
      cases body <;> exact escape _ _ hc rfl
    exact ⟨c :: body, rest, .plain quote backslash line quotable, rfl, rfl⟩

/-- A string that is not closed goes on to the end of its line. -/
theorem open_of_stringRest {cs : List Char} {n : Nat} (h : stringRest cs = (false, n)) :
    ∃ body rest, cs = body ++ rest ∧ n = body.length ∧ '\n' ∉ body ∧
      (rest = [] ∨ rest.head? = some '\n') := by
  induction cs using stringRest.induct generalizing n with
  | case1 => exact ⟨[], [], rfl, by simpa [stringRest, eq_comm] using h, by simp, .inl rfl⟩
  | case2 => simp [stringRest] at h
  | case3 rest =>
    exact ⟨[], '\n' :: rest, rfl, by simpa [stringRest, eq_comm] using h, by simp, .inr rfl⟩
  | case4 => exact ⟨['\\'], [], rfl, by simpa [stringRest, eq_comm] using h, by simp, .inl rfl⟩
  | case5 rest =>
    exact ⟨['\\'], '\n' :: rest, rfl, by simpa [stringRest, eq_comm] using h, by simp, .inr rfl⟩
  | case6 c cs line closed m read ih =>
    simp only [stringRest, read, Prod.mk.injEq] at h
    obtain ⟨rfl, rfl⟩ := h
    obtain ⟨body, rest, rfl, rfl, inside, stop⟩ := ih read
    exact ⟨'\\' :: c :: body, rest, rfl, rfl, by simp [inside, Ne.symm line], stop⟩
  | case7 c cs quote line alone newline escape closed m read ih =>
    simp only [stringRest, read, Prod.mk.injEq] at h
    obtain ⟨rfl, rfl⟩ := h
    obtain ⟨body, rest, rfl, rfl, inside, stop⟩ := ih read
    exact ⟨c :: body, rest, rfl, rfl, by simp [inside, Ne.symm line], stop⟩

theorem stringRest_le (cs : List Char) : (stringRest cs).2 ≤ cs.length := by
  cases read : stringRest cs with
  | mk closed n =>
    cases closed with
    | false =>
      obtain ⟨body, rest, rfl, rfl, -, -⟩ := open_of_stringRest read
      simp
    | true =>
      obtain ⟨body, rest, -, rfl, rfl⟩ := quotable_of_stringRest read
      simp

theorem numberRest_point {cs fraction : List Char} (h : cs.drop (run isDigit cs) = '.' :: fraction)
    (c : Char) : numberRest c cs = (.rational, run isDigit cs + 1 + run isDigit fraction) := by
  simp [numberRest, h]

theorem numberRest_whole {cs : List Char} (h : ∀ fraction, cs.drop (run isDigit cs) ≠ '.' :: fraction)
    (c : Char) : numberRest c cs = (.integer, if c = '0' then 0 else run isDigit cs) := by
  cases rest : cs.drop (run isDigit cs) with
  | nil => simp [numberRest, rest]
  | cons d fraction =>
    have other : d ≠ '.' := by
      rintro rfl
      exact h fraction rest
    simp [numberRest, rest, other]

theorem numberRest_le (c : Char) (cs : List Char) : (numberRest c cs).2 ≤ cs.length := by
  have le := run_le isDigit cs
  by_cases point : ∃ fraction, cs.drop (run isDigit cs) = '.' :: fraction
  · obtain ⟨fraction, point⟩ := point
    have more := run_le isDigit fraction
    have size := congrArg List.length point
    simp only [List.length_drop, List.length_cons] at size
    rw [numberRest_point point]
    simp only
    omega
  · rw [numberRest_whole (not_exists.1 point)]
    simp only
    split <;> omega

theorem ofWord_of_mem {word : String} {kind : TokenKind} (mem : (word, kind) ∈ TokenKind.words) :
    TokenKind.ofWord word = kind := by
  have each : ∀ e ∈ TokenKind.words, TokenKind.ofWord e.1 = e.2 := by decide
  exact each _ mem

theorem word_shape {word : String} {kind : TokenKind} (mem : (word, kind) ∈ TokenKind.words) :
    ∃ c cs, word.toList = c :: cs ∧ isWordStart c = true ∧ ∀ d ∈ cs, isWordPart d = true := by
  have each : ∀ e ∈ TokenKind.words, (e.1.toList.head?.any isWordStart &&
      e.1.toList.tail.all isWordPart) = true := by decide
  have shape := each _ mem
  cases h : word.toList with
  | nil => simp [h] at shape
  | cons c cs => exact ⟨c, cs, rfl, by simpa [h] using shape⟩

theorem lookup_mem {α β : Type} [BEq α] [LawfulBEq α] {a : α} {b : β} {entries : List (α × β)}
    (h : entries.lookup a = some b) : (a, b) ∈ entries := by
  obtain ⟨before, after, rfl, -⟩ := List.lookup_eq_some_iff.1 h
  simp

theorem lead_le (c : Char) (cs : List Char) : (lead c cs).2 ≤ cs.length := by
  rcases lead_cases c cs with rfl | space | ⟨rfl, rest, rfl⟩ | start | digit | rfl | rfl |
    ⟨plain, comment⟩
  · exact Nat.zero_le _
  · rw [lead_space space]
    exact run_le _ _
  · rw [lead_comment]
    exact run_le _ _
  · rw [lead_word start]
    exact run_le _ _
  · rw [lead_digit digit]
    exact numberRest_le _ _
  · rw [lead_quote]
    exact stringRest_le _
  · rw [lead_at]
    exact run_le _ _
  · rw [lead_plain plain comment]
    cases cs with
    | nil => exact Nat.le_refl _
    | cons d cs =>
      unfold symbolRest
      split <;> simp

/-- The text `c :: body` of this kind gives way to what the scanner takes at the front of
    `c :: cs`. -/
def GivesWay (kind : TokenKind) (c : Char) (body cs : List Char) : Prop :=
  ∃ found, (lead c cs).1 = some found ∧ body.length ≤ (lead c cs).2 ∧
    (body.length = (lead c cs).2 → kind = found ∨ kind = .identifier)

theorem givesWay_integer {c : Char} {body cs : List Char} (digit : isDigit c = true)
    (lone : c = '0' → body = []) (digits : ∀ d ∈ body, isDigit d = true) (front : body <+: cs) :
    GivesWay .integer c body cs := by
  have le : body.length ≤ run isDigit cs := length_le_run digits front
  unfold GivesWay
  rw [lead_digit digit]
  by_cases point : ∃ fraction, cs.drop (run isDigit cs) = '.' :: fraction
  · obtain ⟨fraction, point⟩ := point
    rw [numberRest_point point]
    refine ⟨.rational, rfl, ?_, ?_⟩ <;> simp only <;> omega
  · rw [numberRest_whole (not_exists.1 point)]
    refine ⟨.integer, rfl, ?_, fun _ => .inl rfl⟩
    by_cases zero : c = '0'
    · simp [zero, lone zero]
    · simpa [zero] using le

theorem givesWay_rational {c : Char} {whole fraction cs : List Char} (digit : isDigit c = true)
    (digits : ∀ d ∈ whole, isDigit d = true) (more : ∀ d ∈ fraction, isDigit d = true)
    (front : whole ++ '.' :: fraction <+: cs) :
    GivesWay .rational c (whole ++ '.' :: fraction) cs := by
  obtain ⟨rest, rfl⟩ := front
  have size : run isDigit (whole ++ '.' :: (fraction ++ rest)) = whole.length :=
    run_eq_length digits (by simp [isDigit])
  have le : fraction.length ≤ run isDigit (fraction ++ rest) :=
    length_le_run more (List.prefix_append _ _)
  have point : (whole ++ '.' :: (fraction ++ rest)).drop
      (run isDigit (whole ++ '.' :: (fraction ++ rest))) = '.' :: (fraction ++ rest) := by
    simp [size]
  unfold GivesWay
  rw [lead_digit digit, List.append_assoc, List.cons_append, numberRest_point point, size]
  refine ⟨.rational, rfl, ?_, fun _ => .inl rfl⟩
  simp only [List.length_append, List.length_cons]
  omega

theorem givesWay_word {c : Char} {body cs : List Char} {kind : TokenKind}
    (start : isWordStart c = true) (parts : ∀ d ∈ body, isWordPart d = true) (front : body <+: cs)
    (known : kind = .identifier ∨ kind = .ofWord (String.ofList (c :: body))) :
    GivesWay kind c body cs := by
  unfold GivesWay
  rw [lead_word start]
  refine ⟨_, rfl, length_le_run parts front, fun same => ?_⟩
  rcases known with rfl | rfl
  · exact .inr rfl
  · change body.length = run isWordPart cs at same
    rw [← same, ← List.prefix_iff_eq_take.1 front]
    exact .inl rfl

theorem givesWay_string {body cs : List Char} (quotable : Quotable body)
    (front : body ++ ['"'] <+: cs) : GivesWay .string '"' (body ++ ['"']) cs := by
  obtain ⟨rest, rfl⟩ := front
  have closed := stringRest_of_quotable quotable rest
  unfold GivesWay
  rw [lead_quote, List.append_assoc, List.singleton_append, closed]
  exact ⟨.string, rfl, by simp, fun _ => .inl rfl⟩

theorem givesWay_pair {c d : Char} {kind : TokenKind} {cs : List Char}
    (mem : ((c, d), kind) ∈ TokenKind.pairs) (front : [d] <+: cs) : GivesWay kind c [d] cs := by
  obtain ⟨plain, slash, -, known⟩ := isPlain_of_pair mem
  obtain ⟨rest, rfl⟩ := front
  unfold GivesWay
  rw [lead_plain plain fun h => slash h.1, List.singleton_append, symbolRest_pair known]
  exact ⟨kind, rfl, Nat.le_refl _, fun _ => .inl rfl⟩

theorem givesWay_symbol {c : Char} {kind : TokenKind} (mem : (c, kind) ∈ TokenKind.symbols)
    (cs : List Char) : GivesWay kind c [] cs := by
  obtain ⟨plain, known⟩ := isPlain_of_symbol mem
  unfold GivesWay
  by_cases comment : c = '/' ∧ cs.head? = some '/'
  · obtain ⟨rfl, next⟩ := comment
    obtain ⟨rest, rfl⟩ := List.head?_eq_some_iff.1 next
    rw [lead_comment]
    exact ⟨.whitespace, rfl, Nat.zero_le _, fun same => by simp [run] at same⟩
  · rw [lead_plain plain comment]
    by_cases pair : ∃ d ∈ cs.head?, ∃ longer, TokenKind.pairs.lookup (c, d) = some longer
    · obtain ⟨d, next, longer, pair⟩ := pair
      obtain ⟨rest, rfl⟩ := List.head?_eq_some_iff.1 next
      rw [symbolRest_pair pair]
      exact ⟨longer, rfl, Nat.zero_le _, fun same => by simp at same⟩
    · have alone : ∀ d ∈ cs.head?, TokenKind.pairs.lookup (c, d) = none := fun d next =>
        Option.eq_none_iff_forall_not_mem.2 fun longer found => pair ⟨d, next, longer, found⟩
      rw [symbolRest_symbol alone, known]
      exact ⟨kind, rfl, Nat.le_refl _, fun _ => .inl rfl⟩

theorem givesWay_marker {body cs : List Char} (named : body ≠ [])
    (letters : ∀ c ∈ body, c.isLower = true) (front : body <+: cs) :
    GivesWay .marker '@' body cs := by
  have le : body.length ≤ run Char.isLower cs := length_le_run letters front
  have some_letter : run Char.isLower cs ≠ 0 := by
    have := List.length_pos_iff.2 named
    omega
  unfold GivesWay
  rw [lead_at, if_neg some_letter]
  exact ⟨.marker, rfl, le, fun _ => .inl rfl⟩

theorem givesWay_comment {body cs : List Char} (line : ∀ c ∈ body, c ≠ '\n' ∧ c ≠ '\r')
    (front : '/' :: body <+: cs) : GivesWay .whitespace '/' ('/' :: body) cs := by
  have inside : ∀ d ∈ '/' :: body, (d != '\n' && d != '\r') = true := by
    intro d hd
    rcases List.mem_cons.1 hd with rfl | hd
    · rfl
    · simpa using line d hd
  have le := length_le_run inside front
  obtain ⟨rest, rfl⟩ := front
  unfold GivesWay
  rw [List.cons_append, lead_comment]
  exact ⟨.whitespace, rfl, le, fun _ => .inl rfl⟩

theorem givesWay_spaces {c : Char} {body cs : List Char} (space : isSpace c = true)
    (more : ∀ d ∈ body, isSpace d = true) (front : body <+: cs) :
    GivesWay .whitespace c body cs := by
  unfold GivesWay
  rw [lead_space space]
  exact ⟨.whitespace, rfl, length_le_run more front, fun _ => .inl rfl⟩

theorem givesWay_of_matches {kind : TokenKind} {text : List Char} (h : Matches kind text) :
    ∃ c body, text = c :: body ∧ ∀ cs, body <+: cs → GivesWay kind c body cs := by
  cases h with
  | zero => exact ⟨_, _, rfl, fun cs => givesWay_integer rfl (fun _ => rfl) (by simp)⟩
  | integer digit nonzero digits =>
    exact ⟨_, _, rfl, fun cs => givesWay_integer digit (fun zero => absurd zero nonzero) digits⟩
  | rational digit digits more => exact ⟨_, _, rfl, fun cs => givesWay_rational digit digits more⟩
  | string quotable => exact ⟨_, _, rfl, fun cs => givesWay_string quotable⟩
  | @word word kind mem =>
    obtain ⟨c, body, letters, start, parts⟩ := word_shape mem
    refine ⟨c, body, letters, fun cs front => givesWay_word start parts front (.inr ?_)⟩
    rw [← letters, String.ofList_toList, ofWord_of_mem mem]
  | pair mem => exact ⟨_, _, rfl, fun cs => givesWay_pair mem⟩
  | symbol mem => exact ⟨_, _, rfl, fun cs _ => givesWay_symbol mem cs⟩
  | marker named letters => exact ⟨_, _, rfl, fun cs => givesWay_marker named letters⟩
  | identifier start parts =>
    exact ⟨_, _, rfl, fun cs front => givesWay_word start parts front (.inl rfl)⟩
  | comment line => exact ⟨_, _, rfl, fun cs => givesWay_comment line⟩
  | lineFeed => exact ⟨_, _, rfl, fun cs _ => ⟨_, rfl, Nat.le_refl _, fun _ => .inl rfl⟩⟩
  | spaces space more => exact ⟨_, _, rfl, fun cs => givesWay_spaces space more⟩

theorem matches_numberRest {c : Char} (digit : isDigit c = true) (cs : List Char) :
    Matches (numberRest c cs).1 (c :: cs.take (numberRest c cs).2) := by
  by_cases point : ∃ fraction, cs.drop (run isDigit cs) = '.' :: fraction
  · obtain ⟨fraction, point⟩ := point
    have text : cs.take (run isDigit cs + 1 + run isDigit fraction) =
        cs.take (run isDigit cs) ++ '.' :: fraction.take (run isDigit fraction) := by
      rw [Nat.add_assoc, List.take_add, point, Nat.add_comm 1, List.take_succ_cons]
    rw [numberRest_point point, text]
    exact .rational digit (fun d => of_mem_take_run) fun d => of_mem_take_run
  · rw [numberRest_whole (not_exists.1 point)]
    by_cases zero : c = '0'
    · simpa [zero] using Matches.zero
    · simpa [zero] using Matches.integer digit zero fun d => of_mem_take_run

theorem matches_ofWord {c : Char} (start : isWordStart c = true) (cs : List Char) :
    Matches (.ofWord (String.ofList (c :: cs.take (run isWordPart cs))))
      (c :: cs.take (run isWordPart cs)) := by
  have word : c :: cs.take (run isWordPart cs) =
      (String.ofList (c :: cs.take (run isWordPart cs))).toList := String.toList_ofList.symm
  rw [TokenKind.ofWord]
  cases known : TokenKind.words.lookup (String.ofList (c :: cs.take (run isWordPart cs))) with
  | none => exact .identifier start fun d => of_mem_take_run
  | some kind =>
    rw [word]
    exact .word (lookup_mem known)

theorem matches_symbolRest {c : Char} {cs : List Char} {kind : TokenKind}
    (h : (symbolRest c cs).1 = some kind) : Matches kind (c :: cs.take (symbolRest c cs).2) := by
  cases cs with
  | nil => exact .symbol (lookup_mem h)
  | cons d cs =>
    cases known : TokenKind.pairs.lookup (c, d) with
    | none =>
      rw [symbolRest_symbol (by simpa using known)] at h ⊢
      exact .symbol (lookup_mem h)
    | some longer =>
      rw [symbolRest_pair known] at h ⊢
      obtain rfl : longer = kind := by simpa using h
      exact .pair (lookup_mem known)

theorem matches_lead {c : Char} {cs : List Char} {kind : TokenKind}
    (h : (lead c cs).1 = some kind) : Matches kind (c :: cs.take (lead c cs).2) := by
  rcases lead_cases c cs with rfl | space | ⟨rfl, rest, rfl⟩ | start | digit | rfl | rfl |
    ⟨plain, comment⟩
  · obtain rfl : TokenKind.whitespace = kind := Option.some.inj h
    exact .lineFeed
  · rw [lead_space space] at h ⊢
    obtain rfl : TokenKind.whitespace = kind := Option.some.inj h
    exact .spaces space fun d => of_mem_take_run
  · rw [lead_comment] at h ⊢
    obtain rfl : TokenKind.whitespace = kind := Option.some.inj h
    have inside : ∀ d ∈ rest.take (run (fun d => d != '\n' && d != '\r') rest),
        d ≠ '\n' ∧ d ≠ '\r' := fun d hd => by simpa using of_mem_take_run hd
    simpa [run] using Matches.comment inside
  · rw [lead_word start] at h ⊢
    rw [← Option.some.inj h]
    exact matches_ofWord start cs
  · rw [lead_digit digit] at h ⊢
    rw [← Option.some.inj h]
    exact matches_numberRest digit cs
  · cases read : stringRest cs with
    | mk closed n =>
      rw [lead_quote, read] at h ⊢
      cases closed with
      | false => simp at h
      | true =>
        obtain rfl : TokenKind.string = kind := by simpa using h
        obtain ⟨body, rest, quotable, rfl, rfl⟩ := quotable_of_stringRest read
        have text : (body ++ '"' :: rest).take (body.length + 1) = body ++ ['"'] := by
          rw [List.take_append, List.take_of_length_le (Nat.le_succ _)]
          simp
        rw [text]
        exact .string quotable
  · rw [lead_at] at h ⊢
    by_cases none : run Char.isLower cs = 0
    · simp [none] at h
    · obtain rfl : TokenKind.marker = kind := by simpa [none] using h
      refine .marker (fun empty => none ?_) fun d => of_mem_take_run
      simpa [run_le] using congrArg List.length empty
  · rw [lead_plain plain comment] at h ⊢
    exact matches_symbolRest h

/-- What is reported where no pattern fits: behind a quote the rest of its line, and a lone character
    otherwise. -/
inductive Stray : List Char → List Char → Prop
  | openString {body rest : List Char} (inside : '\n' ∉ body) (stop : ∀ c ∈ rest.head?, c = '\n') :
      Stray ('"' :: body) rest
  | lone {c : Char} {rest : List Char} (other : c ≠ '"') : Stray [c] rest

theorem stray_lead {c : Char} {cs : List Char} (h : (lead c cs).1 = none) :
    Stray (c :: cs.take (lead c cs).2) (cs.drop (lead c cs).2) := by
  rcases lead_cases c cs with rfl | space | ⟨rfl, rest, rfl⟩ | start | digit | rfl | rfl |
    ⟨plain, comment⟩
  · cases h
  · simp [lead_space space] at h
  · simp [lead_comment] at h
  · simp [lead_word start] at h
  · simp [lead_digit digit] at h
  · cases read : stringRest cs with
    | mk closed n =>
      rw [lead_quote, read] at h ⊢
      obtain rfl : closed = false := by simpa using h
      obtain ⟨body, rest, rfl, rfl, inside, stop⟩ := open_of_stringRest read
      rw [List.take_left, List.drop_left]
      refine .openString inside fun d hd => ?_
      rcases stop with rfl | next
      · simp at hd
      · exact Option.some.inj (hd.symm.trans next)
  · rw [lead_at] at h ⊢
    have none_taken : run Char.isLower cs = 0 := by simpa using h
    rw [none_taken]
    exact .lone (by decide)
  · rw [lead_plain plain comment] at h ⊢
    have none_taken : (symbolRest c cs).2 = 0 := by
      unfold symbolRest at h ⊢
      split at h <;> simp_all
    rw [none_taken]
    refine .lone ?_
    rintro rfl
    exact absurd plain (by decide)

inductive Begins (cs : List Char) : Piece → Prop
  | longest {kind : TokenKind} {text : List Char} (front : text <+: cs) (fits : Matches kind text)
      (most : ∀ other longer, Matches other longer → longer <+: cs →
        longer.length ≤ text.length ∧ (longer = text → other = kind ∨ other = .identifier)) :
      Begins cs ⟨some kind, text⟩
  | stray {text rest : List Char} (split : cs = text ++ rest) (shape : Stray text rest)
      (unfit : ∀ kind longer, Matches kind longer → ¬longer <+: cs) : Begins cs ⟨none, text⟩

theorem begins_lead (c : Char) (cs : List Char) :
    Begins (c :: cs) ⟨(lead c cs).1, c :: cs.take (lead c cs).2⟩ := by
  have front : c :: cs.take (lead c cs).2 <+: c :: cs :=
    List.cons_prefix_cons.2 ⟨rfl, List.take_prefix _ _⟩
  have gives {kind : TokenKind} {text : List Char} (fits : Matches kind text)
      (front : text <+: c :: cs) : ∃ body, text = c :: body ∧ GivesWay kind c body cs := by
    obtain ⟨d, body, rfl, gives⟩ := givesWay_of_matches fits
    obtain ⟨rfl, ahead⟩ := List.cons_prefix_cons.1 front
    exact ⟨body, rfl, gives cs ahead⟩
  cases found : (lead c cs).1 with
  | none =>
    refine .stray (by simp) (stray_lead found) fun kind longer fits front => ?_
    obtain ⟨body, -, other, some_found, -⟩ := gives fits front
    simp [found] at some_found
  | some kind =>
    refine .longest front (matches_lead found) fun other longer fits front => ?_
    obtain ⟨body, rfl, found', same, le, once⟩ := gives fits front
    obtain rfl : kind = found' := Option.some.inj (found.symm.trans same)
    have size := lead_le c cs
    refine ⟨by simpa [size] using le, fun eq => once ?_⟩
    rw [(List.cons.inj eq).2, List.length_take, Nat.min_eq_left size]

theorem Matches.ne_nil {kind : TokenKind} {text : List Char} (h : Matches kind text) :
    text ≠ [] := by
  obtain ⟨c, body, rfl, -⟩ := givesWay_of_matches h
  simp

theorem Begins.ne_nil {cs : List Char} {p : Piece} (h : Begins cs p) : p.text ≠ [] := by
  cases h with
  | longest _ fits => exact fits.ne_nil
  | stray _ shape => cases shape <;> simp

/-- Every piece of a text is what the rest of the text begins with at some character. -/
theorem exists_lead_of_mem_cut {cs : List Char} {p : Piece} (h : p ∈ cut cs) :
    ∃ c ds, p = ⟨(lead c ds).1, c :: ds.take (lead c ds).2⟩ := by
  induction cs using cut.induct with
  | case1 => simp [cut_nil] at h
  | case2 c cs kind rest read ih =>
    rw [cut_cons, List.mem_cons] at h
    rcases h with here | later
    · exact ⟨c, cs, here⟩
    · rw [read] at later
      exact ih later

theorem begins_of_mem_cut {cs : List Char} {p : Piece} (h : p ∈ cut cs) : ∃ rest, Begins rest p := by
  obtain ⟨c, ds, rfl⟩ := exists_lead_of_mem_cut h
  exact ⟨c :: ds, begins_lead c ds⟩

end ObjectLang.Piece
