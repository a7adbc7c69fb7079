import ObjectLang.Grammar.File
import ObjectLang.Imports.Line
import ObjectLang.Proofs.Printing.Token
import ObjectLang.Proofs.Token.Lexed
import ObjectLang.Text.Lines
set_option autoImplicit false

/-!
# Import lines as text and as tokens

The search for imports looks at lines of characters, the reader of a file at tokens. An import line
begins with the same word for both. The reader drops every line that begins with it, but only a
line on which a blank and a path follow the word imports a file.
-/

namespace ObjectLang

namespace Text

variable {α : Type} {p : α → Bool}

theorem dropEndWhile_append_of_pos (xs : List α) {ys : List α} (all : ∀ y ∈ ys, p y = true) :
    dropEndWhile p (xs ++ ys) = dropEndWhile p xs := by
  rw [dropEndWhile, List.reverse_append, List.dropWhile_append_of_pos (by simpa using all)]
  rfl

theorem dropEndWhile_cons_of_neg {x : α} (stop : ¬p x = true) (ys : List α) :
    dropEndWhile p (x :: ys) = x :: dropEndWhile p ys := by
  rw [dropEndWhile, dropEndWhile, List.reverse_cons, List.dropWhile_append]
  split
  · rename_i none
    simp [List.isEmpty_iff.1 none, stop]
  · simp

theorem dropEndWhile_append_of_neg {xs : List α} (stop : ∀ x ∈ xs, ¬p x = true) (ys : List α) :
    dropEndWhile p (xs ++ ys) = xs ++ dropEndWhile p ys := by
  induction xs with
  | nil => rfl
  | cons x xs ih =>
    obtain ⟨here, later⟩ := List.forall_mem_cons.1 stop
    rw [List.cons_append, dropEndWhile_cons_of_neg here, ih later, List.cons_append]

theorem dropEndWhile_split (p : α → Bool) (xs : List α) :
    ∃ ys, xs = dropEndWhile p xs ++ ys ∧ ∀ y ∈ ys, p y = true := by
  refine ⟨(xs.reverse.takeWhile p).reverse, ?_, fun y mem => ?_⟩
  · rw [dropEndWhile, ← List.reverse_append, List.takeWhile_append_dropWhile, List.reverse_reverse]
  · exact List.mem_takeWhile_imp (List.mem_reverse.1 mem)

theorem trim_append (cs : List Char) {blanks : List Char} (all : ∀ c ∈ blanks, isBlank c = true) :
    trim (cs ++ blanks) = trim cs := by
  rw [trim, stripWhile, List.dropWhile_append]
  split
  · rename_i none
    rw [List.dropWhile_eq_nil_iff.2 all, trim, stripWhile, List.isEmpty_iff.1 none]
  · exact dropEndWhile_append_of_pos _ all

theorem trim_trimEnd (cs : List Char) : trim (trimEnd cs) = trim cs := by
  obtain ⟨blanks, split, all⟩ := dropEndWhile_split isBlank cs
  calc trim (trimEnd cs) = trim (trimEnd cs ++ blanks) := (trim_append _ all).symm
    _ = trim cs := congrArg trim split.symm

/-- A line ends in front of the line feed, or in front of a carriage return there. -/
theorem lines_append_lineFeed {cs : List Char} (one : '\n' ∉ cs) (more : List Char) :
    ∃ line, (cs = line ∨ cs = line ++ ['\r']) ∧ lines (cs ++ '\n' :: more) = line :: lines more := by
  induction cs with
  | nil => exact ⟨[], .inl rfl, lines_newline more⟩
  | cons c cs ih =>
    obtain ⟨other, one⟩ := not_or.1 (mt List.mem_cons.2 one)
    by_cases ending : c = '\r' ∧ cs = []
    · obtain ⟨rfl, rfl⟩ := ending
      exact ⟨[], .inr rfl, by simp [lines]⟩
    · obtain ⟨line, split, read⟩ := ih one
      refine ⟨c :: line, ?_, ?_⟩
      · rcases split with rfl | rfl <;> simp
      · have not_both : ∀ rest, c = '\r' → cs ++ '\n' :: more = '\n' :: rest → False := by
          rintro rest rfl front
          cases cs with
          | nil => exact ending ⟨rfl, rfl⟩
          | cons d cs => exact one (by simp [(List.cons.inj front).1])
        rw [List.cons_append, lines, read]
        · exact Ne.symm other
        · exact not_both

theorem lines_eq_singleton {cs : List Char} (one : '\n' ∉ cs) (some_char : cs ≠ []) :
    lines cs = [cs] := by
  induction cs with
  | nil => exact absurd rfl some_char
  | cons c cs ih =>
    obtain ⟨other, one⟩ := not_or.1 (mt List.mem_cons.2 one)
    cases cs with
    | nil => simp [lines, Ne.symm other]
    | cons d cs =>
      rw [lines, ih one (by simp)]
      · exact Ne.symm other
      · rintro rest - front
        exact one (by simp [(List.cons.inj front).1])

end Text

theorem Piece.isBlank_of_isSpace {c : Char} (h : isSpace c = true) : Text.isBlank c = true := by
  rcases eq_of_isSpace h with rfl | rfl | rfl | rfl <;> decide

theorem Skipped.dropWhile_isBlank {parts : List (List Char)} (h : ∀ part ∈ parts, Skipped part)
    (rest : List Char) : (∀ c ∈ parts.flatten, Text.isBlank c = true) ∨
      ∃ comment, (parts.flatten ++ rest).dropWhile Text.isBlank = '/' :: comment := by
  induction parts with
  | nil => exact .inl (by simp)
  | cons part parts ih =>
    obtain ⟨here, later⟩ := List.forall_mem_cons.1 h
    have behind (blank : ∀ c ∈ part, Text.isBlank c = true) :
        (∀ c ∈ (part :: parts).flatten, Text.isBlank c = true) ∨ ∃ comment,
          ((part :: parts).flatten ++ rest).dropWhile Text.isBlank = '/' :: comment := by
      rw [List.flatten_cons, List.append_assoc, List.dropWhile_append_of_pos blank]
      exact (ih later).imp_left fun all c mem => (List.mem_append.1 mem).elim (blank c) (all c)
    cases here with
    | blanks spaces => exact behind fun c mem => Piece.isBlank_of_isSpace (spaces c mem)
    | lineFeed => exact behind (List.forall_mem_singleton.2 (by decide))
    | comment line => exact .inr ⟨_, rfl⟩

namespace Imports

/-- The line begins with the word of import lines: only skipped texts stand in front of it. -/
structure WordFirst (line front rest : List Char) : Prop where
  split : line = front ++ "import".toList ++ rest
  skipped : ∃ parts : List (List Char), front = parts.flatten ∧ ∀ part ∈ parts, Skipped part

theorem target?_of_blank {front : List Char} (blank : ∀ c ∈ front, Text.isBlank c = true)
    (rest : List Char) : (target? (front ++ "import".toList ++ rest)).isSome ↔
      (∃ c ∈ rest.head?, Text.isBlank c = true) ∧ barePath rest ≠ [] := by
  have trimmed : Text.trim (front ++ "import".toList ++ rest) =
      "import".toList ++ Text.trimEnd rest := by
    have kept : "import".toList.any Text.isBlank = false := by decide
    rw [List.append_assoc, Text.trim, Text.stripWhile, List.dropWhile_append_of_pos blank]
    exact Text.dropEndWhile_append_of_neg (List.any_eq_false.1 kept) rest
  have same : barePath (Text.trimEnd rest) = barePath rest := by
    rw [barePath, barePath, Text.trim_trimEnd]
  obtain ⟨blanks, split, all⟩ := Text.dropEndWhile_split Text.isBlank rest
  change rest = Text.trimEnd rest ++ blanks at split
  rw [target?, trimmed, behind?_append, ← same]
  cases kept : Text.trimEnd rest with
  | nil => simp [barePath, Text.trim, Text.stripWhile, Text.trimEnd, Text.dropEndWhile]
  | cons c more =>
    have head : rest.head? = some c := by rw [split, kept]; rfl
    rw [head]
    by_cases space : Text.isBlank c = true
    · cases path : barePath (c :: more) <;> simp [space, path]
    · simp [space]

theorem target?_of_comment {cs comment : List Char}
    (h : cs.dropWhile Text.isBlank = '/' :: comment) : target? cs = none := by
  have slash : ¬Text.isBlank '/' = true := by decide
  rw [target?, Text.trim, Text.stripWhile, h, Text.dropEndWhile_cons_of_neg slash]
  rfl

theorem WordFirst.target?_isSome {line front rest : List Char} (h : WordFirst line front rest) :
    (target? line).isSome ↔ (∀ c ∈ front, Text.isBlank c = true) ∧
      (∃ c ∈ rest.head?, Text.isBlank c = true) ∧ barePath rest ≠ [] := by
  obtain ⟨rfl, parts, rfl, skipped⟩ := h
  by_cases blank : ∀ c ∈ parts.flatten, Text.isBlank c = true
  · rw [target?_of_blank blank]
    exact (and_iff_right blank).symm
  · obtain all | ⟨comment, front⟩ :=
      Skipped.dropWhile_isBlank skipped ("import".toList ++ rest)
    · exact absurd all blank
    · rw [← List.append_assoc] at front
      rw [target?_of_comment front]
      exact ⟨fun found => absurd found (by simp), fun found => absurd found.1 blank⟩

end Imports

namespace Lexed

theorem kind_of_mem_tokensFrom {file : String} {line : Nat} {ps : List Piece} {t : Token}
    (h : t ∈ (tokensFrom file line ps).dropLast) : ∃ p ∈ ps, p.kind = some t.kind := by
  induction ps generalizing line with
  | nil => simp [tokensFrom] at h
  | cons p ps ih =>
    rw [tokensFrom_cons, List.dropLast_append_of_ne_nil (tokensFrom_ne_nil _ _ _),
      List.mem_append] at h
    rcases h with here | later
    · exact ⟨p, List.mem_cons_self, (Piece.token?_eq_some (Option.mem_toList.1 here)).1⟩
    · obtain ⟨q, mem, is⟩ := ih later
      exact ⟨q, List.mem_cons_of_mem _ mem, is⟩

theorem tokensFrom_line {cs : List Char} (one : '\n' ∉ cs) (file : String) (n : Nat) :
    ∃ own, tokensFrom file n (Piece.cut cs) = own ++ [.endOfFile file n] ∧
      ∀ t ∈ own, t.line = n ∧ t.kind ≠ .endOfFile := by
  have whole := tokensFrom_append file n (Piece.cut cs) []
  have feeds : ((Piece.cut cs).flatMap Piece.text).count '\n' = 0 := by
    rw [Piece.flatMap_text_cut]
    exact List.count_eq_zero.2 one
  rw [List.append_nil, feeds] at whole
  refine ⟨_, whole, fun t mem => ⟨?_, ?_⟩⟩
  · have := line_of_mem_tokensFrom (List.dropLast_subset _ mem)
    omega
  · obtain ⟨p, cut, is⟩ := kind_of_mem_tokensFrom mem
    obtain ⟨rest, begins⟩ := Piece.begins_of_mem_cut cut
    exact Piece.ne_endOfFile_of_matches (begins.matches_of_kind is)

theorem tokensFrom_append_lineFeed {line : List Char} (one : '\n' ∉ line) (more : List Char)
    {file : String} {n : Nat} {own : List Token}
    (h : tokensFrom file n (Piece.cut line) = own ++ [.endOfFile file n]) :
    tokensFrom file n (Piece.cut (line ++ '\n' :: more)) =
      own ++ tokensFrom file (n + 1) (Piece.cut more) := by
  rw [Piece.cut_append_lineFeed, tokensFrom_append, h, List.dropLast_concat, tokensFrom_cons,
    Piece.flatMap_text_cut, List.count_eq_zero.2 one]
  rfl

theorem errorsFrom_append_lineFeed {line : List Char} (one : '\n' ∉ line) (more : List Char)
    (n : Nat) : errorsFrom n (Piece.cut (line ++ '\n' :: more)) =
      errorsFrom n (Piece.cut line) ++ errorsFrom (n + 1) (Piece.cut more) := by
  rw [Piece.cut_append_lineFeed, errorsFrom_append, errorsFrom_cons, Piece.flatMap_text_cut,
    List.count_eq_zero.2 one]
  rfl

theorem first_of_tokensFrom {file : String} {n : Nat} {ps : List Piece} {word : Token}
    {behind : List Token} (clean : errorsFrom n ps = [])
    (h : tokensFrom file n ps = word :: behind) (open_ : word.kind ≠ .endOfFile) :
    ∃ fs p qs, ps = fs ++ p :: qs ∧ (∀ f ∈ fs, f.kind = some .whitespace) ∧
      p.text = word.text.toList := by
  induction ps generalizing n with
  | nil =>
    obtain ⟨rfl, -⟩ := List.cons.inj h
    exact absurd rfl open_
  | cons p ps ih =>
    rw [errorsFrom_cons, List.append_eq_nil_iff] at clean
    rw [tokensFrom_cons] at h
    obtain ⟨_ | kind, text⟩ := p
    · simp [Piece.error?] at clean
    · by_cases white : kind = .whitespace
      · subst white
        obtain ⟨fs, q, qs, rfl, skipped, is⟩ := ih clean.2 h
        exact ⟨_ :: fs, q, qs, rfl, List.forall_mem_cons.2 ⟨rfl, skipped⟩, is⟩
      · rw [Piece.token?_of_kind white] at h
        obtain ⟨rfl, -⟩ := List.cons.inj h
        exact ⟨[], _, ps, rfl, by simp, String.toList_ofList.symm⟩

end Lexed

namespace Imports

theorem wordFirst_of_tokensFrom {file : String} {n : Nat} {line : List Char} {word : Token}
    {behind : List Token} (clean : Lexed.errorsFrom n (Piece.cut line) = [])
    (h : Lexed.tokensFrom file n (Piece.cut line) = word :: behind)
    (open_ : word.kind ≠ .endOfFile) (named : word.text = "import") :
    ∃ front rest, WordFirst line front rest := by
  obtain ⟨fs, p, qs, split, skipped, text⟩ := Lexed.first_of_tokensFrom clean h open_
  refine ⟨fs.flatMap Piece.text, qs.flatMap Piece.text, ?_, fs.map Piece.text, ?_, ?_⟩
  · rw [← named, ← text, ← Piece.flatMap_text_cut line, split, List.flatMap_append,
      List.flatMap_cons, List.append_assoc]
  · rw [List.flatMap_def]
  · intro part mem
    obtain ⟨f, among, rfl⟩ := List.mem_map.1 mem
    have cut : f ∈ Piece.cut line := by simp [split, among]
    obtain ⟨rest, begins⟩ := Piece.begins_of_mem_cut cut
    exact Piece.skipped_of_matches (begins.matches_of_kind (skipped f among))

theorem WordFirst.of_return {line front rest : List Char}
    (h : WordFirst (line ++ ['\r']) front rest) : ∃ rest, WordFirst line front rest := by
  obtain ⟨split, skipped⟩ := h
  rcases List.eq_nil_or_concat rest with rfl | ⟨rest, c, rfl⟩
  · have last := congrArg List.getLast? split
    simp at last
  · rw [List.concat_eq_append, ← List.append_assoc] at split
    exact ⟨rest, (List.append_singleton_inj.1 split).1, skipped⟩

/-- A token is the first on its line. The tokens behind it on the line stand together. -/
structure FirstOfLine (word : Token) (behind same later : List Token) : Prop where
  split : behind = same ++ later
  same : ∀ t ∈ same, t.line = word.line ∧ t.kind ≠ .endOfFile
  later : ∀ t ∈ later, word.line < t.line ∨ t.kind = .endOfFile

/-- If nothing of its line stands in front of the word, the line begins with it. -/
theorem first_of_line {file : String} {n : Nat} {line : List Char} (one : '\n' ∉ line)
    {own before same : List Token} {word : Token}
    (tokens : Lexed.tokensFrom file n (Piece.cut line) = own ++ [.endOfFile file n])
    (clean : Lexed.errorsFrom n (Piece.cut line) = []) (h : own = before ++ word :: same)
    (named : word.text = "import") (first : ∀ t ∈ before, t.line ≠ word.line) :
    word.line = n ∧ (∃ front rest, WordFirst line front rest) ∧
      ∀ t ∈ same, t.line = word.line ∧ t.kind ≠ .endOfFile := by
  obtain ⟨own', tokens', lines⟩ := Lexed.tokensFrom_line one file n
  obtain rfl := (List.append_singleton_inj.1 (tokens.symm.trans tokens')).1
  subst h
  obtain ⟨here, open_⟩ := lines word (by simp)
  have alone : before = [] := List.eq_nil_iff_forall_not_mem.2 fun t mem =>
    first t mem (by rw [(lines t (by simp [mem])).1, here])
  subst alone
  refine ⟨here, wordFirst_of_tokensFrom clean tokens open_ named, fun t mem => ?_⟩
  rw [here]
  exact lines t (by simp [mem])

theorem append_eq_append_cons {α : Type} {xs ys front behind : List α} {x : α}
    (h : xs ++ ys = front ++ x :: behind) :
    (∃ more, front = xs ++ more ∧ ys = more ++ x :: behind) ∨
      ∃ more, xs = front ++ x :: more ∧ behind = more ++ ys := by
  obtain ⟨more, split, rest⟩ | ⟨more, split, rest⟩ := List.append_eq_append_iff.1 h
  · exact .inl ⟨more, split, rest⟩
  · cases more with
    | nil => exact .inl ⟨[], by simpa using split.symm, by simpa using rest.symm⟩
    | cons y more =>
      obtain ⟨rfl, rfl⟩ := List.cons.inj rest
      exact .inr ⟨more, split, rfl⟩

/-- The line of a text that begins with the token, and the tokens on it. -/
theorem line_of_word {file : String} {n : Nat} {cs : List Char} {before behind : List Token}
    {word : Token} (clean : Lexed.errorsFrom n (Piece.cut cs) = [])
    (h : Lexed.tokensFrom file n (Piece.cut cs) = before ++ word :: behind)
    (open_ : word.kind ≠ .endOfFile) (named : word.text = "import")
    (first : ∀ t ∈ before, t.line ≠ word.line) :
    (∃ i line front rest, word.line = n + i ∧ (Text.lines cs)[i]? = some line ∧
      WordFirst line front rest) ∧
    ∃ same later, FirstOfLine word behind same later := by
  induction size : cs.length using Nat.strongRecOn generalizing n cs before with
  | _ size ih =>
    by_cases many : '\n' ∈ cs
    · obtain ⟨line, more, rfl, one⟩ := List.eq_append_cons_of_mem many
      obtain ⟨own, tokens, -⟩ := Lexed.tokensFrom_line one file n
      rw [Lexed.tokensFrom_append_lineFeed one more tokens] at h
      rw [Lexed.errorsFrom_append_lineFeed one, List.append_eq_nil_iff] at clean
      obtain ⟨shown, ends, read⟩ := Text.lines_append_lineFeed one more
      rw [read]
      obtain ⟨above, rfl, down⟩ | ⟨same, split, rfl⟩ := append_eq_append_cons h
      · -- the word stands further down
        obtain ⟨⟨i, found, front, rest, number, listed, begins⟩, tokens⟩ :=
          ih more.length (by simp at size; omega) clean.2 down
            (fun t mem => first t (List.mem_append_right _ mem)) rfl
        exact ⟨⟨i + 1, found, front, rest, by omega, listed, begins⟩, tokens⟩
      · obtain ⟨here, ⟨front, rest, begins⟩, alike⟩ :=
          first_of_line one tokens clean.1 split named first
        have begins' : ∃ rest, WordFirst shown front rest := by
          rcases ends with rfl | rfl
          · exact ⟨rest, begins⟩
          · exact begins.of_return
        obtain ⟨rest', begins'⟩ := begins'
        refine ⟨⟨0, shown, front, rest', here, rfl, begins'⟩, same, _, rfl, alike, fun t mem => ?_⟩
        have := (Lexed.line_of_mem_tokensFrom mem).1
        omega
    · obtain ⟨own, tokens, -⟩ := Lexed.tokensFrom_line many file n
      obtain ⟨above, -, closing⟩ | ⟨same, split, rfl⟩ := append_eq_append_cons (tokens.symm.trans h)
      · have mem : word ∈ [Token.endOfFile file n] := by simp [closing]
        obtain rfl := List.mem_singleton.1 mem
        exact absurd rfl open_
      · obtain ⟨here, ⟨front, rest, begins⟩, alike⟩ :=
          first_of_line many tokens clean split named first
        have some_char : cs ≠ [] := by
          rw [begins.split]
          simp
        rw [Text.lines_eq_singleton many some_char]
        refine ⟨⟨0, cs, front, rest, here, rfl, begins⟩, same, _, rfl, alike, fun t mem => .inr ?_⟩
        obtain rfl := List.mem_singleton.1 mem
        rfl

end Imports

theorem Cursor.skipTokens_append {stop : Token → Bool} {line : Nat} {same later : List Token}
    (passed : ∀ t ∈ same, stop t = false ∧ t.line = line) (ends : ∀ t ∈ later, stop t = true) :
    skipTokens stop line (same ++ later) = (later, line) := by
  induction same with
  | nil =>
    cases later with
    | nil => rfl
    | cons t later => simp [skipTokens, ends t]
  | cons t same ih =>
    obtain ⟨⟨pass, alike⟩, more⟩ := List.forall_mem_cons.1 passed
    rw [List.cons_append, skipTokens, if_neg (by simp [pass]), alike, ih more]

namespace Imports

open Grammar

/-- The reader goes on behind the line, as if nothing had stood on it. -/
theorem items_of_word {s : State} {word : Token} {behind same later : List Token}
    (here : s.cursor.tokens = word :: behind) (kind : word.kind = .identifier)
    (named : word.text = importWord) (line : FirstOfLine word behind same later)
    (earlier : List Module) : items earlier s = items earlier (s.seek later word.line) := by
  have skipped : skipImport ⟨word, s.seek behind word.line, here⟩ = s.seek later word.line := by
    unfold skipImport Cursor.skipTo
    simp only [State.seek, line.split]
    rw [Cursor.skipTokens_append]
    · intro t mem
      obtain ⟨alike, open_⟩ := line.same t mem
      simp [alike, open_]
    · intro t mem
      rcases line.later t mem with below | closing
      · simp [Nat.ne_of_gt below]
      · simp [closing]
  rw [items, State.take?_cons here]
  simp only [kind, reduceCtorEq, if_false, declarationAt?, named, if_true, skipped]

/-- A line that begins with the word of import lines where an item may begin is dropped by the reader,
    with all its tokens and without a trace. It imports a file only if just blanks stand in front of
    the word, and a blank and a path behind it; any other such line is lost. -/
theorem import_line_dropped {file text : String} (clean : (Lexed.ofText file text).diagnostics = [])
    {before behind : List Token} {word : Token}
    (tokens : (Lexed.ofText file text).tokens = before ++ word :: behind)
    (first : ∀ t ∈ before, t.line ≠ word.line) (kind : word.kind = .identifier)
    (named : word.text = importWord) {s : State} (here : s.cursor.tokens = word :: behind)
    (earlier : List Module) :
    (∃ i line front rest, word.line = i + 1 ∧ (Text.lines text.toList)[i]? = some line ∧
      WordFirst line front rest ∧
      ((target? line).isSome ↔ (∀ c ∈ front, Text.isBlank c = true) ∧
        (∃ c ∈ rest.head?, Text.isBlank c = true) ∧ barePath rest ≠ [])) ∧
    ∃ same later, FirstOfLine word behind same later ∧
      items earlier s = items earlier (s.seek later word.line) := by
  have none := List.map_eq_nil_iff.1 clean
  obtain ⟨⟨i, line, front, rest, number, listed, begins⟩, same, later, split⟩ :=
    line_of_word none tokens (by simp [kind]) named first
  exact ⟨⟨i, line, front, rest, by omega, listed, begins, begins.target?_isSome⟩, same, later, split,
    items_of_word here kind named split earlier⟩

def assigned (name : String) : String :=
  "let " ++ name ++ " = 1;\n" ++ name ++ "=2;\nret " ++ name ++ ";\n"

def unread (text : String) : State :=
  .start [] "m" (.ofTokens "m.kv" (Lexed.ofText "m.kv" text).tokens) default default

theorem import_line_dropped_assigned :
    let behind := [⟨.equals, "=", 2⟩, ⟨.integer, "2", 2⟩, ⟨.semicolon, ";", 2⟩, ⟨.retWord, "ret", 3⟩,
      ⟨.identifier, "import", 3⟩, ⟨.semicolon, ";", 3⟩, .endOfFile "m.kv" 4]
    let s := (unread (assigned "import")).seek (⟨.identifier, "import", 2⟩ :: behind) 1
    ∃ same later, FirstOfLine ⟨.identifier, "import", 2⟩ behind same later ∧
      items [] s = items [] (s.seek later 2) := by
  intro behind s
  have tokens : (Lexed.ofText "m.kv" (assigned "import")).tokens =
      [⟨.letWord, "let", 1⟩, ⟨.identifier, "import", 1⟩, ⟨.equals, "=", 1⟩, ⟨.integer, "1", 1⟩,
        ⟨.semicolon, ";", 1⟩] ++ ⟨.identifier, "import", 2⟩ :: behind := by decide +kernel
  exact (import_line_dropped (by decide +kernel) tokens (by decide) rfl rfl rfl []).2

/-- No import is found on the second line, but the assignment on it is lost: with another name for the
    variable the file has one more statement. -/
theorem assignment_lost :
    (Lexed.ofText "m.kv" (assigned "import")).diagnostics = [] ∧
    (Text.lines (assigned "import").toList)[1]? = some "import=2;".toList ∧
    target? "import=2;".toList = none ∧
    (items [] (unread (assigned "import"))).1.length = 2 ∧
    (items [] (unread (assigned "imports"))).1.length = 3 := by decide +kernel

end Imports
end ObjectLang
