import ObjectLang.Grammar.State
set_option autoImplicit false

/-!
# Reading given tokens

What the steps of reading do when the next tokens are known, and lists of tokens whose brackets are
nested. Brackets that are cut out in front of nested tokens end where those tokens end.
-/

namespace ObjectLang

def TokenKind.spelling (kind : TokenKind) : String :=
  match words.find? fun w => w.2 = kind, pairs.find? fun s => s.2 = kind,
      symbols.find? fun s => s.2 = kind with
  | some word, _, _ => word.1
  | none, some pair, _ => String.ofList [pair.1.1, pair.1.2]
  | none, none, some symbol => String.ofList [symbol.1]
  | none, none, none => ""

def Token.fixed (kind : TokenKind) (line : Nat) : Token := ⟨kind, kind.spelling, line⟩

def Token.name (text : String) (line : Nat) : Token := ⟨.identifier, text, line⟩

namespace TokenKind

def closing? : TokenKind → Option TokenKind
  | parenOpen => some parenClose
  | braceOpen => some braceClose
  | bracketOpen => some bracketClose
  | _ => none

theorem closing?_eq_some {first last : TokenKind} (h : first.closing? = some last) :
    first = parenOpen ∧ last = parenClose ∨ first = braceOpen ∧ last = braceClose ∨
      first = bracketOpen ∧ last = bracketClose := by
  unfold closing? at h
  split at h <;> cases h <;> decide

def isPlain : TokenKind → Bool
  | parenOpen | parenClose | braceOpen | braceClose | bracketOpen | bracketClose | endOfFile => false
  | _ => true

end TokenKind

/-- Every bracket is closed behind nested tokens, and no file ends. -/
inductive Nested : List Token → Prop
  | nil : Nested []
  | plain {t : Token} {rest : List Token} (plain : t.kind.isPlain = true) (behind : Nested rest) :
    Nested (t :: rest)
  | brackets {first last : Token} {inside rest : List Token}
    (closes : first.kind.closing? = some last.kind) (nested : Nested inside) (behind : Nested rest) :
    Nested (first :: (inside ++ last :: rest))

namespace Nested

theorem append {xs ys : List Token} (hx : Nested xs) (hy : Nested ys) : Nested (xs ++ ys) := by
  induction hx with
  | nil => exact hy
  | plain plain _ ih => exact .plain plain ih
  | brackets closes nested _ _ ih =>
    rw [List.cons_append, List.append_assoc, List.cons_append]
    exact .brackets closes nested ih

theorem single {t : Token} (plain : t.kind.isPlain = true) : Nested [t] := .plain plain .nil

theorem bracketed {first last : Token} {inside : List Token}
    (closes : first.kind.closing? = some last.kind) (nested : Nested inside) :
    Nested (first :: (inside ++ [last])) := .brackets closes nested .nil

end Nested

namespace Balance

def prepend (ts : List Token) (b : Balance) : Balance := ts.foldr cons b

theorem prepend_append (xs ys : List Token) (b : Balance) :
    prepend (xs ++ ys) b = prepend xs (prepend ys b) := List.foldr_append

theorem prepend_closed (ts inside : List Token) (bracket : Token) (rest : List Token) :
    prepend ts (closed inside bracket rest) = closed (ts ++ inside) bracket rest := by
  induction ts with
  | nil => rfl
  | cons t ts ih =>
    change (prepend ts _).cons t = _
    rw [ih]
    rfl

variable {opening close : TokenKind}

theorem find_cons (depth : Nat) (t : Token) (rest : List Token) :
    find opening close depth (t :: rest) =
      if t.kind = .endOfFile then unclosed rest
      else if t.kind = opening then (find opening close (depth + 1) rest).cons t
      else if t.kind = close then
        match depth with
        | 0 => closed [] t rest
        | depth + 1 => (find opening close depth rest).cons t
      else (find opening close depth rest).cons t :=
  find.eq_def ..

theorem find_other {t : Token} (depth : Nat) (rest : List Token) (notEnd : t.kind ≠ .endOfFile)
    (notOpening : t.kind ≠ opening) (notClosing : t.kind ≠ close) :
    find opening close depth (t :: rest) = (find opening close depth rest).cons t := by
  rw [find_cons, if_neg notEnd, if_neg notOpening, if_neg notClosing]

theorem find_nested (pair : opening.closing? = some close) {ts : List Token} (nested : Nested ts)
    (depth : Nat) (rest : List Token) :
    find opening close depth (ts ++ rest) = prepend ts (find opening close depth rest) := by
  induction nested generalizing depth rest with
  | nil => rfl
  | @plain t ts plain _ ih =>
    have other : t.kind ≠ .endOfFile ∧ t.kind ≠ opening ∧ t.kind ≠ close := by
      refine ⟨?_, ?_, ?_⟩ <;> intro same <;> rw [same] at plain
      · cases plain
      all_goals obtain ⟨rfl, rfl⟩ | ⟨rfl, rfl⟩ | ⟨rfl, rfl⟩ := TokenKind.closing?_eq_some pair <;>
        cases plain
    rw [List.cons_append, find_other depth _ other.1 other.2.1 other.2.2, ih]
    rfl
  | @brackets first last inside behind closes _ _ ihInside ihBehind =>
    have split : first :: (inside ++ last :: behind) ++ rest =
        first :: (inside ++ (last :: (behind ++ rest))) := by simp
    have joined : prepend (first :: (inside ++ last :: behind)) (find opening close depth rest) =
        (prepend inside ((prepend behind (find opening close depth rest)).cons last)).cons first := by
      change (prepend (inside ++ last :: behind) _).cons first = _
      rw [prepend_append]
      rfl
    have kinds := TokenKind.closing?_eq_some closes
    have pairs := TokenKind.closing?_eq_some pair
    have notEnd : first.kind ≠ .endOfFile ∧ last.kind ≠ .endOfFile := by
      rcases kinds with ⟨h, h'⟩ | ⟨h, h'⟩ | ⟨h, h'⟩ <;> rw [h, h'] <;> decide
    rw [split, joined]
    by_cases same : first.kind = opening
    · -- the pair that is looked for
      have closing : last.kind = close := by
        rw [same, pair] at closes
        exact (Option.some.inj closes).symm
      have different : close ≠ opening := by
        rcases pairs with ⟨rfl, rfl⟩ | ⟨rfl, rfl⟩ | ⟨rfl, rfl⟩ <;> decide
      rw [find_cons, if_neg notEnd.1, if_pos same, ihInside, find_cons, if_neg notEnd.2,
        if_neg (closing ▸ different), if_pos closing]
      dsimp only
      rw [ihBehind]
    · have other : first.kind ≠ close ∧ last.kind ≠ opening ∧ last.kind ≠ close := by
        rcases kinds with ⟨h, h'⟩ | ⟨h, h'⟩ | ⟨h, h'⟩ <;> rw [h] at same <;> rw [h, h'] <;>
          rcases pairs with ⟨rfl, rfl⟩ | ⟨rfl, rfl⟩ | ⟨rfl, rfl⟩ <;>
          first | exact absurd rfl same | decide
      rw [find_other depth _ notEnd.1 same other.1, ihInside,
        find_other depth _ notEnd.2 other.2.1 other.2.2, ihBehind]

theorem find_closed (pair : opening.closing? = some close) {ts : List Token} (nested : Nested ts)
    {last : Token} (closing : last.kind = close) (rest : List Token) :
    find opening close 0 (ts ++ last :: rest) = closed ts last rest := by
  have other : last.kind ≠ .endOfFile ∧ last.kind ≠ opening := by
    rw [closing]
    obtain ⟨rfl, rfl⟩ | ⟨rfl, rfl⟩ | ⟨rfl, rfl⟩ := TokenKind.closing?_eq_some pair <;> decide
  rw [find_nested pair nested, find_cons, if_neg other.1, if_neg other.2, if_pos closing,
    prepend_closed, List.append_nil]

theorem find_closed_of_forall {ts : List Token}
    (other : ∀ t ∈ ts, t.kind ≠ .endOfFile ∧ t.kind ≠ opening ∧ t.kind ≠ close) {last : Token}
    (closing : last.kind = close) (notEnd : close ≠ .endOfFile) (different : close ≠ opening)
    (rest : List Token) : find opening close 0 (ts ++ last :: rest) = closed ts last rest := by
  induction ts with
  | nil =>
    rw [List.nil_append, find_cons, if_neg (closing ▸ notEnd), if_neg (closing ▸ different),
      if_pos closing]
  | cons t ts ih =>
    obtain ⟨h, h', h''⟩ := other t List.mem_cons_self
    rw [List.cons_append, find_other 0 _ h h' h'', ih fun u hu => other u (.tail t hu)]
    rfl

end Balance

namespace Grammar

namespace Step

variable {α β : Type} {n m : Nat} {v : α} {t : State}

def outcome (x : Step α n) : Except SyntaxError α × State := (x.result, x.state)

theorem eq_ok {x : Step α n} (h : x.outcome = (.ok v, t)) : ∃ le, x = .ok v t le := by
  cases x with
  | ok w u le =>
    cases h
    exact ⟨le, rfl⟩
  | error e u le => cases h

theorem outcome_widen (x : Step α n) (h : n ≤ m) : (x.widen h).outcome = x.outcome := by
  cases x <;> rfl

theorem outcome_map {x : Step α n} (h : x.outcome = (.ok v, t)) (f : α → β) :
    (x.map f).outcome = (.ok (f v), t) := by
  obtain ⟨le, rfl⟩ := eq_ok h
  rfl

theorem outcome_mapError {x : Step α n} (h : x.outcome = (.ok v, t))
    (f : SyntaxError → SyntaxError) : (x.mapError f).outcome = (.ok v, t) := by
  obtain ⟨le, rfl⟩ := eq_ok h
  rfl

theorem size_le {x : Step α n} (h : x.outcome = (.ok v, t)) : t.size ≤ n := (eq_ok h).1

theorem outcome_andThen {x : Step α n} (h : x.outcome = (.ok v, t))
    (f : α → (s : State) → s.size ≤ n → Step β s.size) :
    (x.andThen f).outcome = (f v t (size_le h)).outcome := by
  obtain ⟨le, rfl⟩ := eq_ok h
  exact outcome_widen (f v t le) le

end Step

namespace State

variable {s : State} {t : Token} {rest : List Token}

def seek (s : State) (tokens : List Token) (line : Nat) : State :=
  { s with cursor := { s.cursor with tokens, line } }

theorem take?_cons (h : s.cursor.tokens = t :: rest) :
    s.take? = some ⟨t, s.seek rest t.line, h⟩ := by
  unfold take?
  split
  · rename_i none
    rw [none] at h
    cases h
  · rename_i u more some
    rw [some] at h
    cases h
    rfl

theorem take?_nil (h : s.cursor.tokens = []) : s.take? = none := by
  unfold take?
  split
  · rfl
  · rename_i some
    rw [some] at h
    cases h

theorem expect_cons (kind : TokenKind) (h : s.cursor.tokens = t :: rest) (same : t.kind = kind) :
    (s.expect kind).outcome = (.ok t, s.seek rest t.line) := by
  have next : s.next.outcome = (.ok t, s.seek rest t.line) := by
    rw [State.next, take?_cons h, Step.outcome_widen]
    rfl
  rw [State.expect, Step.outcome_andThen next, Cursor.demand, if_pos same]
  rfl

theorem accept_cons (kind : TokenKind) (h : s.cursor.tokens = t :: rest) (same : t.kind = kind) :
    (s.accept kind).outcome = (.ok true, s.seek rest t.line) := by
  have check : s.cursor.check kind = true := by
    rw [Cursor.check, Cursor.peek, Cursor.front?, h]
    exact same ▸ beq_self_eq_true _
  have advanced : s.cursor.advanceIf kind = (true, (s.seek rest t.line).cursor) := by
    rw [Cursor.advanceIf, if_pos check, Cursor.advance, h]
    rfl
  change (Except.ok (s.cursor.advanceIf kind).1,
    { s with cursor := (s.cursor.advanceIf kind).2 }) = _
  rw [advanced]
  rfl

theorem accept_other {kind : TokenKind}
    (h : ∀ t ∈ s.cursor.tokens.head?, t.kind ≠ kind) :
    (s.accept kind).outcome = (.ok false, s) := by
  have check : s.cursor.check kind = false := by
    rw [Cursor.check, Cursor.peek, Cursor.front?]
    cases front : s.cursor.tokens.head? with
    | none => rfl
    | some t => exact beq_false_of_ne fun same => h t front (Option.some.inj same)
  have stays : s.cursor.advanceIf kind = (false, s.cursor) := by
    rw [Cursor.advanceIf, if_neg (Bool.eq_false_iff.1 check)]
  change (Except.ok (s.cursor.advanceIf kind).1,
    { s with cursor := (s.cursor.advanceIf kind).2 }) = _
  rw [stays]

theorem semicolon_cons (h : s.cursor.tokens = t :: rest) (semicolon : t.kind = .semicolon)
    (construct : String) : (s.semicolon construct).outcome = (.ok (), s.seek rest t.line) := by
  rw [State.semicolon, Step.outcome_andThen (accept_cons .semicolon h semicolon)]
  rfl

end State

theorem outcome_inside {α : Type} {s : State} (k : Taken s) {closing : TokenKind}
    {read : (t : State) → t.size ≤ k.behind.size → Step α t.size} {inside rest : List Token}
    {last : Token} {v : α} (front : k.behind.cursor.tokens = inside ++ last :: rest)
    (found : Balance.find k.token.kind closing 0 (inside ++ last :: rest) = .closed inside last rest)
    (reads : ∀ t le, t.program = s.program → t.module = s.module →
      t.diagnostics = s.diagnostics → t.pending = s.pending → t.cursor.tokens = inside →
      ∃ line, (read t le).outcome = (.ok v, t.seek [] line)) :
    (k.inside closing read).outcome = (.ok v, s.seek rest s.cursor.line) := by
  have tokens : s.cursor.tokens = k.token :: (inside ++ last :: rest) := front ▸ k.tokens_eq
  let inner : Cursor := ⟨inside, s.cursor.file, k.token.line⟩
  let behind : Cursor := { s.cursor with tokens := rest }
  have cut : s.cursor.cutInside k.token.kind closing = (.ok inner, behind) := by
    rw [Cursor.cutInside, Cursor.cutBracketed, tokens]
    dsimp only
    rw [if_pos rfl, found]
    simp only [Except.map, Cursor.dropBrackets, Cursor.advance, List.cons_append,
      List.dropLast_concat]
    rfl
  unfold Taken.inside
  dsimp only
  split
  · rename_i e failed
    rw [cut] at failed
    cases failed
  · rename_i cursor ok
    have same : cursor = inner ∧ (s.cursor.cutInside k.token.kind closing).2 = behind := by
      rw [cut] at ok ⊢
      cases ok
      exact ⟨rfl, rfl⟩
    obtain ⟨rfl, same⟩ := same
    obtain ⟨line, read⟩ := reads (s.enter inner (s.cursor.cutInside k.token.kind closing).2)
      ((Cursor.size_cutInside k.tokens_eq closing).2 inner ok) rfl rfl rfl rfl rfl
    obtain ⟨le, read⟩ := Step.eq_ok read
    rw [read]
    exact congrArg (fun cursor => (Except.ok v, { s with cursor })) same

end Grammar
end ObjectLang
