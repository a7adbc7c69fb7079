import Mathlib.Data.List.DropRight
import ObjectLang.Token.Bracketed
set_option autoImplicit false

/-!
# Moves of a cursor

Tokens leave the front of a cursor in two ways. They are read, one by one or by skipping them, or they
are cut out with the brackets around them to be read on their own. Only what is read sets the line of
the cursor. So the line is always that of the token read last, and it is the line of the last token
that has left exactly if what was cut out since then ends on it.
-/

namespace ObjectLang

inductive Move
  | next
  | acceptIf (kind : TokenKind)
  | skipUntil (kinds : List TokenKind)
  | cut (opening closing : TokenKind)
  deriving DecidableEq, Repr

def Move.isCut : Move → Bool
  | cut _ _ => true
  | next | acceptIf _ | skipUntil _ => false

structure Departure where
  token : Token
  /-- Whether it was cut out with brackets. Otherwise it was read. -/
  cut : Bool
  deriving DecidableEq, Repr

abbrev Trail := List Departure

/-- The line of the last of some tokens, or the given one if there are none. -/
def lineBehind (line : Nat) (ts : List Token) : Nat := (ts.getLast?.map Token.line).getD line

@[simp] theorem lineBehind_nil (line : Nat) : lineBehind line [] = line := rfl

@[simp] theorem lineBehind_concat (line : Nat) (ts : List Token) (t : Token) :
    lineBehind line (ts ++ [t]) = t.line := by
  simp [lineBehind]

theorem lineBehind_append (line : Nat) (xs ys : List Token) :
    lineBehind line (xs ++ ys) = lineBehind (lineBehind line xs) ys := by
  induction ys using List.reverseRecOn with
  | nil => simp
  | append_singleton ys t _ => rw [← List.append_assoc, lineBehind_concat, lineBehind_concat]

theorem lineBehind_eq_iff (line : Nat) (ts : List Token) :
    lineBehind line ts = line ↔ ∀ t ∈ ts.getLast?, t.line = line := by
  cases h : ts.getLast? <;> simp [lineBehind, h]

namespace Trail

def of (cut : Bool) (ts : List Token) : Trail := ts.map fun t => ⟨t, cut⟩

def tokens (gone : Trail) : List Token := gone.map Departure.token

def read (gone : Trail) : List Token := tokens (gone.filter fun d => !d.cut)

/-- The tokens that were cut out since the last one was read. -/
def cutSince (gone : Trail) : List Token := tokens (gone.rtakeWhile Departure.cut)

def upToRead (gone : Trail) : List Token := tokens (gone.rdropWhile Departure.cut)

@[simp] theorem tokens_of (cut : Bool) (ts : List Token) : tokens (of cut ts) = ts := by
  simp [tokens, of, Function.comp_def]

@[simp] theorem read_of_read (ts : List Token) : read (of false ts) = ts := by
  induction ts with
  | nil => rfl
  | cons t ts ih => exact congrArg (t :: ·) ih

@[simp] theorem read_of_cut (ts : List Token) : read (of true ts) = [] := by
  induction ts with
  | nil => rfl
  | cons t ts ih => exact ih

@[simp] theorem tokens_append (xs ys : Trail) : tokens (xs ++ ys) = tokens xs ++ tokens ys :=
  List.map_append

@[simp] theorem read_append (xs ys : Trail) : read (xs ++ ys) = read xs ++ read ys := by
  simp [read]

theorem of_append (cut : Bool) (xs ys : List Token) : of cut (xs ++ ys) = of cut xs ++ of cut ys :=
  List.map_append

theorem upToRead_append_cutSince (gone : Trail) : upToRead gone ++ cutSince gone = tokens gone := by
  rw [upToRead, cutSince, ← tokens_append, List.rdropWhile_append_rtakeWhile]

/-- The last token that was read is the last of those in front of what was cut out since. -/
theorem lineBehind_read (line : Nat) (gone : Trail) :
    lineBehind line (read gone) = lineBehind line (upToRead gone) := by
  induction gone using List.reverseRecOn with
  | nil => rfl
  | append_singleton gone d ih =>
    obtain ⟨t, cut⟩ := d
    cases cut with
    | true =>
      have dropped : upToRead (gone ++ [⟨t, true⟩]) = upToRead gone :=
        congrArg tokens (List.rdropWhile_concat_pos _ _ _ rfl)
      have unread : read (gone ++ [⟨t, true⟩]) = read gone := by simp [read]
      rw [dropped, unread, ih]
    | false =>
      have kept : upToRead (gone ++ [⟨t, false⟩]) = tokens gone ++ [t] :=
        (congrArg tokens (List.rdropWhile_concat_neg _ _ _ (by simp))).trans (tokens_append _ _)
      have last : read (gone ++ [⟨t, false⟩]) = read gone ++ [t] := read_append _ _
      rw [kept, last, lineBehind_concat, lineBehind_concat]

theorem lineBehind_tokens (line : Nat) (gone : Trail) :
    lineBehind line (tokens gone) = lineBehind (lineBehind line (read gone)) (cutSince gone) := by
  rw [← upToRead_append_cutSince, lineBehind_append, lineBehind_read]

end Trail

namespace Balance

def behind : Balance → List Token
  | closed _ _ rest => rest
  | unclosed rest => rest

theorem behind_cons (t : Token) (b : Balance) : (b.cons t).behind = b.behind := by
  cases b <;> rfl

theorem suffix_behind_find (opening closing : TokenKind) (depth : Nat) (ts : List Token) :
    (find opening closing depth ts).behind <:+ ts := by
  induction ts generalizing depth with
  | nil => exact List.suffix_refl []
  | cons t rest ih =>
    have step (d : Nat) : ((find opening closing d rest).cons t).behind <:+ t :: rest := by
      rw [behind_cons]
      exact (ih d).trans (List.suffix_cons t rest)
    simp only [find]
    split
    · exact List.suffix_cons t rest
    · split
      · exact step _
      · split
        · cases depth with
          | zero => exact List.suffix_cons t rest
          | succ depth => exact step _
        · exact step _

theorem eq_of_find_closed {opening closing : TokenKind} {depth : Nat} {ts inside rest : List Token}
    {bracket : Token} (h : find opening closing depth ts = closed inside bracket rest) :
    ts = inside ++ bracket :: rest := by
  induction ts generalizing depth inside with
  | nil => simp [find] at h
  | cons t ts ih =>
    have step (d : Nat) (h : (find opening closing d ts).cons t = closed inside bracket rest) :
        t :: ts = inside ++ bracket :: rest := by
      cases found : find opening closing d ts with
      | closed inner b r =>
        rw [found] at h
        obtain ⟨rfl, rfl, rfl⟩ : t :: inner = inside ∧ b = bracket ∧ r = rest := by
          simpa [cons] using h
        rw [ih found, List.cons_append]
      | unclosed r => simp [found, cons] at h
    simp only [find] at h
    split at h
    · cases h
    · split at h
      · exact step _ h
      · split at h
        · cases depth with
          | zero =>
            cases h
            rfl
          | succ depth => exact step _ h
        · exact step _ h

end Balance

namespace Cursor

/-- The cursor behind a move. One that fails leaves it as it is, but for brackets that are not closed:
    the search for the closing one takes what it passes. -/
def behind (c : Cursor) : Move → Cursor
  | .next => c.advance
  | .acceptIf kind => (c.advanceIf kind).2
  | .skipUntil kinds => c.skipUntil kinds
  | .cut opening closing => (c.cutBracketed opening closing).2

def run (c : Cursor) (moves : List Move) : Cursor := moves.foldl behind c

def taken (c : Cursor) (move : Move) : List Token :=
  c.tokens.take (c.size - (c.behind move).size)

def trail (c : Cursor) : List Move → Trail
  | [] => []
  | move :: moves => .of move.isCut (c.taken move) ++ (c.behind move).trail moves

theorem advance_of_cons {c : Cursor} {t : Token} {rest : List Token} (front : c.tokens = t :: rest) :
    c.advance = { c with tokens := rest, line := t.line } := by
  rw [advance, front]

theorem run_append (c : Cursor) (xs ys : List Move) : c.run (xs ++ ys) = (c.run xs).run ys :=
  List.foldl_append

/-- One cursor is left of another where `gone` has left it, and its line is that of the token read
    last. -/
structure Leaves (c : Cursor) (gone : Trail) (d : Cursor) : Prop where
  tokens : gone.tokens ++ d.tokens = c.tokens
  line : d.line = lineBehind c.line gone.read
  file : d.file = c.file

namespace Leaves

variable {c d e : Cursor} {gone later : Trail}

theorem refl (c : Cursor) : Leaves c [] c := ⟨rfl, rfl, rfl⟩

theorem trans (h : Leaves c gone d) (h' : Leaves d later e) : Leaves c (gone ++ later) e where
  tokens := by rw [Trail.tokens_append, List.append_assoc, h'.tokens, h.tokens]
  line := by rw [Trail.read_append, lineBehind_append, ← h.line, h'.line]
  file := h'.file.trans h.file

/-- Tokens that leave a cursor are as many as it has more than what is left. -/
theorem take_eq (h : Leaves c gone d) : c.tokens.take (c.size - d.size) = gone.tokens := by
  have count : c.size - d.size = gone.tokens.length := by
    rw [size, size, ← h.tokens, List.length_append, Nat.add_sub_cancel]
  rw [count, ← h.tokens, List.take_left]

theorem advance (c : Cursor) : ∃ ts, Leaves c (.of false ts) c.advance := by
  obtain ⟨tokens, file, line⟩ := c
  cases tokens with
  | nil => exact ⟨[], refl _⟩
  | cons t rest => exact ⟨[t], rfl, rfl, rfl⟩

theorem read_trans (h : ∃ ts, Leaves c (.of false ts) d) (h' : ∃ ts, Leaves d (.of false ts) e) :
    ∃ ts, Leaves c (.of false ts) e := by
  obtain ⟨xs, h⟩ := h
  obtain ⟨ys, h'⟩ := h'
  exact ⟨xs ++ ys, Trail.of_append false xs ys ▸ h.trans h'⟩

theorem replicate (n : Nat) (c : Cursor) :
    ∃ ts, Leaves c (.of false ts) (c.run (.replicate n .next)) := by
  induction n generalizing c with
  | zero => exact ⟨[], refl c⟩
  | succ n ih => exact read_trans (advance c) (ih c.advance)

end Leaves

theorem exists_skipTo_eq (c : Cursor) (stop : Token → Bool) :
    ∃ n, c.skipTo stop = c.run (.replicate n .next) := by
  obtain ⟨tokens, file, line⟩ := c
  induction tokens generalizing line with
  | nil => exact ⟨0, rfl⟩
  | cons t rest ih =>
    by_cases stops : (stop t || t.kind == .endOfFile) = true
    · exact ⟨0, by simp only [skipTo, skipTokens, if_pos stops]; rfl⟩
    · obtain ⟨n, skipped⟩ := ih t.line
      refine ⟨n + 1, .trans ?_ skipped⟩
      simp only [skipTo, skipTokens, if_neg stops]

theorem leaves_cutBracketed (c : Cursor) (opening closing : TokenKind) :
    ∃ ts, Leaves c (.of true ts) (c.cutBracketed opening closing).2 := by
  have leaves {rest : List Token} (suffix : rest <:+ c.tokens) :
      ∃ ts, Leaves c (.of true ts) { c with tokens := rest } := by
    obtain ⟨ts, split⟩ := suffix
    exact ⟨ts, by simpa using split, by simp, rfl⟩
  unfold cutBracketed
  split
  · exact ⟨[], .refl c⟩
  · rename_i first rest front
    have inside := Balance.suffix_behind_find opening closing 0 rest
    have behind : rest <:+ c.tokens := front ▸ List.suffix_cons first rest
    split
    · split
      · rename_i found
        rw [found] at inside
        exact leaves (inside.trans behind)
      · rename_i found
        rw [found] at inside
        exact leaves (inside.trans behind)
    · exact ⟨[], .refl c⟩

theorem leaves_behind (c : Cursor) (move : Move) :
    Leaves c (.of move.isCut (c.taken move)) (c.behind move) := by
  have exists_gone : ∃ ts, Leaves c (.of move.isCut ts) (c.behind move) := by
    cases move with
    | next => exact Leaves.advance c
    | acceptIf kind =>
      change ∃ ts, Leaves c (.of false ts) (c.advanceIf kind).2
      unfold advanceIf
      split
      · exact Leaves.advance c
      · exact ⟨[], .refl c⟩
    | skipUntil kinds =>
      obtain ⟨n, skipped⟩ := c.exists_skipTo_eq fun t => kinds.contains t.kind
      change ∃ ts, Leaves c (.of false ts) (c.skipTo fun t => kinds.contains t.kind)
      rw [skipped]
      exact Leaves.replicate n c
    | cut opening closing => exact leaves_cutBracketed c opening closing
  obtain ⟨ts, h⟩ := exists_gone
  have same : c.taken move = ts := h.take_eq.trans (Trail.tokens_of _ _)
  exact same ▸ h

/-- Whatever moves a cursor makes, no token is lost, and its line is that of the token read last. -/
theorem leaves_run (c : Cursor) (moves : List Move) : Leaves c (c.trail moves) (c.run moves) := by
  induction moves generalizing c with
  | nil => exact .refl c
  | cons move moves ih => exact (c.leaves_behind move).trans (ih (c.behind move))

end Cursor
end ObjectLang
