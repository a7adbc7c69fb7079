import Mathlib.Data.List.Infix
import ObjectLang.Token.Bracketed
import ObjectLang.Token.Lexed
set_option autoImplicit false

/-!
# Cut tokens are balanced

Brackets are cut out by counting. The counter is raised by every opening bracket and lowered by every
closing one, and where it comes back to zero the cut is over. So what is cut is the shortest piece with
as many closing as opening brackets; no token is lost by it, and what stands between its first and its
last bracket is balanced.
-/

namespace ObjectLang

variable {opening close : TokenKind}

def tally (kind : TokenKind) (ts : List Token) : Nat := ts.countP fun t => t.kind == kind

/-- The counter of open brackets behind tokens. Nothing keeps it from going below zero. -/
def depth (opening close : TokenKind) (ts : List Token) : Int :=
  ts.foldl
    (fun d t => if t.kind = opening then d + 1 else if t.kind = close then d - 1 else d) 0

def beforeEnd (ts : List Token) : List Token := ts.takeWhile fun t => t.kind != .endOfFile

/-- A piece from the front of the tokens that has as many closing as opening brackets. -/
structure Evens (opening close : TokenKind) (ts piece : List Token) : Prop where
  nonempty : piece ≠ []
  front : piece <+: beforeEnd ts
  even : tally close piece = tally opening piece

structure Balanced (opening close : TokenKind) (ts : List Token) : Prop where
  covered : ∀ p, p <+: ts → tally close p ≤ tally opening p
  even : tally close ts = tally opening ts

instance (opening close : TokenKind) (ts : List Token) : Decidable (Balanced opening close ts) :=
  decidable_of_iff
    ((∀ p ∈ ts.inits, tally close p ≤ tally opening p) ∧ tally close ts = tally opening ts)
    ⟨fun h => ⟨fun p front => h.1 p ((List.mem_inits p ts).2 front), h.2⟩,
      fun h => ⟨fun p front => h.covered p ((List.mem_inits p ts).1 front), h.even⟩⟩

theorem tally_nil (kind : TokenKind) : tally kind [] = 0 := rfl

theorem tally_self {t : Token} {kind : TokenKind} (same : t.kind = kind) : tally kind [t] = 1 :=
  List.countP_cons_of_pos (beq_iff_eq.2 same)

theorem tally_other {t : Token} {kind : TokenKind} (other : t.kind ≠ kind) : tally kind [t] = 0 :=
  List.countP_cons_of_neg fun same => other (beq_iff_eq.1 same)

theorem tally_append (kind : TokenKind) (xs ys : List Token) :
    tally kind (xs ++ ys) = tally kind xs + tally kind ys := List.countP_append

theorem tally_cons (kind : TokenKind) (t : Token) (ts : List Token) :
    tally kind (t :: ts) = tally kind [t] + tally kind ts := tally_append kind [t] ts

/-- The counter is the difference of the two numbers of brackets. -/
theorem depth_eq (differ : opening ≠ close) (ts : List Token) :
    depth opening close ts = (tally opening ts : Int) - tally close ts := by
  have counted (d : Int) : ts.foldl (fun d t =>
      if t.kind = opening then d + 1 else if t.kind = close then d - 1 else d) d =
        d + (tally opening ts - tally close ts) := by
    induction ts generalizing d with
    | nil => simp [tally_nil]
    | cons t ts ih =>
      rw [List.foldl_cons, ih, tally_cons opening, tally_cons close]
      by_cases opens : t.kind = opening
      · have other : t.kind ≠ close := opens ▸ differ
        rw [if_pos opens, tally_self opens, tally_other other]
        omega
      · rw [if_neg opens, tally_other opens]
        by_cases closes : t.kind = close
        · rw [if_pos closes, tally_self closes]
          omega
        · rw [if_neg closes, tally_other closes]
          omega
  rw [depth, counted, Int.zero_add]

theorem beforeEnd_cons {t : Token} (notEnd : t.kind ≠ .endOfFile) (ts : List Token) :
    beforeEnd (t :: ts) = t :: beforeEnd ts :=
  List.takeWhile_cons_of_pos (bne_iff_ne.2 notEnd)

theorem beforeEnd_cons_end {t : Token} (isEnd : t.kind = .endOfFile) (ts : List Token) :
    beforeEnd (t :: ts) = [] :=
  List.takeWhile_cons_of_neg fun other => bne_iff_ne.1 other isEnd

theorem beforeEnd_append {xs : List Token} (notEnd : ∀ t ∈ xs, t.kind ≠ .endOfFile)
    (ys : List Token) : beforeEnd (xs ++ ys) = xs ++ beforeEnd ys :=
  List.takeWhile_append_of_pos fun t mem => bne_iff_ne.2 (notEnd t mem)

namespace Balance

/-- No piece of the tokens closes more than `n` brackets that were open in front of them. -/
def Covered (opening close : TokenKind) (n : Nat) (ts : List Token) : Prop :=
  ∀ p, p <+: ts → tally close p ≤ tally opening p + n

theorem covered_nil (n : Nat) : Covered opening close n [] := by
  intro p front
  rw [List.prefix_nil.1 front]
  exact Nat.zero_le _

theorem Covered.cons {n m : Nat} {t : Token} {ts : List Token} (h : Covered opening close m ts)
    (counts : tally close [t] + m ≤ tally opening [t] + n) : Covered opening close n (t :: ts) := by
  intro p front
  rcases List.prefix_cons_iff.1 front with rfl | ⟨q, rfl, front'⟩
  · exact Nat.zero_le _
  · have inside := h q front'
    rw [tally_cons close, tally_cons opening]
    omega

theorem Covered.tail {n m : Nat} {t : Token} {ts : List Token}
    (h : Covered opening close n (t :: ts))
    (counts : tally opening [t] + n = tally close [t] + m) : Covered opening close m ts := by
  intro p front
  have whole := h (t :: p) ((List.prefix_cons_inj t).2 front)
  rw [tally_cons close, tally_cons opening] at whole
  omega

inductive Finds (opening close : TokenKind) (n : Nat) (ts : List Token) : Balance → Prop
  | closed {inside : List Token} {bracket : Token} {rest : List Token}
    (split : ts = inside ++ bracket :: rest) (notEnd : ∀ t ∈ inside, t.kind ≠ .endOfFile)
    (closes : bracket.kind = close) (covered : Covered opening close n inside)
    (even : tally close inside = tally opening inside + n) :
    Finds opening close n ts (closed inside bracket rest)
  | unclosed {rest : List Token} (covered : Covered opening close n (beforeEnd ts)) :
    Finds opening close n ts (unclosed rest)

theorem Finds.cons {n m : Nat} {t : Token} {ts : List Token} {b : Balance}
    (h : Finds opening close m ts b) (notEnd : t.kind ≠ .endOfFile)
    (counts : tally close [t] + m = tally opening [t] + n) :
    Finds opening close n (t :: ts) (b.cons t) := by
  cases h with
  | closed split other closes covered even =>
    refine .closed (congrArg (t :: ·) split) ?_ closes (covered.cons counts.le) ?_
    · exact List.forall_mem_cons.2 ⟨notEnd, other⟩
    · rw [tally_cons close, tally_cons opening, even]
      omega
  | unclosed covered =>
    exact .unclosed (beforeEnd_cons notEnd ts ▸ covered.cons counts.le)

/-- The search follows the counter: with `n + 1` brackets open, it stops at the first token that closes
    one more than it was opened for. -/
theorem finds_find (differ : opening ≠ close) (n : Nat) (ts : List Token) :
    Finds opening close n ts (find opening close n ts) := by
  induction ts generalizing n with
  | nil => exact .unclosed (covered_nil n)
  | cons t ts ih =>
    rw [find.eq_def]
    dsimp only
    split
    · rename_i isEnd
      exact .unclosed (beforeEnd_cons_end isEnd ts ▸ covered_nil n)
    · rename_i notEnd
      split
      · rename_i opens
        have other : t.kind ≠ close := opens ▸ differ
        refine (ih (n + 1)).cons notEnd ?_
        rw [tally_self opens, tally_other other]
        omega
      · rename_i notOpening
        split
        · rename_i closes
          cases n with
          | zero => exact .closed rfl (List.forall_mem_nil _) closes (covered_nil 0) rfl
          | succ n =>
            refine (ih n).cons notEnd ?_
            rw [tally_self closes, tally_other notOpening]
            omega
        · rename_i notClosing
          refine (ih n).cons notEnd ?_
          rw [tally_other notOpening, tally_other notClosing]

/-- What the search finds is the only split of the kind. -/
theorem find_eq_closed (differ : opening ≠ close) (closes : close ≠ .endOfFile) (n : Nat)
    {inside : List Token} (notEnd : ∀ t ∈ inside, t.kind ≠ .endOfFile)
    (covered : Covered opening close n inside)
    (even : tally close inside = tally opening inside + n) {bracket : Token}
    (last : bracket.kind = close) (rest : List Token) :
    find opening close n (inside ++ bracket :: rest) = closed inside bracket rest := by
  induction inside generalizing n with
  | nil =>
    obtain rfl : n = 0 := by simpa [tally_nil, eq_comm] using even
    rw [List.nil_append, find.eq_def]
    dsimp only
    rw [if_neg (last ▸ closes), if_neg (last ▸ differ.symm), if_pos last]
  | cons t ts ih =>
    obtain ⟨tEnds, notEnd⟩ := List.forall_mem_cons.1 notEnd
    rw [tally_cons close, tally_cons opening] at even
    have behind (m : Nat) (counts : tally opening [t] + n = tally close [t] + m) :
        find opening close m (ts ++ bracket :: rest) = closed ts bracket rest :=
      ih m notEnd (covered.tail counts) (by omega)
    rw [List.cons_append, find.eq_def]
    dsimp only
    rw [if_neg tEnds]
    split
    · rename_i opens
      have other : t.kind ≠ close := opens ▸ differ
      rw [behind (n + 1)]
      · rfl
      · rw [tally_self opens, tally_other other]
        omega
    · rename_i notOpening
      split
      · rename_i closing
        have first := covered [t] ⟨ts, rfl⟩
        rw [tally_self closing, tally_other notOpening] at first
        obtain ⟨m, rfl⟩ : ∃ m, n = m + 1 := ⟨n - 1, by omega⟩
        dsimp only
        rw [behind m]
        · rfl
        · rw [tally_self closing, tally_other notOpening]
          omega
      · rename_i notClosing
        rw [behind n]
        · rfl
        · rw [tally_other notClosing, tally_other notOpening]

theorem find_balanced (differ : opening ≠ close) (closes : close ≠ .endOfFile) {inside : List Token}
    (notEnd : ∀ t ∈ inside, t.kind ≠ .endOfFile) (balanced : Balanced opening close inside)
    {bracket : Token} (last : bracket.kind = close) (rest : List Token) :
    find opening close 0 (inside ++ bracket :: rest) = closed inside bracket rest :=
  find_eq_closed differ closes 0 notEnd balanced.covered balanced.even last rest

theorem Covered.lt {first : Token} {ts : List Token} (h : Covered opening close 0 ts)
    (opens : first.kind = opening) (differ : opening ≠ close) {p : List Token} (front : p <+: ts) :
    tally close (first :: p) < tally opening (first :: p) := by
  have inside := h p front
  have other : first.kind ≠ close := opens ▸ differ
  rw [tally_cons close, tally_cons opening, tally_self opens, tally_other other]
  omega

end Balance

theorem Evens.cons {first : Token} {ts piece : List Token}
    (h : Evens opening close (first :: ts) piece) :
    ∃ p, piece = first :: p ∧ p <+: beforeEnd ts := by
  have front := h.front
  by_cases isEnd : first.kind = .endOfFile
  · rw [beforeEnd_cons_end isEnd] at front
    exact absurd (List.prefix_nil.1 front) h.nonempty
  · rw [beforeEnd_cons isEnd] at front
    exact (List.prefix_cons_iff.1 front).resolve_left h.nonempty

namespace Cursor

inductive Cuts (opening close : TokenKind) (c : Cursor) : Except SyntaxError Cursor × Cursor → Prop
  | other (e : SyntaxError) (front : c.peek ≠ some opening) : Cuts opening close c (.error e, c)
  | open (e : SyntaxError) {first : Token} {ts rest : List Token} (front : c.tokens = first :: ts)
    (opens : first.kind = opening) (covered : Balance.Covered opening close 0 (beforeEnd ts)) :
    Cuts opening close c (.error e, { c with tokens := rest })
  | closed {first bracket : Token} {inside rest : List Token}
    (front : c.tokens = first :: (inside ++ bracket :: rest)) (opens : first.kind = opening)
    (closes : bracket.kind = close) (notEnd : ∀ t ∈ inside, t.kind ≠ .endOfFile)
    (balanced : Balanced opening close inside) :
    Cuts opening close c
      (.ok ⟨first :: inside ++ [bracket], c.file, first.line⟩, { c with tokens := rest })

theorem cuts_cutBracketed (differ : opening ≠ close) (c : Cursor) :
    Cuts opening close c (c.cutBracketed opening close) := by
  unfold cutBracketed
  split
  · rename_i empty
    refine .other _ ?_
    rw [peek, front?, empty]
    nofun
  · rename_i first ts front
    split
    · rename_i opens
      have found := Balance.finds_find differ 0 ts
      split <;> rename_i h <;> rw [h] at found
      · cases found with
        | closed split notEnd closes covered even =>
          exact .closed (split ▸ front) opens closes notEnd ⟨covered, even⟩
      · cases found with
        | unclosed covered => exact .open _ front opens covered
    · rename_i other
      refine .other _ ?_
      rw [peek, front?, front]
      exact fun same => other (Option.some.inj same)

/-- The cut is an even piece, and a shorter one does not exist. -/
theorem evens_cut (differ : opening ≠ close) (opens : opening ≠ .endOfFile)
    (closes : close ≠ .endOfFile) {first bracket : Token} {inside : List Token}
    (first_opens : first.kind = opening) (last : bracket.kind = close)
    (notEnd : ∀ t ∈ inside, t.kind ≠ .endOfFile) (balanced : Balanced opening close inside)
    (rest : List Token) :
    let ts := first :: (inside ++ bracket :: rest)
    Evens opening close ts (first :: inside ++ [bracket]) ∧
      ∀ p, Evens opening close ts p → (first :: inside ++ [bracket]).length ≤ p.length := by
  have front : beforeEnd (first :: (inside ++ bracket :: rest)) =
      first :: (inside ++ bracket :: beforeEnd rest) := by
    rw [beforeEnd_cons (first_opens ▸ opens), beforeEnd_append notEnd, beforeEnd_cons (last ▸ closes)]
  refine ⟨⟨List.cons_ne_nil _ _, ⟨beforeEnd rest, by simp [front]⟩, ?_⟩, fun piece even => ?_⟩
  · have other : first.kind ≠ close := first_opens ▸ differ
    have other' : bracket.kind ≠ opening := last ▸ differ.symm
    rw [tally_append, tally_append, tally_cons close, tally_cons opening, tally_self first_opens,
      tally_self last, tally_other other, tally_other other', balanced.even]
    omega
  · by_contra shorter
    obtain ⟨p, rfl, inFile⟩ := even.cons
    rw [beforeEnd_append notEnd] at inFile
    have inner : p <+: inside := by
      refine List.prefix_of_prefix_length_le inFile (List.prefix_append _ _) ?_
      simp only [List.length_append, List.length_cons, List.length_nil] at shorter
      omega
    have covered : Balance.Covered opening close 0 inside := balanced.covered
    exact Nat.ne_of_lt (covered.lt first_opens differ inner) even.even

/-- The piece `p` from the front of the tokens is no longer than an even one, so the counter runs over
    all of it. -/
def Counted (opening close : TokenKind) (ts p : List Token) : Prop :=
  p <+: beforeEnd ts ∧ ∀ q, Evens opening close ts q → p.length ≤ q.length

/-- Cutting brackets out finds the shortest even piece. -/
structure CutsShortest (opening close : TokenKind) (c : Cursor) : Prop where
  /-- It succeeds where an opening bracket is in front and there is an even piece. -/
  succeeds : (∃ cut, (c.cutBracketed opening close).1 = .ok cut) ↔
    c.peek = some opening ∧ ∃ p, Evens opening close c.tokens p
  even : ∀ cut, (c.cutBracketed opening close).1 = .ok cut →
    Evens opening close c.tokens cut.tokens
  shortest : ∀ cut, (c.cutBracketed opening close).1 = .ok cut →
    ∀ p, Evens opening close c.tokens p → cut.tokens.length ≤ p.length
  /-- No token is lost. -/
  split : ∀ cut, (c.cutBracketed opening close).1 = .ok cut →
    cut.tokens ++ (c.cutBracketed opening close).2.tokens = c.tokens
  /-- What is between the outermost brackets is balanced. -/
  inside : ∀ cut, (c.cutBracketed opening close).1 = .ok cut →
    Balanced opening close cut.dropBrackets.tokens
  /-- The counter never goes below zero, whether the cut succeeds or not. -/
  counter : c.peek = some opening →
    ∀ p, Counted opening close c.tokens p → 0 ≤ depth opening close p
  unchanged : c.peek ≠ some opening → (c.cutBracketed opening close).2 = c

theorem peek_cons {c : Cursor} {first : Token} {ts : List Token} (front : c.tokens = first :: ts) :
    c.peek = some first.kind := by
  rw [peek, front?, front]
  rfl

theorem counter_nonneg (differ : opening ≠ close) (opens : opening ≠ .endOfFile)
    (closes : close ≠ .endOfFile) {c : Cursor} {r : Except SyntaxError Cursor × Cursor}
    (cuts : Cuts opening close c r) (front : c.peek = some opening) {p : List Token}
    (counted : Counted opening close c.tokens p) : 0 ≤ depth opening close p := by
  obtain ⟨inFile, running⟩ := counted
  rw [depth_eq differ]
  by_cases even : tally close p = tally opening p
  · omega
  · have nonempty : p ≠ [] := fun empty => even (empty ▸ rfl)
    cases cuts with
    | other e other => exact absurd front other
    | @«open» e first ts rest tokens first_opens covered =>
      rw [tokens, beforeEnd_cons (first_opens ▸ opens)] at inFile
      obtain ⟨q, rfl, inner⟩ := (List.prefix_cons_iff.1 inFile).resolve_left nonempty
      have := covered.lt first_opens differ inner
      omega
    | @closed first bracket inside rest tokens first_opens last notEnd balanced =>
      rw [tokens] at inFile running
      have cut := (evens_cut differ opens closes first_opens last notEnd balanced rest).1
      have le := running _ cut
      have within : p <+: first :: inside ++ [bracket] :=
        List.prefix_of_prefix_length_le inFile cut.front le
      rw [List.cons_append] at within
      obtain ⟨q, rfl, inner⟩ := (List.prefix_cons_iff.1 within).resolve_left nonempty
      rcases List.prefix_concat_iff.1 inner with rfl | inner
      · exact absurd cut.even even
      · have covered : Balance.Covered opening close 0 inside := balanced.covered
        have := covered.lt first_opens differ inner
        omega

/-- Brackets of two kinds are cut out of any tokens, with brackets of other kinds among them or not. -/
theorem cutBracketed_shortest (differ : opening ≠ close) (opens : opening ≠ .endOfFile)
    (closes : close ≠ .endOfFile) (c : Cursor) : CutsShortest opening close c := by
  have cuts := cuts_cutBracketed differ c
  have counter : c.peek = some opening →
      ∀ p, Counted opening close c.tokens p → 0 ≤ depth opening close p :=
    fun front p => counter_nonneg differ opens closes cuts front
  generalize h : c.cutBracketed opening close = r at cuts
  cases cuts with
  | other e front =>
    refine ⟨?_, ?_, ?_, ?_, ?_, counter, ?_⟩ <;> rw [h]
    · exact iff_of_false nofun fun ⟨same, _⟩ => front same
    · exact nofun
    · exact nofun
    · exact nofun
    · exact nofun
    · exact fun _ => rfl
  | @«open» e first ts rest front first_opens covered =>
    refine ⟨?_, ?_, ?_, ?_, ?_, counter, ?_⟩ <;> rw [h]
    · refine iff_of_false nofun fun ⟨_, piece, even⟩ => ?_
      rw [front] at even
      obtain ⟨p, rfl, inFile⟩ := even.cons
      exact absurd even.even (Nat.ne_of_lt (covered.lt first_opens differ inFile))
    · exact nofun
    · exact nofun
    · exact nofun
    · exact nofun
    · exact fun other => absurd (first_opens ▸ peek_cons front) other
  | @closed first bracket inside rest front first_opens last notEnd balanced =>
    have cut := evens_cut differ opens closes first_opens last notEnd balanced rest
    rw [← front] at cut
    have same : c.peek = some opening := first_opens ▸ peek_cons front
    refine ⟨?_, ?_, ?_, ?_, ?_, counter, ?_⟩ <;> rw [h]
    · exact ⟨fun _ => ⟨same, _, cut.1⟩, fun _ => ⟨_, rfl⟩⟩
    · rintro _ ⟨⟩
      exact cut.1
    · rintro _ ⟨⟩
      exact cut.2
    · rintro _ ⟨⟩
      simp [front]
    · rintro _ ⟨⟩
      simpa [dropBrackets, advance] using balanced
    · exact fun other => absurd same other

/-- Brackets of other kinds are passed over, also where they do not match. -/
theorem cutBracketed_shortest_mixed :
    let c : Cursor := .ofTokens "a.kv" (Lexed.ofText "a.kv" "(a [(b)\x7d ; ) (c").tokens
    (c.cutBracketed .parenOpen .parenClose).1.toOption.map (fun cut => cut.tokens.map Token.text) =
        some ["(", "a", "[", "(", "b", ")", "\x7d", ";", ")"] ∧
      (c.cutBracketed .parenOpen .parenClose).2.tokens.map Token.text = ["(", "c", "a.kv"] ∧
      TokenKind.parenOpen ≠ .parenClose ∧ TokenKind.parenOpen ≠ .endOfFile ∧
      TokenKind.parenClose ≠ .endOfFile ∧ CutsShortest .parenOpen .parenClose c := by
  intro c
  exact ⟨by decide +kernel, by decide +kernel, by decide, by decide, by decide,
    cutBracketed_shortest (by decide) (by decide) (by decide) c⟩

end Cursor

end ObjectLang
