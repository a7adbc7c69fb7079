import ObjectLang.Proofs.Grammar.Taking
set_option autoImplicit false

/-!
# Reading comes to an end

Three loops read as long as something is left: over the items of a file, over statements and over the
fields of a type. Each round of them takes a token from the innermost cursor, whether what it reads is
right, broken or skipped, so each loop ends after at most as many rounds as tokens were left. When a
file has been read, no bracket is open and nothing is left in front of the token that closes the
file.
-/

namespace ObjectLang.Grammar

/-- A call of a function of the grammar comes from `s` to `t`. The token that a function expects to be
    taken is taken here. -/
inductive Call (earlier : List Module) : State → State → Prop
  | next (s : State) : Call earlier s s.next.state
  | expect (s : State) (kind : TokenKind) : Call earlier s (s.expect kind).state
  | accept (s : State) (kind : TokenKind) : Call earlier s (s.accept kind).state
  | semicolon (s : State) (construct : String) : Call earlier s (s.semicolon construct).state
  | recover (s : State) : Call earlier s s.recover
  | plainTypeName (s : State) : Call earlier s (plainTypeName s).state
  | skipAmpersands (line : Nat) (s : State) : Call earlier s (skipAmpersands line s).state
  | typeName (s : State) : Call earlier s (typeName s).state
  | noneLeft (s : State) : Call earlier s (noneLeft s).state
  | arrayOfItems (line : Nat) (items : List Expr) (s : State) :
      Call earlier s (arrayOfItems line items s).state
  | listOfItems (line : Nat) (items : List Expr) (s : State) :
      Call earlier s (listOfItems line items s).state
  | expression (s : State) : Call earlier s (expression s).state
  | operand (s : State) : Call earlier s (operand s).state
  | primary (s : State) : Call earlier s (primary s).state
  | suffixes (casts : Bool) (e : Expr) (s : State) : Call earlier s (suffixes casts e s).state
  | whole (s : State) : Call earlier s (whole s).state
  | separated (s : State) : Call earlier s (separated s).state
  | rejected (s : State) : Call earlier s (rejected s).state
  | invalidStatement {s : State} {k : Taken s} (h : s.take? = some k) :
      Call earlier s (invalidStatement k).state
  | assignmentRest (declares : Bool) (target : Expr) (s : State) :
      Call earlier s (assignmentRest declares target s).state
  | assignmentOrCall (name : Token) (s : State) : Call earlier s (assignmentOrCall name s).state
  | condition (s : State) : Call earlier s (condition s).state
  | loopStep (s : State) : Call earlier s (loopStep s).state
  | statement (s : State) : Call earlier s (statement s).state
  | statementAt {s : State} {k : Taken s} (h : s.take? = some k) :
      Call earlier s (statementAt k).state
  | statements (s : State) : Call earlier s (statements s).state
  | block (s : State) : Call earlier s (block s).state
  | fieldAt (owner : TypeId) (ownerName : String) {s : State} {k : Taken s}
      (h : s.take? = some k) : Call earlier s (fieldAt owner ownerName k).state
  | fields (owner : TypeId) (ownerName : String) (s : State) :
      Call earlier s (fields owner ownerName s).state
  | parentType (s : State) : Call earlier s (parentType s).state
  | typeDeclaration (s : State) : Call earlier s (typeDeclaration s).state
  | useDeclaration (s : State) : Call earlier s (useDeclaration earlier s).state
  | parameters (s : State) : Call earlier s (parameters s).state
  | traitNames (s : State) : Call earlier s (traitNames s).state
  | optionalTraits (s : State) : Call earlier s (optionalTraits s).state
  | returnType (s : State) : Call earlier s (returnType s).state
  | body (native : Bool) (s : State) : Call earlier s (body native s).state
  | functionName (s : State) : Call earlier s (functionName s).state
  | functionDeclaration (line : Nat) (s : State) :
      Call earlier s (functionDeclaration line s).state
  | markerAt {s : State} {k : Taken s} (h : s.take? = some k) : Call earlier s (markerAt k).state
  | skipImport {s : State} {k : Taken s} (h : s.take? = some k) : Call earlier s (skipImport k)
  | skipToDeclaration (s : State) : Call earlier s s.skipToDeclaration
  | items (s : State) : Call earlier s (items earlier s).2

/-- What a round of a loop comes to: nothing, since the loop is over before it; an end in the middle
    of it; or the next round. -/
inductive Round
  | ended
  | leave (t : State)
  | next (t : State)

/-- Where a loop ends that begins with this round from `s`, if the rounds behind it end at `rest`. -/
def Round.finish (s : State) (rest : State → State) : Round → State
  | ended => s
  | leave t => t
  | next t => rest t

/-- A loop comes from `s` to `t` and ends there, in `n` rounds. -/
inductive Loop (round : State → Round) : Nat → State → State → Prop
  | ended {s : State} (h : round s = .ended) : Loop round 0 s s
  | leave {s t : State} (h : round s = .leave t) : Loop round 1 s t
  | next {n : Nat} {s t u : State} (h : round s = .next t) (rest : Loop round n t u) :
      Loop round (n + 1) s u

/-- Every round takes at least one token from the innermost cursor, and from no other. -/
def Shortens (round : State → Round) : Prop :=
  ∀ s t, round s = .leave t ∨ round s = .next t → Takes s t ∧ t.size < s.size

/-- The function does what the loop does: every round takes a token, and there are only as many rounds
    as tokens. -/
structure Advances (round : State → Round) (loop : State → State) : Prop where
  shortens : Shortens round
  ends : ∀ s, ∃ n ≤ s.size, Loop round n s (loop s)

/-- A loop that goes on from its own rounds ends, since each of them takes a token. -/
theorem Advances.of_rounds {round : State → Round} {loop : State → State}
    (shortens : Shortens round) (unfold : ∀ s, loop s = (round s).finish s loop) :
    Advances round loop := by
  refine ⟨shortens, fun s => ?_⟩
  induction hn : s.size using Nat.strongRecOn generalizing s with
  | _ size ih =>
    subst hn
    rw [unfold s]
    cases h : round s with
    | ended => exact ⟨0, Nat.zero_le _, .ended h⟩
    | leave t => exact ⟨1, Nat.one_le_of_lt (shortens s t (.inl h)).2, .leave h⟩
    | next t =>
      obtain ⟨-, less⟩ := shortens s t (.inr h)
      obtain ⟨n, le, rest⟩ := ih t.size less t rfl
      exact ⟨n + 1, Nat.succ_le_of_lt (Nat.lt_of_le_of_lt le less), .next h rest⟩

theorem Loop.moves {round : State → Round}
    (rounds : ∀ s t, round s = .leave t ∨ round s = .next t → Moves s t) {n : Nat} {s t : State}
    (h : Loop round n s t) : Moves s t := by
  induction h with
  | ended h => exact .refl _
  | leave h => exact rounds _ _ (.inl h)
  | next h rest ih => exact (rounds _ _ (.inr h)).trans ih

/-- Reads one statement of many. A broken one is skipped, but nothing is behind the last token. -/
def statementRound (s : State) : Round :=
  match s.take? with
  | none => .ended
  | some k =>
    if k.token.kind = .endOfFile then .ended
    else
      match statementAt k with
      | .ok _ t _ => .next t
      | .error e t _ =>
        if e.isEndOfTokens then .leave (t.record e)
        else if e.hasRecovered then .next (t.record e)
        else .next (t.record e).recover

/-- Reads one declaration or statement of a file. Behind a broken declaration the next one is
    looked for. -/
def itemRound (earlier : List Module) (s : State) : Round :=
  match s.take? with
  | none => .ended
  | some k =>
    if k.token.kind = .endOfFile then .ended
    else
      match declarationAt? earlier k with
      | some (.ok () t _) => .next t
      | some (.error e t _) => .next (t.record e).skipToDeclaration
      | none =>
        match statementAt k with
        | .ok _ t _ => .next t
        | .error e t _ =>
          if e.hasRecovered then .next (t.record e) else .next (t.record e).recover

theorem moves_itemRound (earlier : List Module) (s t : State)
    (h : itemRound earlier s = .leave t ∨ itemRound earlier s = .next t) :
    Moves s t ∧ t.size < s.size := by
  unfold itemRound at h
  split at h
  · simp at h
  · rename_i k hk
    split at h
    · simp at h
    · split at h
      · rename_i u le hat
        obtain rfl : u = t := by simpa using h
        exact ⟨moves_declarationAt hk hat, k.lt_of_le le⟩
      · rename_i e u le hat
        have read : Moves s u := moves_declarationAt hk hat
        have size_record : (u.record e).size < s.size := State.size_record_lt k e le
        have size_skip := (u.record e).size_skipToDeclaration_le
        obtain rfl : (u.record e).skipToDeclaration = t := by simpa using h
        exact ⟨(read.trans (.record u e)).trans (.skipToDeclaration _),
          Nat.lt_of_le_of_lt size_skip size_record⟩
      · have read := steady_moves.statementAt hk
        split at h
        · rename_i statement u le he
          rw [he] at read
          obtain rfl : u = t := by simpa using h
          exact ⟨read, k.lt_of_le le⟩
        · rename_i e u le he
          rw [he] at read
          have recorded : Moves s (u.record e) := read.trans (.record u e)
          split at h
          · obtain rfl : u.record e = t := by simpa using h
            exact ⟨recorded, State.size_record_lt k e le⟩
          · obtain rfl : (u.record e).recover = t := by simpa using h
            exact ⟨recorded.trans (.recover _), State.size_recover_lt k e le⟩

theorem shortens_itemRound (earlier : List Module) : Shortens (itemRound earlier) :=
  fun s t h => ⟨(moves_itemRound earlier s t h).1.takes, (moves_itemRound earlier s t h).2⟩

theorem items_eq_finish (earlier : List Module) (s : State) :
    (items earlier s).2 = (itemRound earlier s).finish s fun t => (items earlier t).2 := by
  rw [items, itemRound]
  cases s.take? with
  | none => rfl
  | some k =>
    by_cases hend : k.token.kind = .endOfFile
    · simp only [if_pos hend]
      rfl
    · simp only [if_neg hend]
      cases declarationAt? earlier k with
      | some read => cases read <;> rfl
      | none =>
        cases statementAt k with
        | ok statement t le => rfl
        | error e t le =>
          by_cases hskipped : e.hasRecovered = true
          · simp only [if_pos hskipped, Round.finish]
          · simp only [if_neg hskipped, Round.finish]

theorem advances_items (earlier : List Module) :
    Advances (itemRound earlier) fun s => (items earlier s).2 :=
  .of_rounds (shortens_itemRound earlier) (items_eq_finish earlier)

theorem moves_items (earlier : List Module) (s : State) : Moves s (items earlier s).2 := by
  obtain ⟨n, -, run⟩ := (advances_items earlier).ends s
  exact run.moves fun s t h => (moves_itemRound earlier s t h).1

/-- Whatever is called moves the innermost cursor only. -/
theorem Call.moves {earlier : List Module} {s t : State} (h : Call earlier s t) : Moves s t := by
  cases h with
  | next => exact steady_moves.next s
  | expect => exact steady_moves.expect s _
  | accept => exact steady_moves.accept s _
  | semicolon => exact steady_moves.semicolon s _
  | recover => exact .recover s
  | plainTypeName => exact steady_moves.plainTypeName s
  | skipAmpersands => exact steady_moves.skipAmpersands _ s
  | typeName => exact steady_moves.typeName s
  | noneLeft => exact steady_moves.noneLeft s
  | arrayOfItems => exact steady_moves.arrayOfItems _ _ s
  | listOfItems => exact steady_moves.listOfItems _ _ s
  | expression => exact steady_moves.expression s
  | operand => exact steady_moves.operand s
  | primary => exact steady_moves.primary s
  | suffixes => exact steady_moves.suffixes _ _ s
  | whole => exact steady_moves.whole s
  | separated => exact steady_moves.separated s
  | rejected => exact steady_moves.rejected s
  | invalidStatement h => exact (moves_of_take? h).trans (steady_moves.invalidStatement _)
  | assignmentRest => exact steady_moves.assignmentRest _ _ s
  | assignmentOrCall => exact steady_moves.assignmentOrCall _ s
  | condition => exact steady_moves.condition s
  | loopStep => exact steady_moves.loopStep s
  | statement => exact steady_moves.statement s
  | statementAt h => exact steady_moves.statementAt h
  | statements => exact steady_moves.statements s
  | block => exact steady_moves.block s
  | fieldAt owner ownerName h => exact (moves_of_take? h).trans (moves_fieldAt owner ownerName _)
  | fields => exact moves_fields _ _ s
  | parentType => exact moves_parentType s
  | typeDeclaration => exact moves_typeDeclaration s
  | useDeclaration => exact moves_useDeclaration earlier s
  | parameters => exact steady_moves.parameters s
  | traitNames => exact steady_moves.traitNames s
  | optionalTraits => exact steady_moves.optionalTraits s
  | returnType => exact steady_moves.returnType s
  | body => exact steady_moves.body _ s
  | functionName => exact steady_moves.functionName s
  | functionDeclaration => exact moves_functionDeclaration _ s
  | markerAt h => exact (moves_of_take? h).trans (moves_markerAt _)
  | skipImport h => exact (moves_of_take? h).trans (moves_skipImport _)
  | skipToDeclaration => exact .skipToDeclaration s
  | items => exact moves_items earlier s

theorem Call.takes {earlier : List Module} {s t : State} (h : Call earlier s t) : Takes s t :=
  h.moves.takes

end ObjectLang.Grammar
