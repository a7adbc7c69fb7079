import ObjectLang.Grammar.Declaration
set_option autoImplicit false

/-!
# Relations that reading keeps

What the grammar reads inside a declaration is composed of single tokens, brackets, type names and
the types of lists and arrays. A relation between the state in front of reading and the state behind
it that holds along each of these, and from one step to the next, holds along all of it, whether
reading ends with a value or with an error. There is one lemma for each function of the grammar.
-/

namespace ObjectLang.Grammar

namespace Step

variable {R : State → State → Prop} {s : State} {α β : Type} {n m : Nat}

theorem rel_widen {x : Step α n} (h : R s x.state) (le : n ≤ m) : R s (x.widen le).state :=
  (state_widen le x).symm ▸ h

theorem rel_map {x : Step α n} (h : R s x.state) (f : α → β) : R s (x.map f).state := by
  cases x <;> exact h

theorem rel_mapError {x : Step α n} (h : R s x.state) (f : SyntaxError → SyntaxError) :
    R s (x.mapError f).state := by
  cases x <;> exact h

theorem rel_ite {c : Prop} [Decidable c] {x y : Step α n} (hx : R s x.state) (hy : R s y.state) :
    R s (if c then x else y).state := by
  split
  · exact hx
  · exact hy

end Step

/-- A relation between states that holds along single tokens and along brackets, whatever is
    logged. -/
structure Tokenwise (R : State → State → Prop) : Prop where
  refl : ∀ s, R s s
  trans : ∀ {s t u}, R s t → R t u → R s u
  logs : ∀ s diagnostics, R s { s with diagnostics }
  take : ∀ {s} {k : Taken s}, s.take? = some k → R s k.behind
  accept : ∀ s kind, R s (s.accept kind).state
  recover : ∀ s : State, R s s.recover
  /-- It holds in front of brackets and behind them if it holds along what is read inside. -/
  inside : ∀ {α : Type} {s} (k : Taken s) closing
    {read : (t : State) → t.size ≤ k.behind.size → Step α t.size},
    (∀ t le, R t (read t le).state) → R s (k.inside closing read).state

/-- It also holds along the making of types. -/
structure Steady (R : State → State → Prop) : Prop extends Tokenwise R where
  typeName : ∀ s, R s (typeName s).state
  arrayOf : ∀ s element, R s (s.arrayOf element).2
  listOf : ∀ s (value : Literal), R s (s.listOf value.type).2

namespace Tokenwise

variable {R : State → State → Prop} (hR : Tokenwise R) {s : State} {α β : Type} {n : Nat}
include hR

theorem record (s : State) (e : SyntaxError) : R s (s.record e) := hR.logs s _

theorem ofExcept (result : Except SyntaxError α) (s : State) :
    R s (Step.ofExcept result s).state := by
  cases result <;> exact hR.refl s

theorem andThen {x : Step α n} (h : R s x.state)
    {f : α → (t : State) → t.size ≤ n → Step β t.size}
    (hf : ∀ v t le, R t (f v t le).state) : R s (x.andThen f).state := by
  cases x with
  | ok v t le =>
    rw [Step.andThen, Step.state_widen]
    exact hR.trans h (hf v t le)
  | error e t le => exact h

theorem next (s : State) : R s s.next.state := by
  unfold State.next
  split
  · exact hR.refl s
  · rename_i k hk
    exact Step.rel_widen (hR.take hk) _

theorem expect (s : State) (kind : TokenKind) : R s (s.expect kind).state :=
  hR.andThen (hR.next s) fun _ t _ => hR.ofExcept _ t

theorem semicolon (s : State) (construct : String) : R s (s.semicolon construct).state := by
  refine hR.andThen (hR.accept s .semicolon) fun found t _ => ?_
  split
  · exact hR.refl t
  · exact hR.record t _

theorem bracketed (s : State) (opening closing : TokenKind)
    {read : (t : State) → t.size < s.size → Step α t.size}
    (h : ∀ t lt, R t (read t lt).state) : R s (s.bracketed opening closing read).state := by
  unfold State.bracketed
  split
  · exact hR.refl s
  · rename_i k hk
    split
    · exact Step.rel_widen (hR.inside k closing fun t le => h t _) _
    · exact hR.refl s

theorem plainTypeName (s : State) : R s (plainTypeName s).state := by
  refine hR.andThen (hR.expect s .identifier) fun name t _ => ?_
  split
  · exact hR.refl t
  · exact hR.refl t

theorem skipAmpersands (line : Nat) (s : State) : R s (skipAmpersands line s).state := by
  rw [Grammar.skipAmpersands]
  split
  · exact hR.refl s
  · rename_i k hk
    have lt := k.lt
    split
    · have warned : R k.behind { k.behind with
          diagnostics := k.behind.diagnostics.warnAt line "multiple references" } :=
        hR.logs _ _
      exact Step.rel_widen (hR.trans (hR.trans (hR.take hk) warned) (skipAmpersands line _)) _
    · exact hR.refl s
termination_by s.size

theorem noneLeft (s : State) : R s (noneLeft s).state := by
  unfold Grammar.noneLeft
  split
  · exact hR.refl s
  · rename_i k hk
    exact hR.take hk

theorem rejected (s : State) : R s (rejected s).state := by
  rw [Grammar.rejected]
  split
  · exact hR.refl s
  · rename_i k hk
    have lt := k.lt
    have front := hR.take hk
    split
    · exact hR.refl s
    · split
      · exact Step.rel_widen front _
      · exact Step.rel_widen (Step.rel_map (hR.trans front (rejected k.behind)) _) _
termination_by s.size

theorem invalidStatement {s : State} (k : Taken s) : R k.behind (invalidStatement k).state := by
  have skipped := hR.rejected k.behind
  unfold Grammar.invalidStatement
  dsimp only
  split
  · exact hR.refl _
  · split
    · rename_i texts t le he
      rw [he] at skipped
      exact skipped
    · rename_i e t le he
      rw [he] at skipped
      exact skipped

theorem commaOrEnd (s : State) (atEnd : α)
    {more : (t : State) → t.size < s.size → Step α t.size}
    (hmore : ∀ t lt, R t (more t lt).state) : R s (commaOrEnd s atEnd more).state := by
  unfold Grammar.commaOrEnd
  split
  · exact hR.refl s
  · rename_i k hk
    have read := hR.trans (hR.take hk) (hR.ofExcept (Cursor.demand .comma k.token) k.behind)
    exact Step.rel_widen (hR.andThen read fun _ t le => hmore t _) _

theorem functionName (s : State) : R s (functionName s).state := by
  refine hR.andThen (hR.expect s .identifier) fun name t _ => ?_
  refine hR.andThen (hR.accept t .dot) fun dotted u _ => ?_
  split
  · refine hR.andThen (hR.expect u .identifier) fun method v _ => ?_
    split
    · exact hR.refl v
    · exact hR.refl v
  · exact hR.refl u

end Tokenwise

namespace Steady

variable {R : State → State → Prop} (hR : Steady R)
include hR

theorem arrayOfItems (line : Nat) (items : List Expr) (s : State) :
    R s (arrayOfItems line items s).state := by
  have kept : R s (keepLiterals items s).state := hR.logs s _
  refine hR.andThen kept fun literals t _ => ?_
  split
  · exact hR.refl t
  · exact hR.arrayOf t _

theorem listOfItems (line : Nat) (items : List Expr) (s : State) :
    R s (listOfItems line items s).state := by
  have kept : R s (keepLiterals items s).state := hR.logs s _
  refine hR.andThen kept fun literals t _ => ?_
  split
  · exact hR.refl t
  · rename_i element typed
    unfold elementType? at typed
    split at typed
    · cases typed
      exact hR.listOf t _
    · cases typed

mutual

theorem expression (s : State) : R s (expression s).state := by
  rw [Grammar.expression]
  refine hR.andThen (operand s) fun lhs t _ => ?_
  split
  · exact hR.refl t
  · rename_i k hk
    have lt := k.lt
    split
    · exact hR.refl t
    · exact Step.rel_widen (Step.rel_map (hR.trans (hR.take hk) (expression k.behind)) _) _
termination_by 8 * s.size + 3

theorem operand (s : State) : R s (operand s).state := by
  rw [Grammar.operand]
  exact hR.andThen (primary s) fun e t _ => suffixes true e t
termination_by 8 * s.size + 2

theorem primary (s : State) : R s (primary s).state := by
  rw [Grammar.primary]
  split
  · exact hR.refl s
  · rename_i k hk
    have lt := k.lt
    have front := hR.take hk
    have literalAt : R s ((Step.ofExcept ((literal k.token).map fun value =>
        Expr.literal value k.token.line) k.behind).widen k.le).state :=
      Step.rel_widen (hR.trans front (hR.ofExcept _ k.behind)) _
    split
    · exact literalAt
    · exact literalAt
    · exact literalAt
    · exact literalAt
    · exact Step.rel_widen front _
    · exact Step.rel_widen front _
    · refine Step.rel_widen (hR.andThen (Step.rel_mapError ?_ _) fun items t _ => ?_) _
      · exact hR.inside k _ fun t _ => separated t
      · exact hR.listOfItems _ items t
    · refine Step.rel_widen (hR.andThen (Step.rel_mapError ?_ _) fun items t _ => ?_) _
      · exact hR.inside k _ fun t _ => separated t
      · exact hR.arrayOfItems _ items t
    · exact Step.rel_widen (Step.rel_map (hR.trans front (expression k.behind)) _) _
    · exact Step.rel_widen (Step.rel_mapError (hR.inside k _ fun t _ => whole t) _) _
    · exact Step.rel_widen (Step.rel_map (hR.trans front (operand k.behind)) _) _
    · exact hR.refl s
    · exact hR.refl s
    · split
      · exact front
      · exact front
termination_by 8 * s.size + 1

theorem suffixes (casts : Bool) (e : Expr) (s : State) : R s (suffixes casts e s).state := by
  rw [Grammar.suffixes]
  split
  · exact hR.refl s
  · rename_i k hk
    have lt := k.lt
    have front := hR.take hk
    split
    · refine Step.rel_widen (hR.andThen (hR.trans front (hR.expect k.behind _)) fun name t _ => ?_) _
      exact suffixes casts _ t
    · split
      · refine Step.rel_widen (hR.andThen (Step.rel_mapError ?_ _) fun arguments t _ => ?_) _
        · exact hR.inside k _ fun t _ => separated t
        · exact suffixes casts _ t
      · exact hR.refl s
    · refine Step.rel_widen (hR.andThen (Step.rel_mapError ?_ _) fun index t _ => ?_) _
      · exact hR.inside k _ fun t _ => whole t
      · exact suffixes casts _ t
    · split
      · refine Step.rel_widen
          (hR.andThen (hR.trans front (hR.typeName k.behind)) fun type t _ => ?_) _
        split
        · exact hR.refl t
        · exact suffixes casts _ t
      · exact hR.refl s
    · exact hR.refl s
termination_by 8 * s.size

theorem whole (s : State) : R s (whole s).state := by
  rw [Grammar.whole]
  exact hR.andThen (expression s) fun e t _ => Step.rel_map (hR.noneLeft t) _
termination_by 8 * s.size + 4

theorem separated (s : State) : R s (separated s).state := by
  rw [Grammar.separated]
  split
  · exact hR.refl s
  · refine hR.andThen (expression s) fun e t le => ?_
    split
    · exact hR.refl t
    · rename_i k hk
      have lt := k.lt
      split
      · exact Step.rel_widen (Step.rel_map (hR.trans (hR.take hk) (separated k.behind)) _) _
      · exact hR.take hk
termination_by 8 * s.size + 4

end

theorem assignmentRest (declares : Bool) (target : Expr) (s : State) :
    R s (assignmentRest declares target s).state := by
  refine hR.andThen (hR.accept s .colon) fun typed t _ => ?_
  have written : R t (if typed then (Grammar.typeName t).map some else Step.pure none t).state := by
    split
    · exact Step.rel_map (hR.typeName t) some
    · exact hR.refl t
  refine hR.andThen written fun written u _ => ?_
  refine hR.andThen (hR.expect u .equals) fun _ v _ => ?_
  exact Step.rel_map (hR.expression v) _

theorem assignmentOrCall (name : Token) (s : State) : R s (assignmentOrCall name s).state := by
  refine hR.andThen (hR.suffixes false _ s) fun target t _ => ?_
  split
  · split
    · refine hR.andThen (hR.assignmentRest false target t) fun _ u _ => ?_
      exact Step.rel_map (hR.semicolon u _) _
    · exact hR.refl t
  · split
    · exact Step.rel_map (hR.semicolon t _) _
    · exact hR.refl t

theorem condition (s : State) : R s (condition s).state :=
  hR.andThen (hR.expression s) fun _ t _ => Step.rel_map (hR.expect t .colon) _

theorem loopStep (s : State) : R s (loopStep s).state := by
  refine hR.andThen (hR.expect s .identifier) fun name t _ => ?_
  refine hR.andThen (hR.suffixes false _ t) fun target u _ => ?_
  split
  · refine hR.andThen (hR.assignmentRest false target u) fun _ v _ => ?_
    exact Step.rel_map (hR.expect v .colon) _
  · exact hR.refl u

mutual

theorem statements (s : State) : R s (statements s).state := by
  rw [Grammar.statements]
  split
  · exact hR.refl s
  · rename_i k hk
    have lt := k.lt
    have read := statementAt hk
    split
    · exact hR.refl s
    · split
      · rename_i statement t le he
        rw [he] at read
        exact Step.rel_widen (Step.rel_map (hR.trans read (statements t)) _) _
      · rename_i e t le he
        rw [he] at read
        have lt' := State.size_record_lt k e le
        have lt_recover := State.size_recover_lt k e le
        have recorded : R s (t.record e) := hR.trans read (hR.record t e)
        dsimp only
        split
        · exact recorded
        · split
          · exact Step.rel_widen (hR.trans recorded (statements _)) _
          · exact Step.rel_widen
              (hR.trans (hR.trans recorded (hR.recover _)) (statements _)) _
termination_by 8 * s.size + 1

theorem statement (s : State) : R s (statement s).state := by
  rw [Grammar.statement]
  split
  · exact hR.refl s
  · rename_i k hk
    have lt := k.lt
    split
    · exact hR.refl s
    · exact Step.rel_widen (statementAt hk) _
termination_by 8 * s.size

/-- A statement in braces is cut out together with its opening brace, so what is read is counted
    from in front of the first token. -/
theorem statementAt {s : State} {k : Taken s} (hk : s.take? = some k) :
    R s (statementAt k).state := by
  have front := hR.take hk
  have lt := k.lt
  rw [Grammar.statementAt]
  split
  · refine hR.andThen (hR.trans front (hR.expression k.behind)) fun _ t _ => ?_
    exact Step.rel_map (hR.semicolon t _) _
  · refine hR.andThen (hR.trans front (hR.expect k.behind .identifier)) fun name t _ => ?_
    refine hR.andThen (hR.assignmentRest true _ t) fun _ u _ => ?_
    exact Step.rel_map (hR.semicolon u _) _
  · exact hR.trans front (hR.assignmentOrCall k.token k.behind)
  · refine hR.andThen (hR.trans front (hR.condition k.behind)) fun test t _ => ?_
    refine hR.andThen (statement t) fun body u _ => ?_
    refine hR.andThen (hR.accept u .elseWord) fun hasElse v _ => ?_
    split
    · refine hR.andThen (hR.expect v .colon) fun _ w _ => ?_
      exact Step.rel_map (statement w) _
    · exact hR.refl v
  · refine hR.andThen (hR.trans front (hR.condition k.behind)) fun test t _ => ?_
    exact Step.rel_map (statement t) _
  · refine hR.andThen (hR.trans front (statement k.behind)) fun first t _ => ?_
    split
    · refine hR.andThen (hR.expression t) fun test u _ => ?_
      refine hR.andThen (hR.expect u .semicolon) fun _ v _ => ?_
      refine hR.andThen (hR.loopStep v) fun step w _ => ?_
      exact Step.rel_map (statement w) _
    · exact hR.refl t
  · exact Step.rel_map (hR.inside k _ fun t _ => statements t) _
  · exact hR.trans front (hR.invalidStatement k)
termination_by 8 * k.behind.size + 2

end

theorem block (s : State) : R s (block s).state :=
  hR.bracketed s _ _ fun t _ => hR.statements t

theorem parameters (s : State) : R s (parameters s).state := by
  rw [Grammar.parameters]
  split
  · exact hR.refl s
  · refine hR.andThen (hR.expect s .identifier) fun name t _ => ?_
    refine hR.andThen (hR.expect t .colon) fun _ u _ => ?_
    refine hR.andThen (hR.typeName u) fun type v _ => ?_
    have same := v.size_record ⟨.voidParameter name.text, name.line⟩
    refine Step.rel_ite ?_ ?_
    · exact hR.trans (hR.record v _) (hR.commaOrEnd _ [] fun x lt => parameters x)
    · exact Step.rel_map (hR.commaOrEnd v [] fun x lt => parameters x) _
termination_by s.size

theorem traitNames (s : State) : R s (traitNames s).state := by
  rw [Grammar.traitNames]
  split
  · exact hR.refl s
  · refine hR.andThen (hR.expect s .identifier) fun name t _ => ?_
    have same := t.size_record ⟨.unknownTrait name.text, name.line⟩
    dsimp only
    split
    · exact Step.rel_map (hR.commaOrEnd t ({} : Traits) fun u lt => traitNames u) _
    · exact hR.trans (hR.record t _) (hR.commaOrEnd _ ({} : Traits) fun u lt => traitNames u)
termination_by s.size

theorem optionalTraits (s : State) : R s (optionalTraits s).state := by
  unfold Grammar.optionalTraits
  split
  · exact Step.rel_mapError (hR.bracketed s _ _ fun t _ => hR.traitNames t) _
  · exact hR.refl s

theorem returnType (s : State) : R s (returnType s).state := by
  refine hR.andThen (hR.accept s .arrow) fun declared t _ => ?_
  split
  · exact Step.rel_map (hR.typeName t) some
  · exact hR.refl t

theorem body (native : Bool) (s : State) : R s (body native s).state := by
  unfold Grammar.body
  split
  · exact hR.refl s
  · rename_i k hk
    have front := hR.take hk
    split
    · refine Step.rel_widen (hR.andThen (hR.trans front (hR.expression k.behind)) fun _ t _ => ?_) _
      exact Step.rel_map (hR.semicolon t _) _
    · exact Step.rel_widen (hR.inside k _ fun t _ => hR.statements t) _
    · split
      · exact Step.rel_widen front _
      · exact front

end Steady
end ObjectLang.Grammar
