import ObjectLang.Grammar.File
import ObjectLang.Proofs.Grammar.Steady
import ObjectLang.Proofs.Token.Moves
set_option autoImplicit false

/-!
# Reading takes tokens from the front

Whatever a function of the grammar reads, and whether it ends with a value or with an error, it moves
the innermost cursor, which takes tokens from its front, and touches no other: the cursors that wait
behind open brackets stay as they are.
-/

namespace ObjectLang

namespace Cursor

structure Ahead (c d : Cursor) : Prop where
  tokens : d.tokens <:+ c.tokens
  file : d.file = c.file

theorem ahead_run (c : Cursor) (moves : List Move) : Ahead c (c.run moves) :=
  ⟨⟨_, (c.leaves_run moves).tokens⟩, (c.leaves_run moves).file⟩

end Cursor

namespace Grammar

/-- Reading came from `s` to `t`: the innermost cursor went on, and the cursors behind open brackets
    stayed. -/
structure Takes (s t : State) : Prop where
  cursor : s.cursor.Ahead t.cursor
  outer : t.outer = s.outer

theorem Takes.size_le {s t : State} (h : Takes s t) : t.size ≤ s.size := h.cursor.tokens.length_le

/-- Reading came from `s` to `t` by moves of the innermost cursor. -/
structure Moves (s t : State) : Prop where
  cursor : ∃ moves, t.cursor = s.cursor.run moves
  outer : t.outer = s.outer

namespace Moves

variable {s t u : State}

theorem takes (h : Moves s t) : Takes s t := by
  obtain ⟨moves, same⟩ := h.cursor
  exact ⟨same ▸ s.cursor.ahead_run moves, h.outer⟩

theorem of_eq (cursor : t.cursor = s.cursor) (outer : t.outer = s.outer) : Moves s t :=
  ⟨⟨[], cursor⟩, outer⟩

theorem refl (s : State) : Moves s s := of_eq rfl rfl

theorem trans (h : Moves s t) (h' : Moves t u) : Moves s u := by
  obtain ⟨first, same⟩ := h.cursor
  obtain ⟨later, same'⟩ := h'.cursor
  refine ⟨⟨first ++ later, ?_⟩, h'.outer.trans h.outer⟩
  rw [same', same, Cursor.run_append]

theorem record (s : State) (e : SyntaxError) : Moves s (s.record e) := of_eq rfl rfl

theorem recover (s : State) : Moves s s.recover :=
  ⟨⟨[.skipUntil [.semicolon, .braceClose], .acceptIf .semicolon], rfl⟩, rfl⟩

theorem skipTo (s : State) (stop : Token → Bool) :
    Moves s { s with cursor := s.cursor.skipTo stop } := by
  obtain ⟨n, same⟩ := s.cursor.exists_skipTo_eq stop
  exact ⟨⟨_, same⟩, rfl⟩

theorem skipToDeclaration (s : State) : Moves s s.skipToDeclaration := skipTo s _

end Moves

theorem moves_of_take? {s : State} {k : Taken s} (h : s.take? = some k) : Moves s k.behind := by
  unfold State.take? at h
  split at h
  · cases h
  · rename_i token rest front
    cases h
    exact ⟨⟨[.next], (Cursor.advance_of_cons front).symm⟩, rfl⟩

/-- Reading inside brackets ends behind them, however far it came inside. -/
theorem moves_inside {s : State} {α : Type} (k : Taken s) (closing : TokenKind)
    (read : (t : State) → t.size ≤ k.behind.size → Step α t.size) :
    Moves s (k.inside closing read).state := by
  have behind : ∃ moves, (s.cursor.cutInside k.token.kind closing).2 = s.cursor.run moves :=
    ⟨[.cut k.token.kind closing], rfl⟩
  unfold Taken.inside
  dsimp only
  split
  · exact ⟨behind, rfl⟩
  · split
    · exact ⟨behind, rfl⟩
    · exact ⟨behind, rfl⟩

def State.pop (t : State) : State :=
  match t.outer with
  | [] => t
  | behind :: rest => { t with cursor := behind, outer := rest }

theorem tokenwise_moves : Tokenwise Moves where
  refl := .refl
  trans := .trans
  logs _ _ := .of_eq rfl rfl
  take := moves_of_take?
  accept _ kind := ⟨⟨[.acceptIf kind], rfl⟩, rfl⟩
  recover := .recover
  inside k closing _ _ := moves_inside k closing _

theorem moves_typeName (s : State) : Moves s (typeName s).state := by
  have moves := tokenwise_moves
  rw [typeName]
  split
  · exact .refl s
  · rename_i k hk
    have lt := k.lt
    have front := moves_of_take? hk
    split
    · refine Step.rel_widen
        (moves.andThen (front.trans (moves_typeName k.behind)) fun element t _ => ?_) _
      refine moves.andThen (moves.expect t _) fun _ u _ => ?_
      split
      · exact .refl u
      · exact .of_eq rfl rfl
    · refine Step.rel_widen
        (moves.andThen (front.trans (moves_typeName k.behind)) fun element t _ => ?_) _
      exact moves.andThen (moves.expect t _) fun _ u _ => .of_eq rfl rfl
    · refine Step.rel_widen
        (moves.andThen (front.trans (moves.skipAmpersands _ _)) fun _ t _ => ?_) _
      exact moves.andThen (moves.plainTypeName t) fun _ u _ => .of_eq rfl rfl
    · exact moves.plainTypeName s
termination_by s.size

theorem steady_moves : Steady Moves where
  toTokenwise := tokenwise_moves
  typeName := moves_typeName
  arrayOf _ _ := .of_eq rfl rfl
  listOf _ _ := .of_eq rfl rfl

theorem moves_declareField (owner : TypeId) (ownerName : String) (name : Token) (type : TypeId)
    (s : State) : Moves s (declareField owner ownerName name type s).state := by
  unfold declareField
  split
  · exact .refl s
  · split
    · exact .refl s
    · exact .of_eq rfl rfl

theorem moves_fieldAt (owner : TypeId) (ownerName : String) {s : State} (k : Taken s) :
    Moves k.behind (fieldAt owner ownerName k).state := by
  have moves := steady_moves
  refine moves.andThen (moves.ofExcept _ k.behind) fun name t _ => ?_
  refine moves.andThen (moves.expect t .colon) fun _ u _ => ?_
  refine moves.andThen (moves.typeName u) fun type v _ => ?_
  refine moves.andThen (moves.semicolon v _) fun _ w _ => ?_
  exact moves_declareField owner ownerName name type w

theorem moves_fields (owner : TypeId) (ownerName : String) (s : State) :
    Moves s (fields owner ownerName s).state := by
  rw [fields]
  split
  · exact .refl s
  · rename_i k hk
    have lt := k.lt
    have read := (moves_of_take? hk).trans (moves_fieldAt owner ownerName k)
    split
    · rename_i t le he
      rw [he] at read
      exact Step.rel_widen (read.trans (moves_fields owner ownerName t)) _
    · rename_i e t le he
      rw [he] at read
      have lt' := State.size_recover_lt k e le
      have recorded : Moves s (t.record e) := read.trans (.record t e)
      dsimp only
      split
      · exact recorded
      · exact Step.rel_widen
          ((recorded.trans (.recover _)).trans (moves_fields owner ownerName _)) _
termination_by s.size

theorem moves_parentType (s : State) : Moves s (parentType s).state := by
  have moves := steady_moves
  refine moves.andThen (moves.accept s .backArrow) fun derived t _ => ?_
  split
  · refine moves.andThen (moves.typeName t) fun type u _ => ?_
    split
    · exact .refl u
    · exact .record u _
  · exact .refl t

theorem moves_typeDeclaration (s : State) : Moves s (typeDeclaration s).state := by
  have moves := steady_moves
  refine moves.andThen (moves.expect s .identifier) fun name t _ => ?_
  split
  · exact .refl t
  · refine moves.andThen (moves_parentType t) fun parent u _ => ?_
    have declared : Moves u (Step.ofPair (u.declare name.text parent)
        (u.size_declare _ _)).state := .of_eq rfl rfl
    refine moves.andThen declared fun id v _ => ?_
    exact moves.bracketed v _ _ fun w _ => moves_fields id name.text w

theorem moves_importGroup (item : Token) (s : State) (ids : List FunctionId) :
    Moves s (importGroup item s ids) := by
  induction ids generalizing s with
  | nil => exact .refl s
  | cons id rest ih =>
    rw [importGroup]
    split
    · have imported : Moves s { s with module := s.module.importFunction id } := .of_eq rfl rfl
      exact imported.trans (ih _)
    · exact (Moves.record s _).trans (ih _)

theorem moves_importFrom (source : Module) (item : Token) (s : State) :
    Moves s (importFrom source item s).state := by
  unfold importFrom
  dsimp only
  split
  · split
    · exact .of_eq rfl rfl
    · exact .refl s
  · exact moves_importGroup item s _

theorem moves_useDeclaration (earlier : List Module) (s : State) :
    Moves s (useDeclaration earlier s).state := by
  have moves := steady_moves
  refine moves.andThen (moves.expect s .identifier) fun name t _ => ?_
  refine moves.andThen (moves.expect t .namespaceMark) fun _ u _ => ?_
  refine moves.andThen (moves.expect u .identifier) fun item v _ => ?_
  refine moves.andThen (moves.semicolon v _) fun _ w _ => ?_
  split
  · exact moves_importFrom _ item w
  · exact .refl w

theorem moves_register (owner : Option TypeId) (f : Function) (s : State) :
    Moves s (register owner f s).state := by
  cases owner with
  | some owner =>
    rw [register_owner]
    dsimp only
    split
    · exact .of_eq rfl rfl
    · exact .of_eq rfl rfl
  | none =>
    unfold register
    dsimp only
    split
    · exact .refl s
    · exact .of_eq rfl rfl

theorem moves_functionDeclaration (line : Nat) (s : State) :
    Moves s (functionDeclaration line s).state := by
  have moves := steady_moves
  refine moves.andThen (moves.functionName s) fun named t _ => ?_
  have pending : Moves t (Step.ofPair t.takePending t.size_takePending).state := .of_eq rfl rfl
  refine moves.andThen pending fun marker u _ => ?_
  refine moves.andThen (moves.bracketed u _ _ fun v _ => ?_) fun parameters v _ => ?_
  · exact Step.rel_mapError (moves.parameters v) _
  refine moves.andThen (moves.optionalTraits v) fun traits w _ => ?_
  refine moves.andThen (moves.returnType w) fun declared x _ => ?_
  exact moves.andThen (moves.body _ x) fun body y _ => moves_register _ _ y

theorem moves_markerAt {s : State} (k : Taken s) : Moves k.behind (markerAt k).state := by
  unfold markerAt
  split
  · exact .of_eq rfl rfl
  · exact .refl _

theorem moves_skipImport {s : State} (k : Taken s) : Moves k.behind (skipImport k) :=
  .skipTo k.behind _

theorem moves_declarationAt {earlier : List Module} {s : State} {k : Taken s}
    (hk : s.take? = some k) {x : Step Unit k.behind.size} (h : declarationAt? earlier k = some x) :
    Moves s x.state := by
  refine (moves_of_take? hk).trans ?_
  unfold declarationAt? at h
  split at h
  · cases h
    exact moves_functionDeclaration _ _
  · cases h
    exact moves_typeDeclaration _
  · cases h
    exact moves_useDeclaration earlier _
  · cases h
    exact moves_markerAt k
  · split at h
    · cases h
      exact moves_skipImport k
    · cases h
  · cases h

end Grammar
end ObjectLang
