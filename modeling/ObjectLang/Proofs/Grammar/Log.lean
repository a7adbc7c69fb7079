import ObjectLang.Grammar.File
import ObjectLang.Proofs.Grammar.Surroundings
set_option autoImplicit false

/-!
# Reading only adds to the log

Declarations and whole files do not look at their surroundings either. So what reading a file adds to
the log does not depend on what is in the log already.
-/

namespace ObjectLang

namespace Grammar

variable (σ : Surroundings)

theorem abides_declareField (owner : TypeId) (ownerName : String) (name : Token) (type : TypeId)
    (s : State) :
    (declareField owner ownerName name type s).Abides σ
      (declareField owner ownerName name type (σ.around s)) :=
  .ite (fun _ => .fail _ rfl) fun _ => .ite (fun _ => .fail _ rfl) fun _ => rfl

theorem abides_fieldAt (owner : TypeId) (ownerName : String) {s : State} (k : Taken s) :
    (fieldAt owner ownerName k).Abides σ (fieldAt owner ownerName (k.around σ)) := by
  refine (Step.Mirrors.ofExcept _ rfl).andThen fun name t _ _ => ?_
  refine (abides_expect σ t .colon).andThen fun _ u _ _ => ?_
  refine (abides_typeName σ u).andThen fun type v _ _ => ?_
  refine (abides_semicolon σ v "field definition").andThen fun _ w _ _ => ?_
  exact abides_declareField σ owner ownerName name type w

theorem abides_fields (owner : TypeId) (ownerName : String) (s : State) :
    (fields owner ownerName s).Abides σ (fields owner ownerName (σ.around s)) := by
  rw [fields.eq_def owner ownerName s, fields.eq_def owner ownerName (σ.around s), take?_around]
  cases s.take? with
  | none => exact .pure () rfl
  | some k =>
    have lt := k.lt
    have first := abides_fieldAt σ owner ownerName k
    dsimp only [Option.map]
    cases here : fieldAt owner ownerName k with
    | ok value t le =>
      rw [here] at first
      obtain ⟨_, there⟩ := first.eq_ok
      rw [there]
      exact (abides_fields owner ownerName t).widen _ _
    | error e t le =>
      rw [here] at first
      obtain ⟨_, there⟩ := first.eq_error
      rw [there]
      have recorded := record_around σ t e
      have less := State.size_recover_lt k e le
      refine .ite (fun _ => ?_) fun _ => .widen ?_ _ _
      · exact congrArg (Prod.mk (Except.ok ())) recorded
      · exact recorded ▸ abides_fields owner ownerName (t.record e).recover
termination_by s.size

theorem abides_parentType (s : State) : (parentType s).Abides σ (parentType (σ.around s)) := by
  refine (abides_accept σ s .backArrow).andThen fun derived t _ _ => ?_
  refine .ite (fun _ => ?_) fun _ => .pure none rfl
  refine (abides_typeName σ t).andThen fun type u _ _ => .ite (fun _ => .pure _ rfl) fun _ => ?_
  exact congrArg (Prod.mk (Except.ok none)) (record_around σ u _)

theorem abides_typeDeclaration (s : State) :
    (typeDeclaration s).Abides σ (typeDeclaration (σ.around s)) := by
  refine (abides_expect σ s .identifier).andThen fun name t _ _ => ?_
  refine .ite (fun _ => .fail _ rfl) fun _ => ?_
  refine (abides_parentType σ t).andThen fun parent u _ _ => ?_
  refine (Step.Mirrors.ofPair _ _ rfl).andThen fun id v _ _ => ?_
  exact abides_bracketed σ v .braceOpen .braceClose fun w _ _ => abides_fields σ id name.text w

theorem importGroup_around (item : Token) (s : State) (ids : List FunctionId) :
    importGroup item (σ.around s) ids = σ.around (importGroup item s ids) := by
  induction ids generalizing s with
  | nil => rfl
  | cons id rest ih =>
    rw [importGroup, importGroup, record_around]
    split
    · rw [if_pos ‹_›]
      exact ih { s with module := s.module.importFunction id }
    · rw [if_neg ‹_›]
      exact ih (s.record ⟨.privateImport item.text, item.line⟩)

theorem abides_importFrom (source : Module) (item : Token) (s : State) :
    (importFrom source item s).Abides σ (importFrom source item (σ.around s)) := by
  unfold importFrom
  refine .ite (fun _ => ?_) fun _ => ?_
  · rw [around_program]
    split
    · exact rfl
    · exact .fail _ rfl
  · exact congrArg (Prod.mk (Except.ok ())) (importGroup_around σ item s _)

theorem abides_useDeclaration (earlier : List Module) (s : State) :
    (useDeclaration earlier s).Abides σ (useDeclaration earlier (σ.around s)) := by
  refine (abides_expect σ s .identifier).andThen fun name t _ _ => ?_
  refine (abides_expect σ t .namespaceMark).andThen fun _ u _ _ => ?_
  refine (abides_expect σ u .identifier).andThen fun item v _ _ => ?_
  refine (abides_semicolon σ v "use directive").andThen fun _ w _ _ => ?_
  split
  · exact abides_importFrom σ _ item w
  · exact .fail _ rfl

theorem abides_commaOrEnd {α : Type} (s : State) (atEnd : α)
    {more : (t : State) → t.size < s.size → Step α t.size}
    {more' : (t : State) → t.size < (σ.around s).size → Step α t.size}
    (h : ∀ t lt lt', (more t lt).Abides σ (more' (σ.around t) lt')) :
    (commaOrEnd s atEnd more).Abides σ (commaOrEnd (σ.around s) atEnd more') := by
  rw [commaOrEnd, commaOrEnd, take?_around]
  cases s.take? with
  | none => exact .pure atEnd rfl
  | some k =>
    refine .widen (Step.Mirrors.andThen (.ofExcept _ rfl) fun _ t le le' => ?_) _ _
    exact h t (k.lt_of_le le) ((k.around σ).lt_of_le le')

theorem abides_parameters (s : State) : (parameters s).Abides σ (parameters (σ.around s)) := by
  rw [parameters.eq_def s, parameters.eq_def (σ.around s), take?_around]
  cases s.take? with
  | none => exact .pure [] rfl
  | some _ =>
    refine (abides_expect σ s .identifier).andThen fun name t _ _ => ?_
    refine (abides_expect σ t .colon).andThen fun _ u _ _ => ?_
    refine (abides_typeName σ u).andThen fun type v _ _ => .ite (fun _ => ?_) fun _ => ?_
    · let e : SyntaxError := ⟨.voidParameter name.text, name.line⟩
      have size : (v.record e).size = v.size := rfl
      change Step.Abides σ (commaOrEnd (v.record e) [] fun x _ => parameters x)
        (commaOrEnd ((σ.around v).record e) [] fun x _ => parameters x)
      rw [record_around]
      exact abides_commaOrEnd σ (v.record e) [] fun x _ _ => abides_parameters x
    · exact (abides_commaOrEnd σ v [] fun x _ _ => abides_parameters x).map _
termination_by s.size

theorem abides_traitNames (s : State) : (traitNames s).Abides σ (traitNames (σ.around s)) := by
  rw [traitNames.eq_def s, traitNames.eq_def (σ.around s), take?_around]
  cases s.take? with
  | none => exact .pure ({} : Traits) rfl
  | some _ =>
    refine (abides_expect σ s .identifier).andThen fun name t _ _ => ?_
    cases Traits.named? name.text with
    | some one =>
      exact (abides_commaOrEnd σ t ({} : Traits) fun u _ _ => abides_traitNames u).map _
    | none =>
      let e : SyntaxError := ⟨.unknownTrait name.text, name.line⟩
      have size : (t.record e).size = t.size := rfl
      change Step.Abides σ (commaOrEnd (t.record e) ({} : Traits) fun u _ => traitNames u)
        (commaOrEnd ((σ.around t).record e) ({} : Traits) fun u _ => traitNames u)
      rw [record_around]
      exact abides_commaOrEnd σ (t.record e) _ fun u _ _ => abides_traitNames u
termination_by s.size

theorem abides_optionalTraits (s : State) :
    (optionalTraits s).Abides σ (optionalTraits (σ.around s)) := by
  refine .ite (fun _ => Step.Mirrors.mapError ?_ _) fun _ => .pure ({} : Traits) rfl
  exact abides_bracketed σ s .bracketOpen .bracketClose fun t _ _ => abides_traitNames σ t

theorem abides_returnType (s : State) : (returnType s).Abides σ (returnType (σ.around s)) := by
  refine (abides_accept σ s .arrow).andThen fun declared t _ _ => ?_
  exact .ite (fun _ => (abides_typeName σ t).map some) fun _ => .pure none rfl

theorem abides_body (native : Bool) (s : State) :
    (body native s).Abides σ (body native (σ.around s)) := by
  rw [body.eq_def native s, body.eq_def native (σ.around s), take?_around]
  cases s.take? with
  | none => exact .fail _ rfl
  | some k =>
    dsimp only [Option.map]
    rw [token_around]
    cases k.token.kind with
    | doubleArrow =>
      refine .widen ((abides_expression σ k.behind).andThen fun value t _ _ => ?_) _ _
      exact (abides_semicolon σ t "function definition").map _
    | braceOpen =>
      exact (abides_inside σ k .braceClose fun t _ _ => abides_statements σ t).widen _ _
    | _ => exact .ite (fun _ => (Step.Mirrors.pure [] rfl).widen _ _) fun _ => rfl

theorem abides_register (owner : Option TypeId) (f : Function) (s : State) :
    (register owner f s).Abides σ (register owner f (σ.around s)) := by
  cases owner with
  | some owner =>
    rw [register_owner, register_owner, around_program]
    dsimp only
    cases (s.program.addFunction f).2.methodFault? owner
      ((s.program.addFunction f).2.function (s.program.addFunction f).1) <;> rfl
  | none => exact .ite (fun _ => .fail _ rfl) fun _ => rfl

theorem abides_functionName (s : State) :
    (functionName s).Abides σ (functionName (σ.around s)) := by
  refine (abides_expect σ s .identifier).andThen fun name t _ _ => ?_
  refine (abides_accept σ t .dot).andThen fun dotted u _ _ => ?_
  refine .ite (fun _ => ?_) fun _ => .pure _ rfl
  refine (abides_expect σ u .identifier).andThen fun method v _ _ => ?_
  have same : (σ.around v).ownObject? name.text = v.ownObject? name.text := rfl
  rw [same]
  cases v.ownObject? name.text with
  | some owner => exact .pure _ rfl
  | none => exact .fail _ rfl

theorem abides_functionDeclaration (line : Nat) (s : State) :
    (functionDeclaration line s).Abides σ (functionDeclaration line (σ.around s)) := by
  refine (abides_functionName σ s).andThen fun (owner, name) t _ _ => ?_
  refine (Step.Mirrors.ofPair _ _ rfl).andThen fun marker u _ _ => ?_
  refine Step.Mirrors.andThen ?_ fun parameters v _ _ => ?_
  · exact abides_bracketed σ u .parenOpen .parenClose fun v _ _ =>
      (abides_parameters σ v).mapError _
  refine (abides_optionalTraits σ v).andThen fun traits w _ _ => ?_
  refine (abides_returnType σ w).andThen fun declared x _ _ => ?_
  refine (abides_body σ (marker == some .native) x).andThen fun body y _ _ => ?_
  exact abides_register σ owner _ y

theorem abides_markerAt {s : State} (k : Taken s) :
    (markerAt k).Abides σ (markerAt (k.around σ)) := by
  unfold markerAt
  rw [token_around]
  cases Marker.ofText? k.token.text with
  | some marker => exact rfl
  | none => exact .fail _ rfl

theorem declarationAt?_around (earlier : List Module) {s : State} (k : Taken s) :
    (declarationAt? earlier (k.around σ)).map Step.outcome =
      (declarationAt? earlier k).map fun x => (x.result, σ.around x.state) := by
  unfold declarationAt?
  rw [token_around]
  cases k.token.kind with
  | fnWord => exact congrArg some (abides_functionDeclaration σ _ k.behind)
  | typeWord => exact congrArg some (abides_typeDeclaration σ k.behind)
  | useWord => exact congrArg some (abides_useDeclaration σ earlier k.behind)
  | marker => exact congrArg some (abides_markerAt σ k)
  | identifier => dsimp only; split <;> rfl
  | _ => rfl

theorem items_around (earlier : List Module) (s : State) :
    items earlier (σ.around s) = ((items earlier s).1, σ.around (items earlier s).2) := by
  rw [items.eq_def earlier s, items.eq_def earlier (σ.around s), take?_around]
  cases s.take? with
  | none => rfl
  | some k =>
    have lt := k.lt
    have declared := declarationAt?_around σ earlier k
    have stated := abides_statementAt σ k
    dsimp only [Option.map]
    rw [token_around]
    split
    · rfl
    cases here : declarationAt? earlier k with
    | some x =>
      rw [here] at declared
      obtain ⟨y, there, same⟩ := Option.map_eq_some_iff.1 declared
      rw [there]
      cases x with
      | ok _ t le =>
        obtain ⟨_, rfl⟩ := Step.Mirrors.eq_ok same
        exact items_around earlier t
      | error e t le =>
        obtain ⟨_, rfl⟩ := Step.Mirrors.eq_error same
        have less : (t.record e).size ≤ k.behind.size := le
        have less_skip := (t.record e).size_skipToDeclaration_le
        dsimp only
        rw [record_around]
        exact items_around earlier (t.record e).skipToDeclaration
    | none =>
      rw [here] at declared
      rw [Option.map_eq_none_iff.1 declared]
      dsimp only
      cases read : statementAt k with
      | ok statement t le =>
        rw [read] at stated
        obtain ⟨_, there⟩ := stated.eq_ok
        rw [there]
        dsimp only
        rw [items_around earlier t]
      | error e t le =>
        rw [read] at stated
        obtain ⟨_, there⟩ := stated.eq_error
        rw [there]
        have less := State.size_record_lt k e le
        have less_recover := State.size_recover_lt k e le
        dsimp only
        rw [record_around]
        split
        · exact items_around earlier (t.record e)
        · exact items_around earlier (t.record e).recover
termination_by s.size

/-- A file is read from the start, where no other cursors wait. -/
theorem readFile_around (alone : σ.outer = []) (earlier : List Module) (name : String)
    (cursor : Cursor) (program : Program) (d : Diagnostics) :
    readFile earlier name cursor program (σ.log d) =
      σ.around (readFile earlier name cursor program d) := by
  have start : State.start earlier name cursor program (σ.log d) =
      σ.around (.start earlier name cursor program d) := by
    unfold State.start Surroundings.around
    dsimp only
    rw [σ.file d cursor.file, alone]
    rfl
  unfold readFile
  rw [start, items_around]
  dsimp only
  unfold State.setBody
  rw [around_module]
  split <;> rfl

end Grammar

namespace Diagnostics

def cleared (d : Diagnostics) : Diagnostics := { d with entries := #[] }

theorem warnAt_eq (d : Diagnostics) (line : Nat) (message : String) :
    d.warnAt line message =
      if d.verbosity.recordsWarnings then
        { d with line, entries := d.entries.push ⟨.warning, d.file, line, message⟩ }
      else { d with line } := rfl

/-- Behind `d`, the entries `new` have been recorded. Where warnings are not wanted they are errors. -/
structure Logs (d : Diagnostics) (new : List Diagnostic) (e : Diagnostics) : Prop where
  entries : e.entries.toList = d.entries.toList ++ new
  strict : d.verbosity.recordsWarnings = false →
    e.verbosity = d.verbosity ∧ ∀ x ∈ new, isError x = true

namespace Logs

variable {d e f : Diagnostics} {new new' : List Diagnostic}

theorem refl (d : Diagnostics) : Logs d [] d := ⟨(List.append_nil _).symm, fun _ => ⟨rfl, nofun⟩⟩

theorem trans (h : Logs d new e) (h' : Logs e new' f) : Logs d (new ++ new') f where
  entries := by rw [h'.entries, h.entries, List.append_assoc]
  strict quiet := by
    obtain ⟨same, errors⟩ := h.strict quiet
    obtain ⟨same', errors'⟩ := h'.strict (same ▸ quiet)
    exact ⟨same'.trans same, List.forall_mem_append.2 ⟨errors, errors'⟩⟩

end Logs
end Diagnostics

namespace Grammar

/-- In front of the log, `front` was recorded. -/
def Surroundings.logged (front : Array Diagnostic) : Surroundings where
  outer := []
  log d := { d with entries := front ++ d.entries }
  file _ _ := rfl
  errorAt d line message :=
    congrArg (fun entries => ({ d with line, entries } : Diagnostics)) Array.append_push
  warnAt d line message := by
    rw [Diagnostics.warnAt_eq, Diagnostics.warnAt_eq]
    dsimp only
    split
    · exact congrArg (fun entries => ({ d with line, entries } : Diagnostics)) Array.append_push
    · rfl

theorem logged_cleared (d : Diagnostics) : (Surroundings.logged d.entries).log d.cleared = d :=
  congrArg (fun entries => ({ d with entries } : Diagnostics)) Array.append_empty

def Surroundings.strict (verbosity : Verbosity) (quiet : verbosity.recordsWarnings = false) :
    Surroundings where
  outer := []
  log d := { d with entries := d.entries.filter Diagnostics.isError, verbosity }
  file _ _ := rfl
  errorAt d line message := by
    have kept : (d.errorAt line message).entries.filter Diagnostics.isError =
        (d.entries.filter Diagnostics.isError).push ⟨.error, d.file, line, message⟩ := by
      rw [Diagnostics.errorAt, Diagnostics.error, Diagnostics.push_error]
      exact Array.filter_push_of_pos rfl (Array.size_push _)
    exact congrArg (fun entries => ({ d with line, entries, verbosity } : Diagnostics)) kept
  warnAt d line message := by
    rw [Diagnostics.warnAt_eq, Diagnostics.warnAt_eq, quiet]
    split
    · have dropped : (d.entries.push ⟨.warning, d.file, line, message⟩).filter Diagnostics.isError =
          d.entries.filter Diagnostics.isError :=
        Array.filter_push_of_neg Bool.false_ne_true (Array.size_push _)
      exact congrArg (fun entries => ({ d with line, entries, verbosity } : Diagnostics)) dropped
    · rfl

/-- What is recorded while a file is read does not depend on what was recorded before. -/
theorem logs_readFile (earlier : List Module) (name : String) (cursor : Cursor) (program : Program)
    (d : Diagnostics) :
    d.Logs (readFile earlier name cursor program d.cleared).diagnostics.entries.toList
      (readFile earlier name cursor program d).diagnostics := by
  have read := readFile_around (.logged d.entries) rfl earlier name cursor program d.cleared
  rw [logged_cleared] at read
  refine ⟨?_, fun quiet => ?_⟩
  · rw [read]
    exact Array.toList_append
  · have strict : readFile earlier name cursor program d.cleared =
        (Surroundings.strict d.verbosity quiet).around
          (readFile earlier name cursor program d.cleared) :=
      readFile_around (.strict d.verbosity quiet) rfl earlier name cursor program d.cleared
    refine ⟨?_, fun x hx => ?_⟩
    · rw [read, strict]
      rfl
    · rw [strict] at hx
      exact (Array.mem_filter.1 (Array.mem_toList_iff.1 hx)).2

end Grammar
end ObjectLang
