import ObjectLang.Grammar.Declaration
import ObjectLang.Proofs.Grammar.Statement
import ObjectLang.Proofs.Program.Spared
set_option autoImplicit false

/-!
# Declarations build drafts

Every declaration is a number of steps of building: a type with its fields, an import, or a function
that is registered as a free function or as a method.
-/

namespace ObjectLang.Grammar

variable {earlier : List Module}

theorem builds_declareField (owner : TypeId) (ownerName : String) (name : Token) {type : TypeId}
    {s : State} (hs : s.draft.Closed earlier) (declared : s.draft.HasDeclared owner)
    (known : s.program.types.Knows type) :
    (declareField owner ownerName name type s).Builds earlier s fun _ _ => True := by
  unfold declareField
  split
  · exact .fail hs _
  · rename_i hfresh
    split
    · exact .fail hs _
    · rename_i hfilled
      have fresh : (s.program.types.get owner).ownField? name.text = none := by
        simpa using hfresh
      exact ⟨.of_steps hs (.single (.addField owner name.text type declared fresh known hfilled)),
        trivial⟩

theorem builds_fieldAt (owner : TypeId) (ownerName : String) {s : State} {k : Taken s}
    (hk : k.behind.draft.Closed earlier) (declared : k.behind.draft.HasDeclared owner) :
    (fieldAt owner ownerName k).Builds earlier k.behind fun _ _ => True := by
  refine (Step.Builds.of_keeps hk (keeps_ofExcept _ _)).andThen fun name t le h _ => ?_
  refine (builds_expect h.closed .colon).andThen fun _ u le' h' _ => ?_
  refine (builds_typeName u h'.closed).andThen fun type v le'' h'' known => ?_
  refine (builds_semicolon h''.closed _).andThen fun _ w le''' ended _ => ?_
  have steps := ((h.trans h').trans h'').trans ended
  exact builds_declareField owner ownerName name ended.closed (declared.steps steps.steps)
    (ended.extension.knows known)

theorem builds_fields (owner : TypeId) (ownerName : String) (s : State)
    (hs : s.draft.Closed earlier) (declared : s.draft.HasDeclared owner) :
    (fields owner ownerName s).Builds earlier s fun _ _ => True := by
  rw [fields]
  split
  · exact .pure hs trivial
  · rename_i k hk
    have lt := k.lt
    have hd := draft_of_take? hk
    have hat := (builds_fieldAt owner ownerName (hd ▸ hs) (hd ▸ declared)).start hd
    split
    · rename_i t le he
      rw [he] at hat
      have declared' := declared.steps hat.1.steps
      exact ((builds_fields owner ownerName t hat.1.closed declared').after hat.1).widen _
    · rename_i e t le he
      rw [he] at hat
      have lt' := State.size_recover_lt k e le
      have recorded : Leads earlier s (t.record e) := Leads.change hat rfl rfl
      have recovered : Leads earlier s (t.record e).recover := Leads.change hat rfl rfl
      dsimp only
      split
      · exact ⟨recorded, trivial⟩
      · have declared' := declared.steps recovered.steps
        exact ((builds_fields owner ownerName _ recovered.closed declared').after recovered).widen _
termination_by s.size

theorem builds_parentType {s : State} (hs : s.draft.Closed earlier) :
    (parentType s).Builds earlier s
      fun parent p => ∀ t ∈ parent, p.types.isObject t = true := by
  refine (builds_accept hs .backArrow).andThen fun derived t le h _ => ?_
  split
  · refine (builds_typeName t h.closed).andThen fun type u le' h' known => ?_
    split
    · rename_i object
      refine .pure h'.closed ?_
      rintro _ ⟨⟩
      exact object
    · exact ⟨.of_draft_eq h'.closed rfl, nofun⟩
  · exact .pure h.closed nofun

theorem hasDeclared_declare {s : State} (hs : s.draft.Closed earlier) (name : String)
    (parent : Option TypeId) :
    (s.declare name parent).2.draft.HasDeclared (s.declare name parent).1 := by
  have new : ∀ t ∈ s.module.types, t ≠ (s.program.types.declare name parent).1 := by
    rintro _ ht rfl
    exact Nat.lt_irrefl _ (hs.module.types _ ht)
  have stored : (s.program.types.declare name parent).2.get (s.program.types.declare name parent).1 =
      .object name (parent.filter fun p => p.index < s.program.types.size) {} := by
    rw [Registry.declare, Registry.get_add]
    exact if_pos rfl
  refine ⟨?_, ?_, name, _, _, stored⟩
  · intro same
    have base := hs.program.knows_object
    rw [← same] at base
    exact Nat.lt_irrefl _ base
  · change _ ∈ (s.module.addType (s.program.types.declare name parent).1).ownTypes
    rw [Module.addType, if_neg fun found => new _ (List.contains_iff_mem.1 found) rfl]
    exact List.mem_append_right _ (List.mem_singleton_self _)

theorem builds_typeDeclaration {s : State} (hs : s.draft.Closed earlier) :
    (typeDeclaration s).Builds earlier s fun _ _ => True := by
  refine (builds_expect hs .identifier).andThen fun name t le h _ => ?_
  split
  · exact .fail h.closed _
  · refine (builds_parentType h.closed).andThen fun parent u le' h' objects => ?_
    have plain := h.closed.plain (Bool.eq_false_iff.2 ‹_›)
    have step : Leads earlier u (u.declare name.text parent).2 :=
      .of_steps h'.closed (.single (.declare name.text parent objects plain))
    have declared := hasDeclared_declare h'.closed name.text parent
    have read := builds_bracketed step.closed .braceOpen .braceClose
      (fun w _ => fields (u.declare name.text parent).1 name.text w)
      fun w _ hw => builds_fields _ name.text w (hw ▸ step.closed) (hw ▸ declared)
    exact (read.after step).widen (Nat.le_of_eq (u.size_declare _ _))

theorem steps_importFunctions {source : Module} {s : State} (read : source ∈ earlier)
    {object : TypeId} (hobject : object ∈ source.ownTypes)
    (ids : List FunctionId) (shown : ∀ id ∈ ids, id ∈ s.program.types.ownMethods object)
    (offered : ∀ id ∈ ids, (s.program.function id).traits.isPublic = true) (m : Module)
    (hm : Draft.Steps earlier s.draft ⟨s.program, m⟩) :
    Draft.Steps earlier s.draft ⟨s.program, ids.foldl Module.importFunction m⟩ := by
  induction ids generalizing m with
  | nil => exact hm
  | cons id rest ih =>
    refine ih (fun other h => shown other (List.mem_cons_of_mem _ h))
      (fun other h => offered other (List.mem_cons_of_mem _ h)) _ ?_
    exact hm.tail (.importFunction source id read
      (.inr ⟨object, hobject, shown id List.mem_cons_self⟩) (offered id List.mem_cons_self))

theorem leads_importGroup {source : Module} (item : Token) {s : State}
    (hs : s.draft.Closed earlier) (read : source ∈ earlier) (ids : List FunctionId)
    (shown : ∀ id ∈ ids, id ∈ source.ownFunctions) : Leads earlier s (importGroup item s ids) := by
  induction ids generalizing s with
  | nil => exact .of_draft_eq hs rfl
  | cons id rest ih =>
    have shown' : ∀ other ∈ rest, other ∈ source.ownFunctions :=
      fun other h => shown other (List.mem_cons_of_mem _ h)
    rw [importGroup]
    split
    · rename_i offered
      have step : Leads earlier s { s with module := s.module.importFunction id } :=
        .of_steps hs (.single (.importFunction source id read
          (.inl (shown id List.mem_cons_self)) offered))
      exact step.trans (ih step.closed shown')
    · have step : Leads earlier s (s.record ⟨.privateImport item.text, item.line⟩) :=
        .of_draft_eq hs rfl
      exact step.trans (ih step.closed shown')

theorem builds_importFrom {source : Module} (item : Token) {s : State}
    (hs : s.draft.Closed earlier) (read : source ∈ earlier) :
    (importFrom source item s).Builds earlier s fun _ _ => True := by
  unfold importFrom
  dsimp only
  split
  · split
    · rename_i object hfound
      have hobject : object ∈ source.ownTypes :=
        (List.mem_filter.1 (List.mem_of_find?_eq_some hfound)).1
      refine ⟨.of_steps hs ?_, trivial⟩
      refine steps_importFunctions read hobject _ (fun id h => (List.mem_filter.1 h).1)
        (fun id h => (List.mem_filter.1 h).2) _ ?_
      exact .single (.importType source object read hobject)
    · exact .fail hs _
  · refine ⟨leads_importGroup item hs read _ ?_, trivial⟩
    exact fun id h => (List.mem_filter.1 h).1

theorem builds_useDeclaration {s : State} (hs : s.draft.Closed earlier) :
    (useDeclaration earlier s).Builds earlier s fun _ _ => True := by
  refine (builds_expect hs .identifier).andThen fun name t le h _ => ?_
  refine (builds_expect h.closed .namespaceMark).andThen fun _ u le' h' _ => ?_
  refine (builds_expect h'.closed .identifier).andThen fun item v le'' h'' _ => ?_
  refine (builds_semicolon h''.closed _).andThen fun _ w le''' h''' _ => ?_
  split
  · rename_i source hfound
    exact builds_importFrom item h'''.closed (List.mem_of_find?_eq_some hfound)
  · exact .fail h'''.closed _

theorem builds_commaOrEnd {α : Type} {s : State} (hs : s.draft.Closed earlier) {atEnd : α}
    {Q : α → Program → Prop} (hend : Q atEnd s.program)
    (more : (t : State) → t.size < s.size → Step α t.size)
    (hmore : ∀ t lt, Leads earlier s t → (more t lt).Builds earlier t Q) :
    (commaOrEnd s atEnd more).Builds earlier s Q := by
  unfold commaOrEnd
  split
  · exact .pure hs hend
  · rename_i k hk
    have comma : (Step.ofExcept (Cursor.demand .comma k.token) k.behind).Builds earlier s
        fun _ _ => True :=
      (Step.Builds.of_keeps (closed_of_take? hs hk) (keeps_ofExcept _ _)).start (draft_of_take? hk)
    exact (comma.andThen fun _ t le h _ => hmore t _ h).widen _

theorem emptyParameters (p : Program) :
    ∀ x ∈ ([] : List Parameter), p.types.Knows x.type ∧ x.type ≠ .void := nofun

theorem builds_parameters (s : State) (hs : s.draft.Closed earlier) :
    (parameters s).Builds earlier s
      fun xs p => ∀ x ∈ xs, p.types.Knows x.type ∧ x.type ≠ .void := by
  rw [parameters]
  split
  · exact .pure hs (emptyParameters _)
  · refine (builds_expect hs .identifier).andThen fun name t le h _ => ?_
    refine (builds_expect h.closed .colon).andThen fun _ u le' h' _ => ?_
    refine (builds_typeName u h'.closed).andThen fun type v le'' h'' known => ?_
    refine .ite (fun _ => ?_) fun filled => ?_
    · have recorded : Leads earlier v (v.record ⟨.voidParameter name.text, name.line⟩) :=
        .of_draft_eq h''.closed rfl
      have same := v.size_record ⟨.voidParameter name.text, name.line⟩
      refine Step.Builds.after ?_ recorded
      exact builds_commaOrEnd recorded.closed (emptyParameters _) _
        fun x lt hx => builds_parameters x hx.closed
    · refine Step.Builds.map (builds_commaOrEnd h''.closed (emptyParameters _) _
        fun x lt hx => builds_parameters x hx.closed) fun rest w hw hrest => ?_
      intro x hx
      rcases List.mem_cons.1 hx with rfl | hx
      · exact ⟨hw.extension.knows known, filled⟩
      · exact hrest x hx
termination_by s.size

theorem builds_traitNames (s : State) (hs : s.draft.Closed earlier) :
    (traitNames s).Builds earlier s fun _ _ => True := by
  rw [traitNames]
  split
  · exact .pure hs trivial
  · refine (builds_expect hs .identifier).andThen fun name t le h _ => ?_
    split
    · refine Step.Builds.map (Q := fun _ _ => True) (builds_commaOrEnd h.closed trivial _
        fun u lt hu => builds_traitNames u hu.closed) fun _ _ _ _ => trivial
    · have recorded : Leads earlier t (t.record ⟨.unknownTrait name.text, name.line⟩) :=
        .of_draft_eq h.closed rfl
      have same := t.size_record ⟨.unknownTrait name.text, name.line⟩
      refine Step.Builds.after ?_ recorded
      exact builds_commaOrEnd recorded.closed trivial _
        fun u lt hu => builds_traitNames u hu.closed
termination_by s.size

theorem builds_optionalTraits {s : State} (hs : s.draft.Closed earlier) :
    (optionalTraits s).Builds earlier s fun _ _ => True := by
  unfold optionalTraits
  split
  · exact (builds_bracketed hs _ _ _ fun t _ ht => builds_traitNames t (ht ▸ hs)).mapError _
  · exact .pure hs trivial

theorem builds_returnType {s : State} (hs : s.draft.Closed earlier) :
    (returnType s).Builds earlier s fun declared p => ∀ type ∈ declared, p.types.Knows type := by
  refine (builds_accept hs .arrow).andThen fun declared t le h _ => ?_
  split
  · refine (builds_typeName t h.closed).map fun type u h' known => ?_
    rintro _ ⟨⟩
    exact known
  · exact .pure h.closed nofun

theorem builds_body (native : Bool) {s : State} (hs : s.draft.Closed earlier) :
    (body native s).Builds earlier s fun ss p => Statement.FormedAll p ss := by
  unfold body
  split
  · exact .fail hs _
  · rename_i k hk
    have hd := draft_of_take? hk
    have hk' := closed_of_take? hs hk
    split
    · refine Step.Builds.widen ?_ _
      refine ((builds_expression k.behind hk').start hd).andThen fun value t le h hvalue => ?_
      refine (builds_semicolon h.closed _).map fun _ u h' _ => ?_
      exact ⟨value.formed_mono h'.extension hvalue, trivial⟩
    · have inside := builds_inside hs k .braceClose (fun t _ => statements t)
        fun t le ht => builds_statements t (ht ▸ hs)
      exact inside.widen _
    · split
      · exact (Step.Builds.start (.pure hk' trivial) hd).widen _
      · exact Leads.of_draft_eq hs hd

theorem builds_register {owner : Option TypeId} {f : Function} {s : State}
    (hs : s.draft.Closed earlier) (formed : f.Formed s.program)
    (own : f.module = s.module.index) (free : f.parent = none)
    (object : ∀ t ∈ owner, s.program.types.isObject t = true)
    (admitted : ∀ t ∈ owner, s.draft.Admits t)
    (constructors : ∀ t ∈ owner, f.name = constructorName → f.traits.isStatic = true) :
    (register owner f s).Builds earlier s fun _ _ => True := by
  cases owner with
  | some owner =>
    have hnew : (s.program.addFunction f).2.function (s.program.addFunction f).1 = f := by
      rw [Program.function_addFunction, if_pos rfl]
    rw [register_owner]
    dsimp only
    split
    · exact Leads.of_steps hs (.single (.refuse f formed own free))
    · rename_i joins
      rw [hnew] at joins
      exact ⟨.of_steps hs (.single (.addMethod owner f formed own free (object owner rfl)
        (constructors owner rfl) (admitted owner rfl) joins)), trivial⟩
  | none =>
    simp only [register]
    split
    · exact .fail hs _
    · rename_i hfresh
      have fresh : s.module.declaresFunction s.program f.signature = false := by
        simpa using hfresh
      exact ⟨.of_steps hs (.single (.addFunction f formed own free fresh)), trivial⟩

theorem gives_functionName (s : State) :
    (functionName s).Gives s
      fun named => ∀ t ∈ named.1, s.program.types.isObject t = true ∧ s.draft.Admits t := by
  refine (keeps_expect s .identifier).gives fun name t _ ht => ?_
  refine Step.Keeps.gives rfl fun dotted u _ hu => ?_
  split
  · refine (keeps_expect u .identifier).gives fun method v _ hv => ?_
    have same : v.draft = s.draft := hv.trans (hu.trans ht)
    split
    · rename_i owner found
      rw [State.ownObject?, Option.filter_eq_some_iff, Bool.and_eq_true] at found
      obtain ⟨found, declared, object⟩ := found
      refine ⟨rfl, ?_⟩
      rintro _ ⟨⟩
      have program : v.program = s.program := congrArg Draft.program same
      rw [← program, ← same]
      obtain ⟨own, mem, named⟩ := List.any_eq_true.1 declared
      have called := List.find?_some found
      exact ⟨object, List.mem_of_find?_eq_some found, own, mem,
        (eq_of_beq named).trans (eq_of_beq called).symm⟩
    · rfl
  · exact ⟨rfl, nofun⟩

theorem isStatic_of_new {owner : TypeId} {name : String} {traits : Traits} {isExplicit : Bool}
    (h : name = constructorName) :
    (((impliedTraits (some owner) name).union traits).union { isExplicit }).isStatic = true := by
  simp [impliedTraits, Traits.union, h]

theorem builds_functionDeclaration (line : Nat) {s : State} (hs : s.draft.Closed earlier) :
    (functionDeclaration line s).Builds earlier s fun _ _ => True := by
  refine ((gives_functionName s).builds hs).andThen fun named t le h owned => ?_
  obtain ⟨owner, name⟩ := named
  have pending : (Step.ofPair t.takePending t.size_takePending).Builds earlier t
      fun _ _ => True := ⟨.of_draft_eq h.closed rfl, trivial⟩
  refine pending.andThen fun marker u le' h' _ => ?_
  have read := builds_bracketed h'.closed .parenOpen .parenClose
    (fun v _ => (parameters v).mapError (·.within "function definition"))
    fun v _ hv => (builds_parameters v (hv ▸ h'.closed)).mapError _
  refine read.andThen fun parameters v le'' h'' hparameters => ?_
  refine (builds_optionalTraits h''.closed).andThen fun traits w le3 h3 _ => ?_
  refine (builds_returnType h3.closed).andThen fun declared x le4 h4 hdeclared => ?_
  refine (builds_body _ h4.closed).andThen fun body y le5 h5 hbody => ?_
  have behind_parameters := (h3.extension.trans h4.extension).trans h5.extension
  have all := ((((h.trans h').trans h'').trans h3).trans h4).trans h5
  refine builds_register h5.closed ⟨⟨?_, ?_⟩, hbody⟩ rfl rfl ?_ ?_ ?_
  · exact fun x hx =>
      ⟨behind_parameters.knows (hparameters x hx).1, (hparameters x hx).2⟩
  · cases declared with
    | none => exact h5.closed.program.knows_primitive .void
    | some type => exact h5.extension.knows (hdeclared type rfl)
  · intro t' ht
    have hobject := (owned t' ht).1
    exact (all.extension.objects t' (Program.knows_of_isObject hobject)).trans hobject
  · exact fun t' ht => (owned t' ht).2.steps hs.toGrounded all.steps
  · rintro t' ht hname
    obtain rfl : owner = some t' := ht
    exact isStatic_of_new hname

end ObjectLang.Grammar
