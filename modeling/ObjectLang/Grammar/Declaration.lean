import ObjectLang.Grammar.Statement
set_option autoImplicit false

/-!
# Declarations

    type     := "type" identifier ("<-" type)? "{" (identifier ":" type ";")* "}"
    use      := "use" identifier "::" identifier ";"
    function := "fn" (identifier ".")? identifier "(" parameters ")" traits? body
    traits   := "[" (identifier ("," identifier)*)? "]"
    body     := ("->" type)? ("=>" expression ";" | block | ";")

A body is a mere semicolon only behind the marker `@native`. A declaration with an error in its
head is refused; what it would have declared stays unknown.
-/

namespace ObjectLang.Grammar

def declareField (owner : TypeId) (ownerName : String) (name : Token) (type : TypeId)
    (s : State) : Step Unit s.size :=
  if ((s.program.types.get owner).ownField? name.text).isSome then
    .fail ⟨.duplicateField ownerName name.text, name.line⟩ s
  else if type = .void then .fail ⟨.voidField name.text, name.line⟩ s
  else
    .ok ()
      { s with
        program.types := s.program.types.addField owner name.text type }
      (Nat.le_refl _)

def fieldAt (owner : TypeId) (ownerName : String) {s : State} (k : Taken s) :
    Step Unit k.behind.size :=
  (Step.ofExcept (Cursor.demand .identifier k.token) k.behind).andThen fun name t _ =>
    (t.expect .colon).andThen fun _ u _ =>
      (typeName u).andThen fun type v _ =>
        (v.semicolon "field definition").andThen fun _ w _ =>
          declareField owner ownerName name type w

def fields (owner : TypeId) (ownerName : String) (s : State) : Step Unit s.size :=
  match s.take? with
  | none => .pure () s
  | some k =>
    have _ := k.lt
    match fieldAt owner ownerName k with
    | .ok () t le => (fields owner ownerName t).widen (Nat.le_trans le k.le)
    | .error e t le =>
      have lt := State.size_recover_lt k e le
      if e.isEndOfTokens then .ok () (t.record e) (Nat.le_of_lt (State.size_record_lt k e le))
      else (fields owner ownerName (t.record e).recover).widen (Nat.le_of_lt lt)
termination_by s.size

def parentType (s : State) : Step (Option TypeId) s.size :=
  (s.accept .backArrow).andThen fun derived t _ =>
    if derived then
      (typeName t).andThen fun type u _ =>
        if u.program.types.isObject type then .pure (some type) u
        else
          .ok none (u.record ⟨.nonObjectParent (u.program.types.name type), t.cursor.line⟩)
            (Nat.le_refl _)
    else .pure none t

def State.declare (s : State) (name : String) (parent : Option TypeId) : TypeId × State :=
  let (id, types) := s.program.types.declare name parent
  (id, { s with program.types := types, module := s.module.addType id })

theorem State.size_declare (s : State) (name : String) (parent : Option TypeId) :
    (s.declare name parent).2.size = s.size := rfl

def typeDeclaration (s : State) : Step Unit s.size :=
  (s.expect .identifier).andThen fun name t _ =>
    if t.module.declaresType t.program name.text then
      .fail ⟨.duplicateType name.text, name.line⟩ t
    else
      (parentType t).andThen fun parent u _ =>
        (Step.ofPair (u.declare name.text parent) (u.size_declare _ _)).andThen fun id v _ =>
          v.bracketed .braceOpen .braceClose fun w _ => fields id name.text w

def importGroup (item : Token) (s : State) : List FunctionId → State
  | [] => s
  | id :: rest =>
    if (s.program.function id).traits.isPublic then
      importGroup item { s with module := s.module.importFunction id } rest
    else importGroup item (s.record ⟨.privateImport item.text, item.line⟩) rest

theorem size_importGroup (item : Token) (s : State) (ids : List FunctionId) :
    (importGroup item s ids).size = s.size := by
  induction ids generalizing s with
  | nil => rfl
  | cons id rest ih =>
    simp only [importGroup]
    split
    · exact ih _
    · exact ih _

def importObject (s : State) (object : TypeId) : State :=
  let methods := (s.program.types.ownMethods object).filter fun id =>
    (s.program.function id).traits.isPublic
  { s with module := methods.foldl Module.importFunction (s.module.importType object) }

/-- Imports what a module calls `item`: all its functions of that name, or else its object type. -/
def importFrom (source : Module) (item : Token) (s : State) : Step Unit s.size :=
  let group := source.group s.program item.text
  if group.isEmpty then
    match (source.objectTypes s.program).find? fun t =>
        s.program.types.name t == item.text with
    | some object => .ok () (importObject s object) (Nat.le_refl _)
    | none => .fail ⟨.unknownImport item.text source.name, item.line⟩ s
  else .ok () (importGroup item s group) (Nat.le_of_eq (size_importGroup item s group))

def useDeclaration (earlier : List Module) (s : State) : Step Unit s.size :=
  (s.expect .identifier).andThen fun name t _ =>
    (t.expect .namespaceMark).andThen fun _ u _ =>
      (u.expect .identifier).andThen fun item v _ =>
        (v.semicolon "use directive").andThen fun _ w _ =>
          match earlier.find? fun m => m.name == name.text with
          | some source => importFrom source item w
          | none => .fail ⟨.unknownModule name.text, name.line⟩ w

def commaOrEnd {α : Type} (s : State) (atEnd : α)
    (more : (t : State) → t.size < s.size → Step α t.size) : Step α s.size :=
  match s.take? with
  | none => .pure atEnd s
  | some k =>
    (Step.ofExcept (Cursor.demand .comma k.token) k.behind).andThen
      (fun _ t le => more t (k.lt_of_le le)) |>.widen k.le

/-- The parameters up to the end of the current brackets. One of type `Void` is recorded and left
    out. -/
def parameters (s : State) : Step (List Parameter) s.size :=
  match s.take? with
  | none => .pure [] s
  | some _ =>
    (s.expect .identifier).andThen fun name t _ =>
      (t.expect .colon).andThen fun _ u _ =>
        (typeName u).andThen fun type v _ =>
          if type = .void then
            let w := v.record ⟨.voidParameter name.text, name.line⟩
            have _ : w.size = v.size := rfl
            commaOrEnd w [] fun x _ => parameters x
          else
            (commaOrEnd v [] fun x _ => parameters x).map fun rest =>
              ⟨name.text, type, name.line⟩ :: rest
termination_by s.size

/-- The traits up to the end of the current brackets. Unknown ones are recorded and left out. -/
def traitNames (s : State) : Step Traits s.size :=
  match s.take? with
  | none => .pure {} s
  | some _ =>
    (s.expect .identifier).andThen fun name t _ =>
      match Traits.named? name.text with
      | some one =>
        (commaOrEnd t {} fun u _ => traitNames u).map one.union
      | none =>
        let u := t.record ⟨.unknownTrait name.text, name.line⟩
        have _ : u.size = t.size := rfl
        commaOrEnd u {} fun v _ => traitNames v
termination_by s.size

def optionalTraits (s : State) : Step Traits s.size :=
  if s.cursor.check .bracketOpen then
    (s.bracketed .bracketOpen .bracketClose fun t _ => traitNames t).mapError
      (·.within "trait list")
  else .pure {} s

def returnType (s : State) : Step (Option TypeId) s.size :=
  (s.accept .arrow).andThen fun declared t _ =>
    if declared then (typeName t).map some else .pure none t

def body (native : Bool) (s : State) : Step (List Statement) s.size :=
  match s.take? with
  | none => .fail s.endError s
  | some k =>
    match k.token.kind with
    | .doubleArrow =>
      ((expression k.behind).andThen fun value t _ =>
        (t.semicolon "function definition").map fun _ =>
          [.ret value k.token.line]).widen k.le
    | .braceOpen => (k.inside .braceClose fun t _ => statements t).widen k.le
    | kind =>
      if native ∧ kind = .semicolon then (Step.pure [] k.behind).widen k.le
      else .error ⟨.invalidSignature k.token.text, k.token.line⟩ k.behind k.le

def register (owner : Option TypeId) (f : Function) (s : State) : Step Unit s.size :=
  match owner with
  | some owner =>
    let (id, program) := s.program.addFunction f
    match (Shared.addMethod owner id).run ⟨program, s.diagnostics⟩ with
    | .ok _ ⟨program, diagnostics⟩ =>
      .ok () { s with program, diagnostics, module := s.module.addFunction id } (Nat.le_refl _)
    | .error e ⟨program, diagnostics⟩ =>
      .error e { s with program, diagnostics } (Nat.le_refl _)
  | none =>
    if s.module.declaresFunction s.program f.signature then
      .fail ⟨.duplicateFunction f.name, f.line⟩ s
    else
      let (id, program) := s.program.addFunction f
      .ok () { s with program, module := s.module.addFunction id } (Nat.le_refl _)

/-- What becomes of a method depends on whether it can be one. -/
theorem register_owner (owner : TypeId) (f : Function) (s : State) :
    register (some owner) f s =
      let p := (s.program.addFunction f).2
      let id := (s.program.addFunction f).1
      match p.methodFault? owner (p.function id) with
      | some e => .error e { s with program := p } (Nat.le_refl _)
      | none =>
        .ok () { s with program := p.adopt owner id, module := s.module.addFunction id }
          (Nat.le_refl _) := by
  unfold register
  dsimp only
  rw [Shared.run_addMethod]
  cases (s.program.addFunction f).2.methodFault? owner
    ((s.program.addFunction f).2.function (s.program.addFunction f).1) <;> rfl

def State.ownObject? (s : State) (name : String) : Option TypeId :=
  (s.module.findType? s.program name).filter fun t =>
    s.module.declaresType s.program name && s.program.types.isObject t

def functionName (s : State) : Step (Option TypeId × String) s.size :=
  (s.expect .identifier).andThen fun name t _ =>
    (t.accept .dot).andThen fun dotted u _ =>
      if dotted then
        (u.expect .identifier).andThen fun method v _ =>
          match v.ownObject? name.text with
          | some owner => .pure (some owner, method.text) v
          | none => .fail ⟨.unknownType name.text, name.line⟩ v
      else .pure (none, name.text) u

def State.takePending (s : State) : Option Marker × State :=
  (s.pending, { s with pending := none })

theorem State.size_takePending (s : State) : s.takePending.2.size = s.size := rfl

def impliedTraits (owner : Option TypeId) (name : String) : Traits :=
  { isStatic := owner.isSome && name == constructorName }

def functionDeclaration (line : Nat) (s : State) : Step Unit s.size :=
  (functionName s).andThen fun (owner, name) t _ =>
    (Step.ofPair t.takePending t.size_takePending).andThen fun marker u _ =>
      ((u.bracketed .parenOpen .parenClose fun v _ =>
          (parameters v).mapError (·.within "function definition"))).andThen
        fun parameters v _ =>
          (optionalTraits v).andThen fun traits w _ =>
            (returnType w).andThen fun declared x _ =>
              (body (marker == some .native) x).andThen fun body y _ =>
                let implied := impliedTraits owner name
                register owner
                  { name
                    returnType := declared.getD .void
                    parameters
                    body
                    traits := (implied.union traits).union { isExplicit := declared.isSome }
                    marker
                    module := y.module.index
                    line } y

def markerAt {s : State} (k : Taken s) : Step Unit k.behind.size :=
  match Marker.ofText? k.token.text with
  | some marker => .ok () { k.behind with pending := some marker } (Nat.le_refl _)
  | none => .fail ⟨.unknownMarker k.token.text, k.token.line⟩ k.behind

end ObjectLang.Grammar
