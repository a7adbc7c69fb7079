import ObjectLang.Grammar.State
set_option autoImplicit false

/-!
# Type names

    type := "[" type "]" | "<" type ">" | "&" "&"* identifier | identifier

A name must be visible in the file that is being read.
-/

namespace ObjectLang.Grammar

def State.listOf (s : State) (element : TypeId) : TypeId × State :=
  let (list, program) := s.program.listOf element
  (list, { s with program, module := s.module.addType list })

def State.arrayOf (s : State) (element : TypeId) : TypeId × State :=
  let (array, program) := s.program.arrayOf element
  (array, { s with program })

def State.referenceTo (s : State) (referent : TypeId) : TypeId × State :=
  let (reference, program) := s.program.referenceTo referent
  (reference, { s with program })

theorem State.size_listOf (s : State) (element : TypeId) : (s.listOf element).2.size = s.size := rfl

theorem State.size_arrayOf (s : State) (element : TypeId) :
    (s.arrayOf element).2.size = s.size := rfl

theorem State.size_referenceTo (s : State) (referent : TypeId) :
    (s.referenceTo referent).2.size = s.size := rfl

def plainTypeName (s : State) : Step TypeId s.size :=
  (s.expect .identifier).andThen fun name t _ =>
    match t.module.findType? t.program name.text with
    | some type => .pure type t
    | none => .fail ⟨.unknownType name.text, name.line⟩ t

def skipAmpersands (line : Nat) (s : State) : Step Unit s.size :=
  match s.take? with
  | none => .pure () s
  | some k =>
    if k.token.kind = .ampersand then
      let t : State := { k.behind with
        diagnostics := k.behind.diagnostics.warnAt line "multiple references" }
      have lt : t.size < s.size := k.lt
      (skipAmpersands line t).widen (Nat.le_of_lt lt)
    else .pure () s
termination_by s.size

def typeName (s : State) : Step TypeId s.size :=
  match s.take? with
  | none => .fail s.endError s
  | some k =>
    have _ := k.lt
    match k.token.kind with
    | .bracketOpen =>
      ((typeName k.behind).andThen fun element t _ =>
        (t.expect .bracketClose).andThen fun _ u _ =>
          if element = .void then .fail ⟨.voidElement, k.token.line⟩ u
          else .ofPair (u.listOf element) (u.size_listOf element)).widen k.le
    | .less =>
      ((typeName k.behind).andThen fun element t _ =>
        (t.expect .greater).andThen fun _ u _ =>
          .ofPair (u.arrayOf element) (u.size_arrayOf element)).widen k.le
    | .ampersand =>
      ((skipAmpersands k.token.line k.behind).andThen fun _ t _ =>
        (plainTypeName t).andThen fun referent u _ =>
          .ofPair (u.referenceTo referent) (u.size_referenceTo referent)).widen k.le
    | _ => plainTypeName s
termination_by s.size

end ObjectLang.Grammar
