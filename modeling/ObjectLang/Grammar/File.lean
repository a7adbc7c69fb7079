import ObjectLang.Grammar.Declaration
set_option autoImplicit false

/-!
# Files

    file := (type | use | marker | function | import-line | statement)* end of file

Declarations take effect in the order in which they stand. The statements between them are the body
of the file. Import lines begin with the word "import" and say which files are read before this one;
by the time a file is read they have done so and are skipped.
-/

namespace ObjectLang.Grammar

def importWord : String := "import"

def moduleBodyName : String := "<module>"

def skipImport {s : State} (k : Taken s) : State :=
  { k.behind with cursor := k.behind.cursor.skipTo fun t => t.line != k.token.line }

def State.skipToDeclaration (s : State) : State :=
  { s with cursor := s.cursor.skipTo fun t => t.kind.startsDeclaration }

theorem size_skipImport_le {s : State} (k : Taken s) : (skipImport k).size ≤ k.behind.size :=
  Cursor.size_skipTo_le _ _

theorem State.size_skipToDeclaration_le (s : State) : s.skipToDeclaration.size ≤ s.size :=
  Cursor.size_skipTo_le _ _

def declarationAt? (earlier : List Module) {s : State} (k : Taken s) :
    Option (Step Unit k.behind.size) :=
  match k.token.kind with
  | .fnWord => some (functionDeclaration k.token.line k.behind)
  | .typeWord => some (typeDeclaration k.behind)
  | .useWord => some (useDeclaration earlier k.behind)
  | .marker => some (markerAt k)
  | .identifier =>
    if k.token.text = importWord then some (.ok () (skipImport k) (size_skipImport_le k)) else none
  | _ => none

def items (earlier : List Module) (s : State) : List Statement × State :=
  match s.take? with
  | none => ([], s)
  | some k =>
    have _ := k.lt
    if k.token.kind = .endOfFile then ([], s)
    else
      match declarationAt? earlier k with
      | some (.ok () t _) => items earlier t
      | some (.error e t le) =>
        have _ : (t.record e).size ≤ k.behind.size := le
        have _ := (t.record e).size_skipToDeclaration_le
        items earlier (t.record e).skipToDeclaration
      | none =>
        match statementAt k with
        | .ok statement t _ =>
          let (rest, u) := items earlier t
          (statement :: rest, u)
        | .error e t le =>
          have _ := State.size_record_lt k e le
          have _ := State.size_recover_lt k e le
          if e.hasRecovered then items earlier (t.record e)
          else items earlier (t.record e).recover
termination_by s.size

/-- Before anything of a file is read. The functions of the first module are visible in all
    others. -/
def State.start (earlier : List Module) (name : String) (cursor : Cursor) (program : Program)
    (diagnostics : Diagnostics) : State :=
  let index := earlier.length
  let builtin := (earlier.head?.map Module.ownFunctions).getD []
  let (body, program) := program.addFunction { name := moduleBodyName, module := index, line := 1 }
  let module := builtin.foldr (fun id m => m.importFunction id)
    { Module.new name index with file := cursor.file }
  { cursor
    program
    diagnostics := { diagnostics with file := cursor.file }
    module := { module.addFunction body with body := some body } }

def State.setBody (s : State) (statements : List Statement) : State :=
  match s.module.body with
  | none => s
  | some id =>
    { s with program := s.program.modifyFunction id fun f => { f with body := statements } }

/-- Reads a file into a module with the given name, behind the modules read `earlier`. Errors are
    recorded, and the module holds what could be read. -/
def readFile (earlier : List Module) (name : String) (cursor : Cursor) (program : Program)
    (diagnostics : Diagnostics) : State :=
  let (statements, s) := items earlier (.start earlier name cursor program diagnostics)
  s.setBody statements

end ObjectLang.Grammar
