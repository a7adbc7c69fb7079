import ObjectLang.Builtin
import ObjectLang.Source
import ObjectLang.Typing.Function
set_option autoImplicit false

/-!
# Compilation

Files are compiled in three phases: their texts are cut into tokens, the tokens are read into
modules, and the modules are checked. A phase runs over all files, and the next one begins only if
no error is recorded. What has been read stays, so more files can be compiled later.
-/

namespace ObjectLang

structure Compilation where
  program : Program := {}
  diagnostics : Diagnostics := {}
  modules : List Module := []
  deriving Inhabited

namespace Compilation

def read (c : Compilation) (name : String) (tokens : Lexed) : Compilation :=
  let s := Grammar.readFile c.modules name (.ofTokens tokens.file tokens.tokens) c.program
    c.diagnostics
  { program := s.program, diagnostics := s.diagnostics, modules := c.modules ++ [s.module] }

def withBuiltins (verbosity : Verbosity) : Compilation :=
  { diagnostics := { verbosity } : Compilation }.read Builtin.moduleName
    (.ofText Builtin.moduleName Builtin.text)

def new : Compilation := withBuiltins .error

def unchecked (c : Compilation) : Typing.State :=
  { program := c.program, diagnostics := c.diagnostics }

def resume (c : Compilation) (s : Typing.State) : Compilation :=
  { c with program := s.program, diagnostics := s.diagnostics }

def checkFrom (c : Compilation) (first : Nat) (s : Typing.State) : Typing.State :=
  ((List.range c.modules.length).drop first).foldl
    (fun s index => Typing.checkModule c.modules index s) s

def addSources (c : Compilation) (files : List SourceFile) : Compilation :=
  { c with
    diagnostics := files.foldl (fun d file => d.addSource file.path file.text) c.diagnostics }

def lex (file : SourceFile) : String × Lexed := (file.moduleName, .ofText file.path file.text)

def recordLexed (c : Compilation) (files : List (String × Lexed)) : Compilation :=
  { c with diagnostics := files.foldl (fun d file => d.extend file.2.diagnostics) c.diagnostics }

def readAll (c : Compilation) (files : List (String × Lexed)) : Compilation :=
  files.foldl (fun c file => c.read file.1 file.2) c

def checkAll (c : Compilation) : Compilation := c.resume (c.checkFrom 1 c.unchecked)

def gate (c : Compilation) (next : Compilation → Except CompileError Unit × Compilation) :
    Except CompileError Unit × Compilation :=
  if c.diagnostics.hasError then
    let (e, diagnostics) := c.diagnostics.fail
    (.error e, { c with diagnostics })
  else next c

def compile (c : Compilation) (files : List SourceFile) :
    Except CompileError Unit × Compilation :=
  let lexed := files.map lex
  ((c.addSources files).recordLexed lexed).gate fun c =>
    (c.readAll lexed).gate fun c =>
      c.checkAll.gate fun c => (.ok (), c)

def module? (c : Compilation) (name : String) : Option Module :=
  c.modules.find? fun m => m.name == name

/-- The module that a run starts from: the last one, unless there is only the builtin one. -/
def entry? (c : Compilation) : Option Module := (c.modules.drop 1).getLast?

def hasFunction (c : Compilation) (module name : String) : Bool :=
  (c.module? module).any fun m => !(m.group c.program name).isEmpty

def hasObject (c : Compilation) (module name : String) : Bool :=
  (c.module? module).any fun m =>
    (m.objectTypes c.program).any fun t => c.program.types.name t == name

end Compilation
end ObjectLang
