import ObjectLang.NameMap
import ObjectLang.Text.Blank
import ObjectLang.Text.Lines
set_option autoImplicit false

/-!
# Diagnostics

A log of errors and warnings. Entries are kept in the order in which they were recorded; listing
them groups them by file, the files in the order of their names. The log also knows the current
file and line, for messages whose place is not given.
-/

namespace ObjectLang

inductive Severity
  | warning | error
  deriving DecidableEq, Repr

structure Diagnostic where
  severity : Severity
  file : String
  line : Nat
  message : String
  deriving DecidableEq, Repr

/-- How much is recorded: errors always, warnings from `warning` upwards. -/
inductive Verbosity
  | quiet | error | warning | log
  deriving DecidableEq, Repr

def Verbosity.recordsWarnings : Verbosity → Bool
  | .quiet | .error => false
  | .warning | .log => true

inductive CompileError
  | unreadable (path reason : String)
  | rejected (count : Nat) (report : String)
  deriving DecidableEq, Repr

def CompileError.message : CompileError → String
  | .unreadable path reason => "could not read source file '" ++ path ++ "': " ++ reason
  | .rejected count report =>
    "compilation failed with " ++ toString count ++ " error(s)\n" ++ report

structure Diagnostics where
  entries : Array Diagnostic := #[]
  /-- The texts that reports quote, by file. -/
  sources : NameMap String := .empty
  file : String := ""
  line : Nat := 0
  verbosity : Verbosity := .warning

namespace Diagnostics

instance : Inhabited Diagnostics := ⟨{}⟩

/-- Records an entry, unless it is a warning and warnings are not wanted. -/
def push (d : Diagnostics) (entry : Diagnostic) : Diagnostics :=
  match entry.severity with
  | .error => { d with entries := d.entries.push entry }
  | .warning =>
    if d.verbosity.recordsWarnings then { d with entries := d.entries.push entry } else d

def extend (d : Diagnostics) (entries : List Diagnostic) : Diagnostics := entries.foldl push d

def error (d : Diagnostics) (message : String) : Diagnostics :=
  d.push ⟨.error, d.file, d.line, message⟩

def warn (d : Diagnostics) (message : String) : Diagnostics :=
  d.push ⟨.warning, d.file, d.line, message⟩

def errorAt (d : Diagnostics) (line : Nat) (message : String) : Diagnostics :=
  { d with line }.error message

def warnAt (d : Diagnostics) (line : Nat) (message : String) : Diagnostics :=
  { d with line }.warn message

def addSource (d : Diagnostics) (file text : String) : Diagnostics :=
  { d with sources := d.sources.insert file text }

/-- All entries, those of one file together in the order of their recording. -/
def grouped (d : Diagnostics) : List Diagnostic :=
  d.entries.toList.mergeSort fun a b => !decide (b.file < a.file)

def isError (entry : Diagnostic) : Bool := entry.severity == .error

def errors (d : Diagnostics) : List Diagnostic := d.grouped.filter isError

def warnings (d : Diagnostics) : List Diagnostic := d.grouped.filter fun e => !isError e

def errorCount (d : Diagnostics) : Nat := d.entries.toList.countP isError

def hasError (d : Diagnostics) : Bool := d.entries.any isError

/-- The line of the source text that an entry points to; line zero stands for the first. -/
def quoted (d : Diagnostics) (entry : Diagnostic) : Option String := do
  let text ← d.sources.find? entry.file
  let line ← (Text.lines text.toList)[entry.line - 1]?
  pure (String.ofList (Text.trim line))

def reportEntry (d : Diagnostics) (entry : Diagnostic) : String :=
  entry.message ++ " at line " ++ toString entry.line ++ " file: " ++ entry.file ++ "\n" ++
    match d.quoted entry with
    | some line => "    " ++ line ++ "\n"
    | none => ""

def report (d : Diagnostics) : String := String.join (d.errors.map d.reportEntry)

def fail (d : Diagnostics) : CompileError × Diagnostics :=
  (.rejected d.errorCount d.report, { d with entries := #[] })

theorem push_error (d : Diagnostics) (file message : String) (line : Nat) :
    (d.push ⟨.error, file, line, message⟩).entries =
      d.entries.push ⟨.error, file, line, message⟩ := rfl

theorem hasError_fail (d : Diagnostics) : d.fail.2.hasError = false := by
  simp [fail, hasError]

end Diagnostics
end ObjectLang
