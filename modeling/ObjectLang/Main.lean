import ObjectLang.Imports.Order
import ObjectLang.Machine.Run
set_option autoImplicit false

/-!
# The command line

Compiles a file with everything that it imports, and runs it. The files are looked up first: the
order of files is asked for until no file is missing.
-/

namespace ObjectLang

structure Options where
  file : String := "main.kv"
  /-- List the tokens of all files on the error stream, and stop. -/
  tokens : Bool := false
  /-- Stop after checking. -/
  check : Bool := false
  help : Bool := false

namespace Options

def usage : String :=
  "Usage: objectlang [OPTIONS] [FILE]\n\n" ++
  "Arguments:\n" ++
  "  [FILE]  The entry file. Files it imports are compiled before it [default: main.kv]\n\n" ++
  "Options:\n" ++
  "      --tokens  List the tokens of every file and stop after lexing\n" ++
  "      --check   Stop after type checking\n" ++
  "  -h, --help    Print help\n"

def ofArguments (o : Options) (named : Bool) : List String → Except String Options
  | [] => .ok o
  | "--tokens" :: rest => ofArguments { o with tokens := true } named rest
  | "--check" :: rest => ofArguments { o with check := true } named rest
  | "--help" :: rest | "-h" :: rest => ofArguments { o with help := true } named rest
  | argument :: rest =>
    if argument.startsWith "-" || named then
      .error ("error: unexpected argument '" ++ argument ++ "' found\n\n" ++ usage)
    else ofArguments { o with file := argument } true rest

end Options

/-- The bound on nested calls and on rounds of loops, which no run comes near. -/
def runBound : Nat := 1000000000000000000

def failureText : IO.Error → String
  | .noFileOrDirectory _ _ details | .permissionDenied (some _) _ details
  | .inappropriateType (some _) _ details | .invalidArgument (some _) _ details => details
  | e => toString e

def readText (path : String) : IO (Except String String) := do
  match ← (IO.FS.readBinFile path).toBaseIO with
  | .error e => return .error (failureText e)
  | .ok bytes =>
    match String.fromUTF8? bytes with
    | some text => return .ok text
    | none => return .error "stream did not contain valid UTF-8"

partial def gatherFiles (entry : String) (files : NameMap String) :
    IO (Except CompileError (List SourceFile)) := do
  match Imports.order files entry with
  | .ok sources => return .ok sources
  | .error path =>
    match ← readText path with
    | .ok text => gatherFiles entry (files.insert path text)
    | .error reason => return .error (.unreadable path reason)

def showOutput (s : Machine.State) (shown : Nat) : IO Unit := do
  let output ← IO.getStdout
  output.putStr (String.ofList (s.console.output.toList.drop shown))
  output.flush

/-- Runs a compilation on the lines that have come so far. A run that asks for a line more is
    repeated with it; it does the same up to there. -/
partial def runOnStreams (c : Compilation) (shown : Nat) (console : Console) : IO UInt32 := do
  match c.run runBound console with
  | .done _ s =>
    showOutput s shown
    return 0
  | .fault (.at _ .inputPending) s =>
    showOutput s shown
    let line ← (← IO.getStdin).getLine
    runOnStreams c s.console.output.length
      { input := console.input ++ line.toUTF8.toList, isOpen := !line.isEmpty }
  | .fault e s =>
    showOutput s shown
    IO.eprintln e.message
    return 1
  | .exhausted => return 1

def runOptions (o : Options) : IO UInt32 := do
  match ← gatherFiles o.file .empty with
  | .error e =>
    IO.eprintln e.message
    return 1
  | .ok files =>
    if o.tokens then
      for file in files do
        for t in (Compilation.lex file).2.tokens do
          IO.eprintln (file.path ++ ":" ++ toString t.line ++ ": " ++ t.describe)
      return 0
    else
      match Compilation.new.compile files with
      | (.error e, _) =>
        IO.eprintln e.message
        return 1
      | (.ok (), c) => if o.check then return 0 else runOnStreams c 0 { isOpen := true }

end ObjectLang

def main (arguments : List String) : IO UInt32 := do
  match ObjectLang.Options.ofArguments {} false arguments with
  | .error message =>
    IO.eprintln message
    return 2
  | .ok o =>
    if o.help then
      IO.print ObjectLang.Options.usage
      return 0
    else ObjectLang.runOptions o
