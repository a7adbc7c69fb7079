import ObjectLang.Machine.Fault
import ObjectLang.Text.Blank
set_option autoImplicit false

/-!
# The console

A program reads lines of input and writes text. The receiver of the text may be full after some
number of bytes, and it may refuse to be flushed. While the input is open, more of it may come, and
a line that is not there yet stops the program.
-/

namespace ObjectLang

structure Console where
  /-- The input that was not read yet. -/
  input : List UInt8 := []
  output : String := ""
  /-- The most bytes that the output can have. -/
  limit : Option Nat := none
  refusesFlush : Bool := false
  /-- Whether more input may come. -/
  isOpen : Bool := false
  deriving Inhabited

namespace Console

def lineFeed : UInt8 := 10

/-- Writes one part of a text, whole or not at all. An empty part always succeeds. -/
def writePart (c : Console) (part : String) : Except Fault.Cause Unit × Console :=
  let size := c.output.utf8ByteSize + part.utf8ByteSize
  if part.isEmpty || c.limit.all (size ≤ ·) then
    (.ok (), { c with output := c.output ++ part })
  else (.error (.streamFailure "output full"), c)

def write (c : Console) : List String → Except Fault.Cause Unit × Console
  | [] => (.ok (), c)
  | part :: rest =>
    match c.writePart part with
    | (.ok (), c) => c.write rest
    | (.error e, c) => (.error e, c)

def flush (c : Console) : Except Fault.Cause Unit :=
  if c.refusesFlush then .error (.streamFailure "flush refused") else .ok ()

def splitLine : List UInt8 → List UInt8 × List UInt8
  | [] => ([], [])
  | b :: rest =>
    if b = lineFeed then ([b], rest)
    else
      let (line, rest) := splitLine rest
      (b :: line, rest)

def dropLineEnd (line : String) : String :=
  String.ofList (Text.dropEndWhile (fun c => c == '\n' || c == '\r') line.toList)

def lineText (line : List UInt8) : Except Fault.Cause String :=
  match String.fromUTF8? ⟨line.toArray⟩ with
  | some text => .ok (dropLineEnd text)
  | none => .error (.streamFailure "stream did not contain valid UTF-8")

/-- Reads a line without its ending. Behind the end of the input all lines are empty. -/
def readLine (c : Console) : Except Fault.Cause String × Console :=
  if c.isOpen && c.input.isEmpty then (.error .inputPending, c)
  else (lineText (splitLine c.input).1, { c with input := (splitLine c.input).2 })

theorem splitLine_append (bytes : List UInt8) :
    (splitLine bytes).1 ++ (splitLine bytes).2 = bytes := by
  induction bytes with
  | nil => rfl
  | cons b rest ih =>
    simp only [splitLine]
    split
    · rfl
    · simp [ih]

end Console
end ObjectLang
