import ObjectLang.Diagnostics
import ObjectLang.SyntaxError
import ObjectLang.Token.Basic
import ObjectLang.Token.Piece
set_option autoImplicit false

/-!
# The tokens of a file

Pieces get their line by counting the line feeds before them. Pieces with a kind other than
whitespace become tokens, pieces without a kind become errors, and one more token closes the file.
-/

namespace ObjectLang

structure Lexed where
  file : String
  tokens : List Token
  diagnostics : List Diagnostic
  deriving Repr

namespace Lexed

def lineFeeds (p : Piece) : Nat := p.text.count '\n'

def tokensFrom (file : String) (line : Nat) : List Piece → List Token
  | [] => [.endOfFile file line]
  | p :: rest =>
    let later := tokensFrom file (line + lineFeeds p) rest
    match p.kind with
    | none | some .whitespace => later
    | some kind => ⟨kind, String.ofList p.text, line⟩ :: later

def errorsFrom (line : Nat) : List Piece → List SyntaxError
  | [] => []
  | p :: rest =>
    let later := errorsFrom (line + lineFeeds p) rest
    match p.kind with
    | none => ⟨.invalidToken (String.ofList p.text), line⟩ :: later
    | some _ => later

def ofText (file text : String) : Lexed :=
  let pieces := Piece.cut text.toList
  { file
    tokens := tokensFrom file 1 pieces
    diagnostics := (errorsFrom 1 pieces).map fun e => ⟨.error, file, e.line, e.message⟩ }

def hasError (l : Lexed) : Bool := !l.diagnostics.isEmpty

end Lexed
end ObjectLang
