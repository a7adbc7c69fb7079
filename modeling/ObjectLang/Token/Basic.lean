import ObjectLang.Token.Kind
set_option autoImplicit false

/-!
# Tokens

The smallest parts of a program that mean something, as they stand in a file.
-/

namespace ObjectLang

/-- A token with its exact text and the line it stands on, counted from one. The token that closes
    a file has the name of the file as its text. -/
structure Token where
  kind : TokenKind
  text : String
  line : Nat
  deriving DecidableEq, Repr, Inhabited

namespace Token

def endOfFile (file : String) (line : Nat) : Token := ⟨.endOfFile, file, line⟩

/-- How messages show a token: its kind, and its text where that is not fixed by the kind. -/
def describe (t : Token) : String :=
  if t.kind.hasVariableText then t.kind.describe ++ "(" ++ t.text ++ ")" else t.kind.describe

end Token
end ObjectLang
