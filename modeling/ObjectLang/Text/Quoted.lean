set_option autoImplicit false

/-!
# Quoted text

A string literal stands between double quotes. Inside, a backslash and the character after it
stand for one character: a line feed, a tab and the zero character have the letters `n`, `t` and
`0`, and any other character stands for itself.
-/

namespace ObjectLang.Text

def escaped : Char → Char
  | 'n' => '\n'
  | 't' => '\t'
  | '0' => '\x00'
  | c => c

/-- Resolves the backslashes of a text. A backslash at the very end stands for itself. -/
def unescape : List Char → List Char
  | [] => []
  | ['\\'] => ['\\']
  | '\\' :: c :: cs => escaped c :: unescape cs
  | c :: cs => c :: unescape cs

/-- Removes one double quote from either end, if there is one at both. -/
def unwrap (cs : List Char) : List Char :=
  match cs with
  | '"' :: inner => if inner.getLast? = some '"' then inner.dropLast else cs
  | _ => cs

def unquote (literal : String) : String :=
  String.ofList (unescape (unwrap literal.toList))

end ObjectLang.Text
