import ObjectLang.Text.Blank
set_option autoImplicit false

/-!
# Import lines

    import-line := blank* "import" blank+ path ";"* blank*

The path may stand in quotes.
-/

namespace ObjectLang.Imports

def behind? : List Char → List Char → Option (List Char)
  | [], rest => some rest
  | c :: word, d :: rest => if c = d then behind? word rest else none
  | _ :: _, [] => none

/-- The path behind the word of an import line, without semicolons and quotes. -/
def barePath (rest : List Char) : List Char :=
  Text.stripWhile (· == '"')
    (Text.trimEnd (Text.dropEndWhile (· == ';') (Text.trim rest)))

def target? (line : List Char) : Option (List Char) :=
  match behind? "import".toList (Text.trim line) with
  | some (c :: rest) =>
    if Text.isBlank c then
      match barePath (c :: rest) with
      | [] => none
      | path => some path
    else none
  | _ => none

theorem behind?_append (word rest : List Char) : behind? word (word ++ rest) = some rest := by
  induction word with
  | nil => rfl
  | cons c word ih => simp [behind?, ih]

end ObjectLang.Imports
