import ObjectLang.Compilation
set_option autoImplicit false

/-!
# The builtin module, letter by letter

Deciding something about a program reads the builtin module first. The time to find the letters of a
text grows with the square of its length, so that most of it would go into the builtin text. Here the
letters are found line by line; the compilation is the same.
-/

namespace ObjectLang

theorem toList_append_five (a b c d e : String) :
    (a ++ b ++ c ++ d ++ e).toList = [a, b, c, d, e].flatMap String.toList := by
  simp only [String.toList_append, List.flatMap_cons, List.flatMap_nil, List.append_assoc,
    List.append_nil]

namespace Builtin

def letters : List Char :=
  ["@native fn printf(str: Char) [const, public] -> Void;\n",
    "@native fn scanf(prompt: Char) [const, public] -> Char;\n",
    "@native fn malloc(size: Int) [const, public] -> Object;\n",
    "@native fn memcpy(dest: Object, src: Object, size: Int) [const, public] -> Void;\n",
    "@native fn panic(message: Char) [const, public] -> Void;\n"].flatMap String.toList

theorem toList_text : text.toList = letters := toList_append_five _ _ _ _ _

end Builtin

def Lexed.ofLetters (file : String) (letters : List Char) : Lexed :=
  let pieces := Piece.cut letters
  { file
    tokens := tokensFrom file 1 pieces
    diagnostics := (errorsFrom 1 pieces).map fun e => ⟨.error, file, e.line, e.message⟩ }

theorem Lexed.ofText_eq (file text : String) : ofText file text = ofLetters file text.toList := rfl

namespace Compilation

def newFromLetters : Compilation :=
  { diagnostics := { verbosity := .error } : Compilation }.read Builtin.moduleName
    (.ofLetters Builtin.moduleName Builtin.letters)

theorem new_eq : new = newFromLetters := by
  rw [new, withBuiltins, newFromLetters, Lexed.ofText_eq, Builtin.toList_text]

end Compilation
end ObjectLang
