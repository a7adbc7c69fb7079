import ObjectLang.Grammar.File
import ObjectLang.Token.Lexed
set_option autoImplicit false

/-!
# Builtin functions

The functions that the host provides. They are declared like others, in a module that every file
sees.
-/

namespace ObjectLang.Builtin

def moduleName : String := "_c_builtin_"

def text : String :=
  "@native fn printf(str: Char) [const, public] -> Void;\n" ++
  "@native fn scanf(prompt: Char) [const, public] -> Char;\n" ++
  "@native fn malloc(size: Int) [const, public] -> Object;\n" ++
  "@native fn memcpy(dest: Object, src: Object, size: Int) [const, public] -> Void;\n" ++
  "@native fn panic(message: Char) [const, public] -> Void;\n"

end ObjectLang.Builtin
