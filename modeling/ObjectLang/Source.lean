set_option autoImplicit false

/-!
# Source files

A file is known by its path, and its module by a name that is cut out of the path.
-/

namespace ObjectLang

structure SourceFile where
  path : String
  text : String
  deriving DecidableEq, Repr, Inhabited

namespace SourceFile

/-- The name of the module that a file at `path` becomes: what stands behind the last slash of
    either kind, up to the first dot. -/
def nameOfPath (path : List Char) : List Char :=
  ((path.reverse.takeWhile fun c => c != '/' && c != '\\').reverse).takeWhile (· != '.')

def moduleName (s : SourceFile) : String := String.ofList (nameOfPath s.path.toList)

end SourceFile
end ObjectLang
