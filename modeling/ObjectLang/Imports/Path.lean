import ObjectLang.Text.Blank
set_option autoImplicit false

/-!
# Paths

Paths are texts whose parts are separated by slashes. Empty parts and parts `.` mean nothing, apart
from a slash or a dot at the front; paths with the same other parts lead to the same file. A part
`..` is a part like others.
-/

namespace ObjectLang.Imports

def splitParts : List Char → List (List Char)
  | [] => [[]]
  | c :: cs =>
    if c = '/' then [] :: splitParts cs
    else
      match splitParts cs with
      | [] => [[c]]
      | part :: rest => (c :: part) :: rest

def joinParts (parts : List (List Char)) : List Char := List.intercalate ['/'] parts

def isIdle (part : List Char) : Bool := part.isEmpty || part == ['.']

/-- A path as its front, if that is a slash or a dot, and the parts behind it. -/
structure Path where
  front : Option (List Char)
  parts : List (List Char)
  deriving DecidableEq, Repr

namespace Path

def ofText (text : List Char) : Path :=
  match splitParts text with
  | [] => ⟨none, []⟩
  | [part] => if part == ['.'] then ⟨some part, []⟩ else ⟨none, [part]⟩
  | part :: rest => if isIdle part then ⟨some part, rest⟩ else ⟨none, part :: rest⟩

def text (p : Path) : List Char :=
  match p.front, p.parts with
  | none, parts => joinParts parts
  | some [], [] => ['/']
  | some front, [] => front
  | some front, parts => joinParts (front :: parts)

/-- What decides which file a path leads to. -/
def components (p : Path) : Option (List Char) × List (List Char) :=
  (p.front, p.parts.filter fun part => !isIdle part)

def parent (p : Path) : Path :=
  match Text.dropEndWhile isIdle p.parts with
  | [] => ⟨none, []⟩
  | parts => { p with parts := Text.dropEndWhile isIdle parts.dropLast }

end Path

def components (path : String) : Option (List Char) × List (List Char) :=
  (Path.ofText path.toList).components

def joinPath (directory target : List Char) : List Char :=
  if target.head? = some '/' ∨ directory = [] then target
  else if directory.getLast? = some '/' then directory ++ target
  else directory ++ '/' :: target

def relativeTo (path : String) (target : List Char) : String :=
  String.ofList (joinPath (Path.ofText path.toList).parent.text target)

theorem splitParts_ne_nil (cs : List Char) : splitParts cs ≠ [] := by
  cases cs with
  | nil => simp [splitParts]
  | cons c cs =>
    simp only [splitParts]
    split
    · simp
    · split <;> simp

/-- Cutting at slashes loses nothing but the slashes. -/
theorem joinParts_splitParts (cs : List Char) : joinParts (splitParts cs) = cs := by
  induction cs with
  | nil => rfl
  | cons c cs ih =>
    simp only [splitParts]
    split
    · rename_i h
      obtain ⟨part, rest, he⟩ := List.exists_cons_of_ne_nil (splitParts_ne_nil cs)
      rw [he] at ih ⊢
      subst h
      rw [← ih]
      rfl
    · split
      · rename_i h
        exact absurd h (splitParts_ne_nil cs)
      · rename_i part rest h
        rw [h] at ih
        rw [← ih]
        cases rest <;> rfl

end ObjectLang.Imports
