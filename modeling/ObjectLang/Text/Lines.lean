set_option autoImplicit false

/-!
# Lines of a text

A line ends at a line feed, and a carriage return in front of that line feed belongs to the ending.
A text that ends with a line feed has no further empty line.
-/

namespace ObjectLang.Text

def lines : List Char → List (List Char)
  | [] => []
  | '\n' :: cs => [] :: lines cs
  | '\r' :: '\n' :: cs => [] :: lines cs
  | c :: cs =>
    match lines cs with
    | [] => [[c]]
    | first :: rest => (c :: first) :: rest

theorem lines_newline (cs : List Char) : lines ('\n' :: cs) = [] :: lines cs := by
  rw [lines]

end ObjectLang.Text
