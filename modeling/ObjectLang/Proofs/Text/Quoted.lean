import ObjectLang.Proofs.Token.Lexed
import ObjectLang.Text.Quoted
set_option autoImplicit false

/-!
# Texts between quotes

A text is written between quotes character by character. Reading it back resolves the backslashes one
by one, so it is enough that each character is written as something that stands for it. Line feeds are
written with a backslash and a letter: every text, of however many lines, has a literal on one line, and
that literal is one token.
-/

namespace ObjectLang

namespace Text

theorem unescape_plain {c : Char} (plain : c ≠ '\\') (cs : List Char) :
    unescape (c :: cs) = c :: unescape cs := by
  rw [unescape]
  · rintro rfl
    exact absurd rfl plain
  · rintro d ds rfl
    exact absurd rfl plain

theorem unescape_flatMap {spell : Char → List Char}
    (reads : ∀ c rest, unescape (spell c ++ rest) = c :: unescape rest) (cs : List Char) :
    unescape (cs.flatMap spell) = cs := by
  induction cs with
  | nil => rfl
  | cons c cs ih => rw [List.flatMap_cons, reads, ih]

/-- Only the outer quotes are taken away. -/
theorem unquote_enclosed (inside : List Char) :
    unquote (String.ofList ('"' :: (inside ++ ['"']))) = String.ofList (unescape inside) := by
  rw [unquote, String.toList_ofList, unwrap, if_pos List.getLast?_concat, List.dropLast_concat]

def spell : Char → List Char
  | '\\' => ['\\', '\\']
  | '"' => ['\\', '"']
  | '\n' => ['\\', 'n']
  | c => [c]

def literal (text : String) : String :=
  String.ofList ('"' :: (text.toList.flatMap spell ++ ['"']))

theorem unescape_spell (c : Char) (rest : List Char) :
    unescape (spell c ++ rest) = c :: unescape rest := by
  unfold spell
  split
  · rfl
  · rfl
  · rfl
  · rename_i backslash _ _
    exact unescape_plain backslash rest

theorem quotable_spell_append (c : Char) {body : List Char} (h : Piece.Quotable body) :
    Piece.Quotable (spell c ++ body) := by
  unfold spell
  split
  · exact .escape (by decide) h
  · exact .escape (by decide) h
  · exact .escape (by decide) h
  · rename_i backslash quote line
    exact .plain quote backslash line h

theorem quotable_flatMap_spell (cs : List Char) : Piece.Quotable (cs.flatMap spell) := by
  induction cs with
  | nil => exact .nil
  | cons c cs ih => exact quotable_spell_append c ih

end Text

namespace Lexed

/-- **Every text has a literal**, which is one token on the first line, and which stands for that
    text. -/
theorem ofText_literal (file text : String) :
    (ofText file (Text.literal text)).tokens =
        [⟨.string, Text.literal text, 1⟩, .endOfFile file 1] ∧
      (ofText file (Text.literal text)).diagnostics = [] ∧
      Text.unquote (Text.literal text) = text := by
  let inside := text.toList.flatMap Text.spell
  have quotable : Piece.Quotable inside := Text.quotable_flatMap_spell text.toList
  have letters : (Text.literal text).toList = '"' :: (inside ++ ['"']) := String.toList_ofList
  have cut : Piece.cut (Text.literal text).toList = [⟨some .string, (Text.literal text).toList⟩] := by
    rw [letters, Piece.cut_cons, Piece.lead_quote, Piece.stringRest_of_quotable quotable]
    have size : (inside ++ ['"']).length = inside.length + 1 := List.length_append
    rw [← size, List.take_length, List.drop_length, Piece.cut_nil]
    rfl
  have feeds : (Text.literal text).toList.count '\n' = 0 := by
    have none := Piece.lineFeed_not_mem_of_quotable quotable
    rw [letters, List.count_eq_zero]
    simpa using none
  refine ⟨?_, ?_, ?_⟩
  · rw [ofText]
    dsimp only
    rw [cut, tokensFrom_cons, feeds, Piece.token?_of_kind (by decide), String.ofList_toList]
    rfl
  · rw [ofText]
    dsimp only
    rw [cut]
    rfl
  · rw [Text.literal, Text.unquote_enclosed, Text.unescape_flatMap Text.unescape_spell,
      String.ofList_toList]

end Lexed
end ObjectLang
