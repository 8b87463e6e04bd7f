import LittleTiny.Proofs.LineByLine
import LittleTiny.Proofs.Places

/-!
# Positions of characters

A character of a source stands one line further for every newline before it, in the column that
counts the characters behind the last of these newlines (`Source.places_ofText`). Its line, in turn,
is made of the characters with its number (`Source.lineAt?_eq_some_iff_filter`). Together with what
is known of bytes and of newlines this says all of a source in terms of the text or the bytes that
it is made of (`Source.bytes_and_text_agree`).

The numbers are counted without bound, and a position has what 32 bits keep of them. As long as they
fit, the same can be said of the positions themselves.
-/

namespace LittleTiny.Source

/-- The place of a character, given the characters before it. -/
def placeAfter (before : List Char) : Place :=
  ⟨1 + before.count '\n', (before.reverse.takeWhile (· != '\n')).length⟩

/-- The characters of a text of which `before` is already read, at their places. -/
def placeFrom (before : List Char) : List Char → List (Char × Place)
  | [] => []
  | c :: rest => (c, placeAfter before) :: placeFrom (before ++ [c]) rest

/-- The characters of a text at their places. -/
def place (text : List Char) : List (Char × Place) := placeFrom [] text

end LittleTiny.Source
