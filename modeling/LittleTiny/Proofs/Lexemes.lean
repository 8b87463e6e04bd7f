import LittleTiny.Token.Scan
import Mathlib.Tactic.SplitIfs

/-!
# The lexical grammar

`Lexemes.items` reads a stream a lexeme at a time, without states. A lexeme is the longest run of
characters of its class, found by `takeWhile`; the operators are those of the table `Operator.text`,
the longer one first. A token goes from its first character to its last one. An error stands at the
character that shows it, or at the last one if the stream has ended, and the rest of the line is
discarded.
-/

namespace LittleTiny

open Scan

namespace Lexemes

/-- Characters with their positions. -/
abbrev Chars := List (Char × Position)

/-! ## Runs -/

/-- The characters without their positions. -/
def text (run : Chars) : String := String.ofList (run.map Prod.fst)

/-- The position of the last character of a run, `p` if the run is empty. -/
def lastOf (p : Position) (run : Chars) : Position := (run.getLast?.map Prod.snd).getD p

/-- The position of the next character; at the end of the stream that of the last one, `p`. -/
def ahead (p : Position) (rest : Chars) : Position := (rest.head?.map Prod.snd).getD p

/-- What is left when everything before the next newline is discarded. -/
def discardLine (cs : Chars) : Chars := cs.dropWhile fun x => x.1 ≠ '\n'

/-- A character that a word goes on with. -/
def inWord (x : Char × Position) : Bool := isLetter x.1 || isDigit x.1

/-- The point of a decimal. -/
def isDot (x : Char × Position) : Bool := x.1 = '.'

/-- A character that a number goes on with. -/
def inNumber (x : Char × Position) : Bool := isDigit x.1 || isDot x

/-- A character that a string literal goes on with. -/
def inText (x : Char × Position) : Bool := x.1 ≠ '"' && x.1 ≠ '\n'

/-! ## Lexemes -/

/-- A token from `first` to `last`, and what is left behind it. -/
def token (t : Token) (first last : Position) (rest : Chars) : Item × Chars :=
  (.ok ⟨t, ⟨first, last⟩⟩, rest)

/-- An error at `p`, behind which the line is discarded. -/
def failure (e : ScanError) (p : Position) (rest : Chars) : Item × Chars :=
  (.error ⟨e, .point p⟩, discardLine rest)

/-- Letters and digits: a keyword if the table has it, or else an identifier. -/
def word (first : Position) (cs : Chars) : Item × Chars :=
  let run := cs.takeWhile inWord
  let t := (Keyword.ofText? (text run)).elim (Token.identifier (text run)) Token.keyword
  token t first (lastOf first run) (cs.dropWhile inWord)

/-- Digits and dots: whole without a dot, real with one dot and a digit. A second dot is an error at
that dot, and a dot alone is one just behind it. -/
def number (first : Position) (cs : Chars) : Item × Chars :=
  let run := cs.takeWhile inNumber
  let rest := cs.dropWhile inNumber
  match run.filter isDot with
  | [] => token (.intLiteral (text run)) first (lastOf first run) rest
  | [_] =>
    if run.any fun x => isDigit x.1 then
      token (.floatLiteral (text run)) first (lastOf first run) rest
    else failure .malformedNumber (ahead (lastOf first run) rest) rest
  | _ :: second :: _ => failure .malformedNumber second.2 rest

/-- Everything to the next quote, if that is on the same line; `cs` begins behind the first. -/
def quoted (first : Position) (cs : Chars) : Item × Chars :=
  let content := cs.takeWhile inText
  match cs.dropWhile inText with
  | ('"', q) :: rest => token (.stringLiteral (text content)) first q rest
  | rest => failure .unterminatedString (ahead (lastOf first content) rest) rest

/-- An operator of one character, or an error: a longer operator has not been found. -/
def sign (c : Char) (p : Position) (rest : Chars) : Item × Chars :=
  match Operator.ofText? (String.ofList [c]) with
  | some op => token (.operator op) p p rest
  | none =>
    if c = ':' ∨ c = '!' then failure .expectedEqual (ahead p rest) rest
    else failure (.badCharacter c) p rest

/-- An operator, of two characters if they make one. -/
def operator (c : Char) (p : Position) : Chars → Item × Chars
  | [] => sign c p []
  | (d, q) :: rest =>
    match Operator.ofText? (String.ofList [c, d]) with
    | some op => token (.operator op) p q rest
    | none => sign c p ((d, q) :: rest)

/-- The lexeme that starts with the character `c` at `p`, and what is left behind it. -/
def lexeme (c : Char) (p : Position) (rest : Chars) : Item × Chars :=
  if isLetter c then word p ((c, p) :: rest)
  else if inNumber (c, p) then number p ((c, p) :: rest)
  else if c = '"' then quoted p rest
  else operator c p rest

theorem length_discardLine_le (cs : Chars) : (discardLine cs).length ≤ cs.length :=
  (List.dropWhile_sublist _).length_le

theorem length_dropWhile_cons_le {q : Char × Position → Bool} {x : Char × Position} (hx : q x)
    (rest : Chars) : ((x :: rest).dropWhile q).length ≤ rest.length := by
  rw [List.dropWhile_cons_of_pos hx]
  exact (List.dropWhile_sublist _).length_le

theorem length_number_le {c : Char} {p : Position} (hc : inNumber (c, p)) (rest : Chars) :
    (number p ((c, p) :: rest)).2.length ≤ rest.length := by
  have hrest := length_dropWhile_cons_le hc rest
  have hline := length_discardLine_le (((c, p) :: rest).dropWhile inNumber)
  unfold number
  dsimp only
  split
  · exact hrest
  · split_ifs
    · exact hrest
    · exact Nat.le_trans hline hrest
  · exact Nat.le_trans hline hrest

theorem length_quoted_le (p : Position) (rest : Chars) :
    (quoted p rest).2.length ≤ rest.length := by
  have hrest : (rest.dropWhile inText).length ≤ rest.length := (List.dropWhile_sublist _).length_le
  unfold quoted
  dsimp only
  split
  · next q after heq =>
    rw [heq, List.length_cons] at hrest
    exact Nat.le_of_succ_le hrest
  · exact Nat.le_trans (length_discardLine_le _) hrest

theorem length_sign_le (c : Char) (p : Position) (rest : Chars) :
    (sign c p rest).2.length ≤ rest.length := by
  have hline := length_discardLine_le rest
  unfold sign
  split
  · exact Nat.le_refl _
  · split_ifs <;> exact hline

theorem length_operator_le (c : Char) (p : Position) (rest : Chars) :
    (operator c p rest).2.length ≤ rest.length := by
  cases rest with
  | nil => exact length_sign_le c p []
  | cons x rest =>
    rw [operator]
    split
    · exact Nat.le_succ _
    · exact length_sign_le c p (x :: rest)

/-- A lexeme takes a character at least. -/
theorem length_lexeme_le (c : Char) (p : Position) (rest : Chars) :
    (lexeme c p rest).2.length ≤ rest.length := by
  unfold lexeme
  split_ifs with hletter hnumber hquote
  · exact length_dropWhile_cons_le (by simp [inWord, hletter]) rest
  · exact length_number_le hnumber rest
  · exact length_quoted_le p rest
  · exact length_operator_le c p rest

/-- All items of a stream: blanks are skipped, and two dashes discard the line. -/
def items : Chars → List Item
  | [] => []
  | (c, p) :: rest =>
    if Text.isBlank c then items rest
    else if c = '-' ∧ rest.head?.map Prod.fst = some '-' then
      have := length_discardLine_le rest
      items (discardLine rest)
    else
      have := length_lexeme_le c p rest
      (lexeme c p rest).1 :: items (lexeme c p rest).2
termination_by cs => cs.length

theorem items_nil : items [] = [] := by
  rw [items.eq_def]

theorem items_cons (c : Char) (p : Position) (rest : Chars) :
    items ((c, p) :: rest) =
      if Text.isBlank c then items rest
      else if c = '-' ∧ rest.head?.map Prod.fst = some '-' then items (discardLine rest)
      else (lexeme c p rest).1 :: items (lexeme c p rest).2 := by
  rw [items.eq_def]

end Lexemes

end LittleTiny
