import LittleTiny.Text.Unprintable

/-!
# Escaped characters

How a character is shown in a message, and how a text is shown between quotes: the quote in use and
the backslash get a backslash, NUL, tab, newline and carriage return are written by a letter, and
what shows nothing of its own is written by its number.
-/

namespace LittleTiny.Text

/-- The code point in lower-case hexadecimal between braces. -/
def escapeByNumber (c : Char) : List Char :=
  ['\\', 'u', '\x7b'] ++ Nat.toDigits 16 c.toNat ++ ['\x7d']

/-- The character as it stands between two of `quote`. -/
def escapeChar (quote c : Char) : List Char :=
  if c = '\x00' then ['\\', '0']
  else if c = '\t' then ['\\', 't']
  else if c = '\n' then ['\\', 'n']
  else if c = '\x0d' then ['\\', 'r']
  else if c = quote || c = '\\' then ['\\', c]
  else if isUnprintable c then escapeByNumber c
  else [c]

/-- The character between apostrophes. -/
def quoteChar (c : Char) : String := String.ofList ('\'' :: escapeChar '\'' c ++ ['\''])

/-- The text between double quotes. -/
def quoteText (s : String) : String :=
  String.ofList ('"' :: s.toList.flatMap (escapeChar '"') ++ ['"'])

end LittleTiny.Text
