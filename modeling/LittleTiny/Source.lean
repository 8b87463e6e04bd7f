import LittleTiny.Location

/-!
# Sources

A source is a named list of lines. A text is cut at its newlines, a carriage return that stands just
before a newline going with it; a last line without a newline is kept as it is, and nothing follows
a final newline. Bytes are cut at their newlines before anything is decoded, and then every line is
decoded on its own. Scanning sees every line closed by a newline (`Source.chars`), whether the text
had one there or not. Numbers of lines and columns start again at 0 where 32 bits are used up.
-/

namespace LittleTiny

/-- Why bytes are no source. -/
inductive ReadError where
  | invalidText
deriving DecidableEq, Repr

/-- The message of an error. -/
def ReadError.message : ReadError → String
  | invalidText => "stream did not contain valid UTF-8"

/-- A text cut into lines, with the name it is reported under. -/
structure Source where
  name : String
  lines : List String
deriving DecidableEq, Repr

namespace Source

/-- A finished line, given last character first, without the carriage return that closes it. -/
def closeLine : List Char → List Char
  | '\x0d' :: line => line.reverse
  | line => line.reverse

/-- The lines of a text of which `line`, last character first, is already read. -/
def splitFrom (line : List Char) : List Char → List (List Char)
  | [] => if line.isEmpty then [] else [line.reverse]
  | c :: rest =>
    if c = '\n' then closeLine line :: splitFrom [] rest else splitFrom (c :: line) rest

/-- The lines of a text. -/
def splitLines (text : List Char) : List (List Char) := splitFrom [] text

/-- The source with the lines of a text. -/
def ofText (name text : String) : Source := ⟨name, (splitLines text.toList).map String.ofList⟩

/-- The lines of bytes of which `line`, last byte first, is already read. A line holds the newline
that ends it. -/
def splitBytesFrom (line : List UInt8) : List UInt8 → List (List UInt8)
  | [] => if line.isEmpty then [] else [line.reverse]
  | b :: rest =>
    if b = 10 then (b :: line).reverse :: splitBytesFrom [] rest
    else splitBytesFrom (b :: line) rest

/-- A line of bytes as text, without the newline that ends it. -/
def decodeLine (bytes : List UInt8) : Except ReadError String :=
  match String.fromUTF8? bytes.toByteArray with
  | none => .error .invalidText
  | some text =>
    match text.toList.reverse with
    | '\n' :: line => .ok (String.ofList (closeLine line))
    | _ => .ok text

/-- Bytes make a source if each of their lines is valid UTF-8. -/
def ofBytes (name : String) (bytes : ByteArray) : Except ReadError Source := do
  return ⟨name, ← (splitBytesFrom [] bytes.data.toList).mapM decodeLine⟩

/-- The line of that number, counted from 1. -/
def line? (s : Source) (number : UInt32) : Option String :=
  match number.toNat with
  | 0 => none
  | index + 1 => s.lines[index]?

/-- The characters of a line and the newline that closes it, in line `n` from column 0. -/
def lineChars (n : UInt32) (line : List Char) : List (Char × Position) :=
  (line ++ ['\n']).zipIdx.map fun (c, i) => (c, ⟨n, .ofNat i⟩)

/-- All characters with their positions, each line closed by a newline. -/
def chars (s : Source) : List (Char × Position) :=
  (s.lines.zipIdx 1).flatMap fun (line, n) => lineChars (.ofNat n) line.toList

end Source

end LittleTiny
