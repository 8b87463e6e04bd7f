/-!
# Positions and locations

A position is a line and a column of a text, lines counted from 1 and columns from 0 in characters,
both kept in 32 bits. A location is the range from one position to another, both included; nothing
asks that they be in order. Tokens, names and errors carry one (`Located`).
-/

namespace LittleTiny

/-- A line and a column; a new text starts at `1:0`. -/
structure Position where
  line : UInt32 := 1
  column : UInt32 := 0
deriving DecidableEq, Repr

namespace Position

instance : Inhabited Position := ⟨{}⟩

/-- Written `line:column`. -/
def text (p : Position) : String := p.line.toNat.repr ++ ":" ++ p.column.toNat.repr

end Position

/-- The characters from `first` to `last`, both included. -/
structure Location where
  first : Position := {}
  last : Position := {}
deriving DecidableEq, Repr

namespace Location

instance : Inhabited Location := ⟨{}⟩

/-- The location of a single character. -/
def point (p : Position) : Location := ⟨p, p⟩

/-- From the start of `a` to the end of `b`. -/
def span (a b : Location) : Location := ⟨a.first, b.last⟩

/-- The line on which the location starts. -/
def line (l : Location) : UInt32 := l.first.line

/-- The column at which the location starts. -/
def column (l : Location) : UInt32 := l.first.column

/-- One position is written alone, two on a line as `l:[c-d]`, any others as `[l:c-m:d]`. -/
def text (l : Location) : String :=
  if l.first = l.last then
    l.first.text
  else if l.first.line = l.last.line then
    l.first.line.toNat.repr ++ ":[" ++ l.first.column.toNat.repr ++ "-" ++
      l.last.column.toNat.repr ++ "]"
  else
    "[" ++ l.first.text ++ "-" ++ l.last.text ++ "]"

end Location

/-- A value together with the part of the text it was read from. -/
structure Located (α : Type) where
  value : α
  location : Location
deriving DecidableEq, Repr

namespace Located

/-- Another value at the same place. -/
def map {α β : Type} (f : α → β) (x : Located α) : Located β := ⟨f x.value, x.location⟩

end Located

end LittleTiny
