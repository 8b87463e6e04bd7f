import LittleTiny.Proofs.Bytes
import LittleTiny.Proofs.Transcript.Assembly
import LittleTiny.Proofs.Transcript.Code

/-!
# Reading listings back

The listings of a compilation are written one behind the other. A line belongs to the listing that
its first character tells: a line of the tree begins with an angle bracket or with the word `name`
of a table, a line of code with a semicolon, and a line of assembly with the first letter of a verb;
the line that separates code from assembly is the only one that is empty. `Transcript.read` sorts
the lines in this way and reads those of code and assembly. It finds all that the listings show,
whichever of them were selected (`compile_listing_readable`).
-/

namespace LittleTiny

open Text

/-! ## Parts of a listing -/

/-- What a line is part of. -/
inductive Part where
  | tree
  | code
  | separator
  | target
deriving DecidableEq, Repr

/-- The part to which a line belongs. -/
def Part.of (line : List Char) : Part :=
  line.head?.elim separator fun c =>
    if c = '<' ∨ c = 'n' then tree else if c = ';' then code else target

/-- Whether the part is written. -/
def Part.isIn (selected : Listings) : Part → Bool
  | tree => selected.tree
  | code => selected.code
  | separator => selected.code && selected.target
  | target => selected.target

/-- What is read from listings. -/
structure Transcript where
  /-- The listings, each on its own. -/
  tree : String
  code : String
  target : String
  /-- The number of empty lines. -/
  separators : Nat
  /-- The lines of the code and of the assembly. -/
  instructions : List Instruction
  assembly : List Tiny.Line
deriving DecidableEq, Repr

namespace Transcript

/-- The lines of a part. -/
def linesOf (text : String) (part : Part) : List (List Char) :=
  (lines text.toList).filter fun line => Part.of line = part

/-- The text of a part. -/
def textOf (text : String) (part : Part) : String := String.ofList (ofLines (linesOf text part))

/-- Reads listings line by line. -/
def read (text : String) : Option Transcript := do
  return {
    tree := textOf text .tree
    code := textOf text .code
    target := textOf text .target
    separators := (linesOf text .separator).length
    instructions := ← (linesOf text .code).mapM fun line => Instruction.ofText? line.tail
    assembly := ← (linesOf text .target).mapM Tiny.Line.ofText? }

end Transcript

namespace Compilation

/-- What the selected listings show. -/
def transcript (c : Compilation) (selected : Listings) : Transcript where
  tree := if selected.tree then c.program.treeText else ""
  code := if selected.code then c.codeListing else ""
  target := if selected.target then Tiny.text (Tiny.emit c.code) else ""
  separators := if selected.code && selected.target then 1 else 0
  instructions := if selected.code then c.code.executable.map Instruction.shown else []
  assembly := if selected.target then Tiny.emit c.code else []

/-- The lines of a part: one for each executable instruction behind a semicolon, the empty line
between code and assembly, and one for each line of assembly. -/
def linesOf (c : Compilation) : Part → List (List Char)
  | .tree => c.program.element.lines
  | .code => c.code.executable.map fun i => ';' :: i.text.toList
  | .separator => [[]]
  | .target => (Tiny.emit c.code).map fun l => l.text.toList

/-- The lines of a part, if it is written. -/
def lines (c : Compilation) (selected : Listings) (part : Part) : List (List Char) :=
  if part.isIn selected then c.linesOf part else []

/-- All the lines, in the order in which they are written. -/
def allLines (c : Compilation) (selected : Listings) : List (List Char) :=
  c.lines selected .tree ++ c.lines selected .code ++ c.lines selected .separator ++
    c.lines selected .target

end Compilation

/-! ## First characters -/

theorem Part.of_cons (c : Char) (cs : List Char) :
    of (c :: cs) = if c = '<' ∨ c = 'n' then tree else if c = ';' then code else target := rfl

/-- A line stays in its part if more stands at its end. -/
theorem Part.of_append {line : List Char} (h : of line = tree) (rest : List Char) :
    of (line ++ rest) = tree := by
  cases line with
  | nil => cases h
  | cons c line => exact h

theorem Part.of_line (l : Tiny.Line) : of l.text.toList = target := by
  obtain ⟨c, cs, hlist, hangle, hname, hsemicolon⟩ := l.exists_text_cons
  rw [hlist, of_cons, if_neg (not_or.2 ⟨hangle, hname⟩), if_neg hsemicolon]

namespace Element

theorem of_head (tag : Tag) (value : Option String) (rest : List Char) :
    Part.of (head tag value ++ rest) = .tree := rfl

theorem of_rowLine (s : Scope) (v : Variable) : Part.of (s.rowLine v) = .tree := by
  have hrow : ∃ rest, (s.row v).toList = '\n' :: 'n' :: rest := by
    unfold Scope.row
    simp only [String.toList_append]
    exact ⟨_, rfl⟩
  obtain ⟨rest, hrest⟩ := hrow
  rw [Scope.rowLine, hrest]
  rfl

theorem of_opening (tag : Tag) (value : Option String) (scope : Option Scope) (whole : Bool) :
    ∀ line ∈ opening tag value scope whole, Part.of line = .tree := by
  cases scope with
  | none => exact List.forall_mem_singleton.2 (of_head tag value _)
  | some s =>
    apply forall_mem_endLast
    intro l hl
    have htree : Part.of l = .tree := by
      rcases List.mem_cons.1 hl with rfl | hl
      · exact of_head tag value _
      · obtain ⟨v, -, rfl⟩ := List.mem_map.1 hl
        exact of_rowLine s v
    exact ⟨htree, Part.of_append htree _⟩

theorem of_closing (tag : Tag) : Part.of (closing tag) = .tree := by
  have hline : closing tag = '<' :: ("/" ++ tag.text ++ ">").toList := by
    simp [closing]
  rw [hline]
  rfl

mutual

theorem of_lines : ∀ e : Element, ∀ line ∈ e.lines, Part.of line = .tree
  | mk tag value scope children => by
    rw [lines]
    split
    · exact of_opening tag value scope true
    · rw [List.forall_mem_append, List.forall_mem_append, List.forall_mem_singleton]
      exact ⟨of_opening tag value scope false, of_linesAll children, of_closing tag⟩

theorem of_linesAll : ∀ es : List Element, ∀ line ∈ linesAll es, Part.of line = .tree
  | [] => fun _ hline => nomatch hline
  | e :: es => by
    rw [linesAll, List.forall_mem_append]
    exact ⟨of_lines e, of_linesAll es⟩

end

end Element

/-! ## What is in the code -/

section

variable {source : Source} {c : Compilation} (h : compile source = .ok c)

include h

/-- The names, literals and classes in the instructions of a compilation. -/
theorem readable_of_compile {i : Instruction} (hi : i ∈ c.code) :
    (∀ v ∈ i.uses ++ i.declared, IsWord v.name.value.toList) ∧ Numerals i.literals ∧ i.Typed ∧
      ∀ v ∈ i.declared, v.Inline := by
  obtain ⟨hscan, hparse, hlower⟩ := phases_of_compile h
  have hemittable := Program.emittable hscan hparse hlower
  obtain ⟨main, body, s, hcode⟩ := Program.exists_loweredTo hparse hlower
  have hcells := (hcode.declared_sublist (Program.wellScoped_of_parse hparse)).subset
  have hinline := Program.inline_of_mem_cells hscan hparse
  have hwords : ∀ v ∈ c.program.cells, IsWord v.name.value.toList := by
    obtain ⟨d, htokens, -, htree⟩ := Program.parse_eq_ok_iff.1 hparse
    rw [← htree]
    exact Grammar.Prog.isWord_of_mem_cells (htokens ▸ Scan.spelled_of_scan hscan)
  have hdeclared : i.declared ⊆ c.code.declared := fun v hv => List.mem_flatMap.2 ⟨i, hi, hv⟩
  refine ⟨?_, ?_, hcode.typed i hi, fun v hv => hinline v (hcells (hdeclared hv))⟩
  · exact List.forall_mem_append.2 ⟨fun v hv => hwords v (hcells (hemittable.declared i hi hv)),
      fun v hv => hwords v (hcells (hdeclared hv))⟩
  · exact fun digits hd => hemittable.numerals digits (List.mem_flatMap.2 ⟨i, hi, hd⟩)

theorem readable_emit : ∀ l ∈ Tiny.emit c.code, l.Readable := by
  intro l hl
  obtain ⟨i, hi, hl⟩ := List.mem_flatMap.1 hl
  obtain ⟨hnames, hliterals, -, hvalues⟩ := readable_of_compile h hi
  exact Tiny.readable_emitInstruction hnames hliterals hvalues l hl

end

/-! ## Listings -/

namespace Compilation

section

variable (c : Compilation)

/-- The text of a part. -/
def textOf : Part → String
  | .tree => c.program.treeText
  | .code => c.codeListing
  | .separator => "\n"
  | .target => Tiny.text (Tiny.emit c.code)

/-- The text of a part is made of its lines. -/
theorem toList_textOf (part : Part) : (c.textOf part).toList = ofLines (c.linesOf part) := by
  cases part with
  | tree => exact c.program.element.toList_text
  | code => simp [textOf, linesOf, codeListing, String.toList_join, ofLines, List.flatMap_map]
  | separator => simp [textOf, linesOf, ofLines]
  | target => simp [textOf, linesOf, Tiny.text, String.toList_join, ofLines, List.flatMap_map]

/-- Every line shows to which part it belongs. -/
theorem of_linesOf (part : Part) : ∀ line ∈ c.linesOf part, Part.of line = part := by
  cases part with
  | tree => exact c.program.element.of_lines
  | code => exact List.forall_mem_map.2 fun i _ => rfl
  | separator => exact List.forall_mem_singleton.2 rfl
  | target => exact List.forall_mem_map.2 fun l _ => Part.of_line l

variable (selected : Listings)

theorem toList_ite (part : Part) :
    (if part.isIn selected then c.textOf part else "").toList =
      ofLines (c.lines selected part) := by
  unfold lines
  split
  · exact c.toList_textOf part
  · rfl

theorem toList_listing : (c.listing selected).toList = ofLines (c.allLines selected) := by
  simp only [allLines, ofLines_append, ← toList_ite]
  simp only [listing, String.toList_append]
  rfl

theorem forall_mem_lines {P : List Char → Prop} {part : Part}
    (h : ∀ line ∈ c.linesOf part, P line) : ∀ line ∈ c.lines selected part, P line := by
  unfold lines
  split
  · exact h
  · exact fun line hline => nomatch hline

theorem mapM_lines {α : Type} {f : List Char → Option α} {part : Part} {xs : List α}
    (h : (c.linesOf part).mapM f = some xs) :
    (c.lines selected part).mapM f = some (if part.isIn selected then xs else []) := by
  unfold lines
  split
  · exact h
  · rfl

theorem of_lines (part : Part) : ∀ line ∈ c.lines selected part, Part.of line = part :=
  c.forall_mem_lines selected (c.of_linesOf part)

end

variable {source : Source} {c : Compilation} (h : compile source = .ok c)

include h

theorem newline_notMem_linesOf (part : Part) : ∀ line ∈ c.linesOf part, '\n' ∉ line := by
  cases part with
  | tree =>
    obtain ⟨hscan, hparse, -⟩ := phases_of_compile h
    exact Element.newline_notMem_lines _ (Program.writable_of_parse hscan hparse)
  | code =>
    refine List.forall_mem_map.2 fun i hi => ?_
    obtain ⟨hnames, hliterals, -, -⟩ := readable_of_compile h (List.mem_filter.1 hi).1
    have htext := Instruction.inline_text (List.forall_mem_append.1 hnames).1 hliterals
    exact mt List.mem_cons.1 (not_or.2 ⟨by decide, htext⟩)
  | separator => exact List.forall_mem_singleton.2 List.not_mem_nil
  | target => exact List.forall_mem_map.2 fun l hl => Tiny.Line.inline_text (readable_emit h l hl)

variable (selected : Listings)

theorem newline_notMem_lines (part : Part) : ∀ line ∈ c.lines selected part, '\n' ∉ line :=
  c.forall_mem_lines selected (newline_notMem_linesOf h part)

theorem lines_listing : Text.lines (c.listing selected).toList = c.allLines selected := by
  rw [toList_listing]
  apply lines_ofLines
  simp only [allLines, List.forall_mem_append]
  exact ⟨⟨⟨newline_notMem_lines h selected .tree, newline_notMem_lines h selected .code⟩,
    newline_notMem_lines h selected .separator⟩, newline_notMem_lines h selected .target⟩

theorem linesOf_listing (part : Part) :
    Transcript.linesOf (c.listing selected) part = c.lines selected part := by
  -- Of the lines of a part, all are kept or none.
  have hfilter : ∀ part', (c.lines selected part').filter (fun line => Part.of line = part) =
      if part' = part then c.lines selected part' else [] := by
    intro part'
    split
    · next heq =>
      rw [List.filter_eq_self]
      exact fun line hline => decide_eq_true ((c.of_lines selected part' line hline).trans heq)
    · next hne =>
      rw [List.filter_eq_nil_iff]
      intro line hline htrue
      exact hne ((c.of_lines selected part' line hline).symm.trans (of_decide_eq_true htrue))
  rw [Transcript.linesOf, lines_listing h, allLines, List.filter_append, List.filter_append,
    List.filter_append, hfilter, hfilter, hfilter, hfilter]
  cases part <;> simp

theorem textOf_listing (part : Part) :
    Transcript.textOf (c.listing selected) part =
      if part.isIn selected then c.textOf part else "" := by
  rw [Transcript.textOf, linesOf_listing h, ← toList_ite, String.ofList_toList]

/-- The lines of code are read as the instructions. -/
theorem mapM_code :
    (c.linesOf .code).mapM (fun line => Instruction.ofText? line.tail) =
      some (c.code.executable.map Instruction.shown) := by
  apply mapM_map_eq_some
  intro i hi
  obtain ⟨hmem, hexecutable⟩ := List.mem_filter.1 hi
  obtain ⟨hnames, hliterals, htyped, -⟩ := readable_of_compile h hmem
  exact Instruction.ofText?_text (List.forall_mem_append.1 hnames).1 hliterals htyped hexecutable

/-- The lines of assembly are read as what they are. -/
theorem mapM_target : (c.linesOf .target).mapM Tiny.Line.ofText? = some (Tiny.emit c.code) := by
  have hread := mapM_map_eq_some (r := id) fun l hl => Tiny.Line.ofText?_text (readable_emit h l hl)
  rwa [List.map_id] at hread

theorem read_listing : Transcript.read (c.listing selected) = some (c.transcript selected) := by
  have hcode := c.mapM_lines selected (mapM_code h)
  have htarget := c.mapM_lines selected (mapM_target h)
  have hseparators : (c.lines selected .separator).length = (c.transcript selected).separators :=
    apply_ite List.length _ _ _
  rw [Transcript.read, linesOf_listing h, linesOf_listing h, linesOf_listing h, hcode, htarget,
    textOf_listing h, textOf_listing h, textOf_listing h, hseparators]
  rfl

end Compilation

/-- Whatever listings of a compilation are selected, they can be read back: the tree, the code and
the assembly are told apart by their lines, of which only the one between code and assembly is
empty, and the instructions of both are found with their operands. Listings of two compilations that
are equal show the same. -/
theorem compile_listing_readable {source : Source} {c : Compilation} (h : compile source = .ok c)
    (selected : Listings) :
    Transcript.read (c.listing selected) = some (c.transcript selected) ∧
    Text.lines (c.listing selected).toList = c.allLines selected ∧
    (∀ part, ∀ line ∈ c.lines selected part, Part.of line = part) ∧
    ∀ source' c' selected', compile source' = .ok c' →
      c.listing selected = c'.listing selected' →
        c.transcript selected = c'.transcript selected' := by
  refine ⟨c.read_listing h selected, c.lines_listing h selected, c.of_lines selected, ?_⟩
  intro source' c' selected' h' hequal
  have hread := c'.read_listing h' selected'
  rw [← hequal, c.read_listing h selected] at hread
  exact Option.some.inj hread

/-- A program with a text that looks like lines of assembly. -/
def lineText : String :=
  "PROGRAM p BEGIN STRING s := \" ;jmp label1 r2\"; FUNCTION VOID main() BEGIN WRITE (s); END END"

theorem compile_listing_readable_text :
    ∃ c, compile (.ofText "p" lineText) = .ok c ∧
      c.listing {} = ";WRITES var0s\n\nstr var0s \" ;jmp label1 r2\"\nsys writes var0s\n" ∧
      Transcript.read (c.listing {}) = some (c.transcript {}) := by
  have hlisting : ((compile (.ofText "p" lineText)).toOption.bind fun c => some (c.listing {})) =
      some ";WRITES var0s\n\nstr var0s \" ;jmp label1 r2\"\nsys writes var0s\n" := by
    decide +kernel
  obtain ⟨c, hcompile, hc⟩ := exists_of_toOption_bind hlisting
  exact ⟨c, hcompile, Option.some.inj hc, (compile_listing_readable hcompile {}).1⟩

end LittleTiny
