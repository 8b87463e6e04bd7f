import LittleTiny.Proofs.Names
import LittleTiny.Tree.Element

/-!
# Nested elements

The text of an element can be read back line by line. `Nesting.read` keeps the elements that are
open and what is complete in each of them. A line opens an element, which may be complete with it,
or it closes the innermost one that is open, by its own tag; of a table only the end counts, since
it ends the opening of the element that shows it. If no value in it goes beyond a line, the text of
an element is read as this element without its tables (`Nesting.read_text`).
-/

namespace LittleTiny

/-! ## Lines of a text -/

namespace Text

/-- The lines of a text, without the newlines that end them. -/
def lines : List Char → List (List Char)
  | [] => []
  | c :: rest =>
    if c = '\n' then [] :: lines rest
    else
      match lines rest with
      | [] => [[c]]
      | line :: more => (c :: line) :: more

theorem lines_append {line : List Char} (h : '\n' ∉ line) (rest : List Char) :
    lines (line ++ '\n' :: rest) = line :: lines rest := by
  induction line with
  | nil => simp [lines]
  | cons c line ih =>
    obtain ⟨hc, hline⟩ := not_or.1 (mt List.mem_cons.2 h)
    rw [List.cons_append, lines, if_neg (Ne.symm hc), ih hline]

/-- The text that is made of lines. -/
def ofLines (ls : List (List Char)) : List Char := ls.flatMap fun line => line ++ ['\n']

theorem ofLines_cons (line : List Char) (ls : List (List Char)) :
    ofLines (line :: ls) = line ++ '\n' :: ofLines ls := by
  simp [ofLines]

theorem ofLines_append (ls ls' : List (List Char)) :
    ofLines (ls ++ ls') = ofLines ls ++ ofLines ls' :=
  List.flatMap_append ..

theorem lines_ofLines {ls : List (List Char)} (h : ∀ line ∈ ls, '\n' ∉ line) :
    lines (ofLines ls) = ls := by
  induction ls with
  | nil => rfl
  | cons line ls ih =>
    obtain ⟨hline, hrest⟩ := List.forall_mem_cons.1 h
    rw [ofLines_cons, lines_append hline, ih hrest]

/-- The lines, the first of them given apart, with an ending behind the last. -/
def endLast (ending : List Char) : List Char → List (List Char) → List (List Char)
  | line, [] => [line ++ ending]
  | line, next :: rest => line :: endLast ending next rest

theorem ofLines_endLast (ending : List Char) (rest : List (List Char)) : ∀ line : List Char,
    ofLines (endLast ending line rest) =
      line ++ (rest.flatMap fun next => '\n' :: next) ++ ending ++ ['\n'] := by
  induction rest with
  | nil => simp [endLast, ofLines]
  | cons next rest ih => simp [endLast, ofLines_cons, ih]

theorem forall_mem_endLast {p : List Char → Prop} {ending : List Char} {rest : List (List Char)} :
    ∀ {line : List Char}, (∀ l ∈ line :: rest, p l ∧ p (l ++ ending)) →
    ∀ l ∈ endLast ending line rest, p l := by
  induction rest with
  | nil =>
    intro line h l hl
    obtain rfl := List.mem_singleton.1 hl
    exact (h line List.mem_cons_self).2
  | cons next rest ih =>
    intro line h l hl
    rcases List.mem_cons.1 hl with rfl | hl
    · exact (h l List.mem_cons_self).1
    · exact ih (fun l hl => h l (List.mem_cons_of_mem _ hl)) l hl

end Text

/-! ## Lines of an element -/

/-- The row of a variable in a table, as a line of its own. -/
def Scope.rowLine (s : Scope) (v : Variable) : List Char := (s.row v).toList.tail

theorem Scope.toList_row (s : Scope) (v : Variable) : (s.row v).toList = '\n' :: s.rowLine v := by
  unfold rowLine row
  simp only [String.toList_append]
  rfl

theorem Scope.toList_table (s : Scope) :
    s.table.toList =
      ("Symbol table " ++ s.id.repr).toList ++
        (s.declared.map s.rowLine).flatMap fun line => '\n' :: line := by
  rw [table, String.toList_append, String.toList_join, List.flatMap_map, List.flatMap_map]
  simp only [toList_row]

namespace Element

/-- The beginning of the first line of an element. -/
def head (tag : Tag) (value : Option String) : List Char :=
  '<' :: (tag.text.toList ++ value.elim [] fun v => ' ' :: v.toList)

/-- The end of an opening: of a whole element, or of one with others in it. -/
def ending (whole : Bool) : List Char := if whole then ['/', '>'] else ['>']

/-- The lines that open an element. -/
def opening (tag : Tag) (value : Option String) (scope : Option Scope) (whole : Bool) :
    List (List Char) :=
  scope.elim [head tag value ++ ending whole] fun s =>
    Text.endLast ('"' :: ending whole)
      (head tag value ++ (" table=\"Symbol table " ++ s.id.repr).toList) (s.declared.map s.rowLine)

/-- The line that closes an element. -/
def closing (tag : Tag) : List Char := ("</" ++ tag.text ++ ">").toList

mutual

/-- The lines of an element, with all that is inside. -/
def lines : Element → List (List Char)
  | mk tag value scope children =>
    if children.isEmpty then opening tag value scope true
    else opening tag value scope false ++ (linesAll children ++ [closing tag])

/-- The lines of elements in a row. -/
def linesAll : List Element → List (List Char)
  | [] => []
  | e :: es => e.lines ++ linesAll es

end

/-- The table of a scope in the opening of an element. -/
def tableText (scope : Option Scope) : List Char :=
  scope.elim [] fun s => (" table=\"" ++ s.table ++ "\"").toList

theorem ofLines_opening (tag : Tag) (value : Option String) (scope : Option Scope) (whole : Bool) :
    Text.ofLines (opening tag value scope whole) =
      head tag value ++ tableText scope ++ ending whole ++ ['\n'] := by
  cases scope with
  | none => simp [opening, tableText, Text.ofLines]
  | some s => simp [opening, tableText, Text.ofLines_endLast, Scope.toList_table]

mutual

/-- The text of an element is made of its lines. -/
theorem toList_text : ∀ e : Element, e.text.toList = Text.ofLines e.lines
  | mk tag value scope children => by
    have hchildren := toList_textAll children
    simp only [text, lines]
    split
    · rw [ofLines_opening]
      cases value <;> cases scope <;> simp [ending, head, tableText]
    · rw [Text.ofLines_append, Text.ofLines_append, ofLines_opening, ← hchildren]
      cases value <;> cases scope <;> simp [ending, head, tableText, closing, Text.ofLines]

theorem toList_textAll : ∀ es : List Element, (textAll es).toList = Text.ofLines (linesAll es)
  | [] => rfl
  | e :: es => by
    rw [textAll, linesAll, String.toList_append, toList_text e, toList_textAll es,
      Text.ofLines_append]

end

end Element

/-! ## Values that stay on their lines -/

/-- The text has no newline in it. -/
def Text.Inline (s : String) : Prop := '\n' ∉ s.toList

/-- The row of the variable is one line. -/
def Variable.Inline (v : Variable) : Prop :=
  Text.Inline v.name.value ∧ ∀ value ∈ v.value, Text.Inline value

namespace Element

mutual

/-- No value goes beyond its line or looks like the end of a whole element, and every table has
rows. -/
def Writable : Element → Prop
  | mk _ value scope children =>
    (∀ v ∈ value, Text.Inline v ∧ (children = [] ∨ v.toList.getLast? ≠ some '/')) ∧
    (∀ s ∈ scope, value = none ∧ s.declared ≠ [] ∧ ∀ v ∈ s.declared, v.Inline) ∧
    WritableAll children

/-- All of the elements are writable. -/
def WritableAll : List Element → Prop
  | [] => True
  | e :: es => e.Writable ∧ WritableAll es

end

mutual

/-- The element without its tables. -/
def bare : Element → Element
  | mk tag value _ children => mk tag value none (bareAll children)

/-- The elements in a row, each of them bare. -/
def bareAll : List Element → List Element
  | [] => []
  | e :: es => e.bare :: bareAll es

end

end Element

/-! ## Reading -/

/-- What stands before the end of an opening, and whether it opens a whole element. -/
def Element.ended? (line : List Char) : Option (List Char × Bool) :=
  match line.reverse with
  | '>' :: '/' :: rest => some (rest.reverse, true)
  | '>' :: rest => some (rest.reverse, false)
  | _ => none

/-- All the tags. -/
def Tag.all : List Tag :=
  [intLiteral, floatLiteral, stringLiteral, identifier, lessThan, greaterThan, lessThanEqual,
    greaterThanEqual, notEqual, equal, addition, subtraction, multiplication, division, assignment,
    read, write, if_, while_, return_, call, condition, stringDeclaration, variableDeclaration,
    declarationList, statementList, intType, floatType, stringType, voidType, parameter,
    parameterList, function, functionList, program]

/-- The tag with the text. -/
def Tag.ofText? (text : String) : Option Tag := all.find? fun t => t.text == text

/-- How far a text of elements has been read. -/
structure Nesting where
  /-- The elements that are complete in the innermost one that is open. -/
  inside : List Element := []
  /-- The elements that are open, the innermost first, each with its value and with the elements
  that are complete before it. -/
  outer : List (Tag × Option String × List Element) := []
  /-- The element whose table is being read. -/
  table : Option Tag := none

namespace Nesting

/-- One more element is complete. -/
def add (n : Nesting) (e : Element) : Nesting := ⟨n.inside ++ [e], n.outer, none⟩

/-- An element begins, and ends at once if it is whole. -/
def start (n : Nesting) (tag : Tag) (value : Option String) (whole : Bool) : Nesting :=
  if whole then n.add (.mk tag value none []) else ⟨[], (tag, value, n.inside) :: n.outer, none⟩

/-- The innermost element is closed by its own tag. -/
def close? (n : Nesting) (line : List Char) : Option Nesting :=
  match n.outer with
  | [] => none
  | (tag, value, before) :: outer =>
    if line = Element.closing tag then some ⟨before ++ [.mk tag value none n.inside], outer, none⟩
    else none

/-- An element is opened by a line that goes on in this way behind its tag. -/
def openTag? (n : Nesting) (tag : Tag) : List Char → Option Nesting
  | ['>'] => some (n.start tag none false)
  | ['/', '>'] => some (n.start tag none true)
  | ' ' :: rest =>
    match Element.ended? rest with
    | some (value, whole) => some (n.start tag (some (String.ofList value)) whole)
    | none => some { n with table := some tag }
  | _ => none

/-- Reads a line that opens an element: its name, and what stands behind. -/
def open? (n : Nesting) (line : List Char) : Option Nesting :=
  (Tag.ofText? (String.ofList (line.takeWhile Char.isAlpha))).bind fun tag =>
    n.openTag? tag (line.dropWhile Char.isAlpha)

/-- Reads a line of a table, of which only the end of the last one counts. -/
def readRow (n : Nesting) (line : List Char) (tag : Tag) : Nesting :=
  (Element.ended? line).elim n fun x => n.start tag none x.2

/-- Reads a line that opens or closes an element. -/
def readLine? (n : Nesting) : List Char → Option Nesting
  | '<' :: '/' :: rest => n.close? ('<' :: '/' :: rest)
  | '<' :: rest => n.open? rest
  | _ => none

/-- Reads one more line. -/
def step (n : Nesting) (line : List Char) : Option Nesting :=
  n.table.elim (n.readLine? line) fun tag => some (n.readRow line tag)

/-- The only element, if all are closed. -/
def whole? (n : Nesting) : Option Element :=
  match n with
  | ⟨[e], [], none⟩ => some e
  | _ => none

/-- Reads the text of an element. -/
def read (text : String) : Option Element :=
  ((Text.lines text.toList).foldlM step {}).bind whole?

end Nesting

/-! ## Characters of lines -/

namespace Tag

theorem ofText?_text (t : Tag) : ofText? t.text = some t := by
  cases t <;> decide

theorem all_isAlpha (t : Tag) : t.text.toList.all Char.isAlpha = true := by
  cases t <;> rfl

theorem isAlpha_of_mem {t : Tag} {c : Char} (h : c ∈ t.text.toList) : c.isAlpha = true :=
  List.all_eq_true.1 t.all_isAlpha c h

theorem exists_cons (t : Tag) : ∃ c cs, t.text.toList = c :: cs ∧ c.isAlpha = true := by
  cases t <;> exact ⟨_, _, rfl, rfl⟩

theorem notMem_text (t : Tag) {c : Char} (h : c.isAlpha = false) : c ∉ t.text.toList := by
  intro hmem
  rw [isAlpha_of_mem hmem] at h
  cases h

end Tag

theorem notMem_repr (n : Nat) {c : Char} (h : Scan.isDigit c = false) : c ∉ n.repr.toList := by
  intro hmem
  have hdigit := isDigit_of_mem_repr hmem
  rw [h] at hdigit
  cases hdigit

theorem VarType.newline_notMem_text (t : VarType) : '\n' ∉ t.text.toList := by
  rcases t with (_ | _) | _ <;> decide

namespace Scope

theorem newline_notMem_rowLine (s : Scope) {v : Variable} (h : v.Inline) :
    '\n' ∉ s.rowLine v := by
  obtain ⟨hname, hvalue⟩ := h
  have hid := notMem_repr s.id (c := '\n') rfl
  have htype := v.type.newline_notMem_text
  unfold rowLine row
  cases hv : v.value with
  | none => simp_all [Text.Inline]
  | some value => simp_all [Text.Inline]

theorem getLast?_rowLine (s : Scope) (v : Variable) : (s.rowLine v).getLast? ≠ some '>' := by
  unfold rowLine row
  cases v.value with
  | none =>
    rcases v.type with (_ | _) | _ <;>
      simp [VarType.text, NumClass.text, List.getLast?_cons, List.getLast?_append]
  | some value => simp [List.getLast?_cons, List.getLast?_append]

end Scope

namespace Element

theorem newline_notMem_head (tag : Tag) {value : Option String}
    (h : ∀ v ∈ value, Text.Inline v) : '\n' ∉ head tag value := by
  have htag := tag.notMem_text (c := '\n') rfl
  cases value with
  | none => simpa [head] using htag
  | some v =>
    have hv : '\n' ∉ v.toList := h v rfl
    simp [head, htag, hv]

theorem newline_notMem_ending (whole : Bool) : '\n' ∉ ending whole := by
  cases whole <;> decide

theorem newline_notMem_opening (tag : Tag) {value : Option String} {scope : Option Scope}
    (whole : Bool) (hvalue : ∀ v ∈ value, Text.Inline v)
    (hscope : ∀ s ∈ scope, ∀ v ∈ s.declared, v.Inline) :
    ∀ line ∈ opening tag value scope whole, '\n' ∉ line := by
  have hhead := newline_notMem_head tag hvalue
  have hending := newline_notMem_ending whole
  cases scope with
  | none =>
    intro line hline
    rw [List.mem_singleton.1 hline, List.mem_append]
    exact not_or.2 ⟨hhead, hending⟩
  | some s =>
    apply Text.forall_mem_endLast
    have hid := notMem_repr s.id (c := '\n') rfl
    have hall : ∀ l ∈ (head tag value ++ (" table=\"Symbol table " ++ s.id.repr).toList) ::
        s.declared.map s.rowLine, '\n' ∉ l := by
      rw [List.forall_mem_cons, List.forall_mem_map]
      refine ⟨?_, fun v hv => s.newline_notMem_rowLine (hscope s rfl v hv)⟩
      rw [String.toList_append, List.mem_append, List.mem_append]
      exact not_or.2 ⟨hhead, not_or.2 ⟨by decide, hid⟩⟩
    intro l hl
    refine ⟨hall l hl, ?_⟩
    rw [List.mem_append, List.mem_cons]
    exact not_or.2 ⟨hall l hl, not_or.2 ⟨by decide, hending⟩⟩

theorem newline_notMem_closing (tag : Tag) : '\n' ∉ closing tag := by
  have htag := tag.notMem_text (c := '\n') rfl
  simp [closing, htag]

mutual

theorem newline_notMem_lines : ∀ e : Element, e.Writable → ∀ line ∈ e.lines, '\n' ∉ line
  | mk tag value scope children, h => by
    obtain ⟨hvalue, hscope, hchildren⟩ := h
    have hopening := fun whole => newline_notMem_opening tag whole (fun v hv => (hvalue v hv).1)
      (fun s hs => (hscope s hs).2.2)
    rw [lines]
    split
    · exact hopening true
    · rw [List.forall_mem_append, List.forall_mem_append, List.forall_mem_singleton]
      exact ⟨hopening false, newline_notMem_linesAll children hchildren, newline_notMem_closing tag⟩

theorem newline_notMem_linesAll : ∀ es : List Element, WritableAll es →
    ∀ line ∈ linesAll es, '\n' ∉ line
  | [], _ => fun _ hline => nomatch hline
  | e :: es, h => by
    rw [linesAll, List.forall_mem_append]
    exact ⟨newline_notMem_lines e h.1, newline_notMem_linesAll es h.2⟩

end

/-- The lines of the text are the lines of the element. -/
theorem lines_text {e : Element} (h : e.Writable) : Text.lines e.text.toList = e.lines := by
  rw [toList_text, Text.lines_ofLines (newline_notMem_lines e h)]

/-! ## Ends of lines -/

theorem ended?_ending {line : List Char} {whole : Bool}
    (h : whole = true ∨ line.getLast? ≠ some '/') :
    ended? (line ++ ending whole) = some (line, whole) := by
  cases whole with
  | true => simp [ended?, ending]
  | false =>
    have hlast : line.reverse.head? ≠ some '/' := by
      rw [List.head?_reverse]
      exact h.resolve_left Bool.false_ne_true
    have hreverse : (line ++ ending false).reverse = '>' :: line.reverse := by simp [ending]
    unfold ended?
    rw [hreverse]
    split
    · next rest heq =>
      rw [(List.cons.inj heq).2] at hlast
      exact absurd rfl hlast
    · next rest hne heq =>
      obtain rfl := (List.cons.inj heq).2
      rw [List.reverse_reverse]
    · next hne => exact absurd rfl (hne _)

theorem ended?_eq_none {line : List Char} (h : line.getLast? ≠ some '>') : ended? line = none := by
  have hlast : line.reverse.head? ≠ some '>' := by rwa [List.head?_reverse]
  unfold ended?
  split
  · next heq =>
    rw [heq] at hlast
    exact absurd rfl hlast
  · next heq =>
    rw [heq] at hlast
    exact absurd rfl hlast
  · rfl

end Element

/-! ## Reading the lines of an element -/

namespace Nesting

theorem takeWhile_tag (tag : Tag) {rest : List Char} (h : ∀ c ∈ rest.head?, c.isAlpha = false) :
    (tag.text.toList ++ rest).takeWhile Char.isAlpha = tag.text.toList := by
  rw [List.takeWhile_append_of_pos fun c hc => Tag.isAlpha_of_mem hc]
  cases rest with
  | nil => simp
  | cons c rest => rw [List.takeWhile_cons_of_neg (by simp [h c rfl]), List.append_nil]

theorem dropWhile_tag (tag : Tag) {rest : List Char} (h : ∀ c ∈ rest.head?, c.isAlpha = false) :
    (tag.text.toList ++ rest).dropWhile Char.isAlpha = rest := by
  rw [List.dropWhile_append_of_pos fun c hc => Tag.isAlpha_of_mem hc]
  cases rest with
  | nil => rfl
  | cons c rest => rw [List.dropWhile_cons_of_neg (by simp [h c rfl])]

section

variable {n : Nesting} (htable : n.table = none) (tag : Tag)

include htable

/-- A line that begins with a tag opens an element. -/
theorem step_tag {rest : List Char} (h : ∀ c ∈ rest.head?, c.isAlpha = false) :
    n.step ('<' :: (tag.text.toList ++ rest)) = n.openTag? tag rest := by
  have hopen : n.open? (tag.text.toList ++ rest) = n.openTag? tag rest := by
    unfold open?
    rw [takeWhile_tag tag h, dropWhile_tag tag h, String.ofList_toList, Tag.ofText?_text]
    rfl
  obtain ⟨c, cs, htext, hc⟩ := tag.exists_cons
  rw [← hopen, step, htable, htext, Option.elim_none]
  -- A letter is no slash.
  refine readLine?.eq_2 n _ fun rest heq => ?_
  rw [(List.cons.inj heq).1] at hc
  cases hc

/-- An element without a table is opened by one line. -/
theorem step_head {value : Option String} {whole : Bool}
    (h : ∀ v ∈ value, whole = true ∨ v.toList.getLast? ≠ some '/') :
    n.step (Element.head tag value ++ Element.ending whole) = some (n.start tag value whole) := by
  rw [Element.head, List.cons_append, List.append_assoc]
  cases value with
  | none =>
    rw [Option.elim_none, List.nil_append, step_tag htable tag]
    · cases whole <;> rfl
    · cases whole <;> simp [Element.ending]
  | some v =>
    rw [Option.elim_some, List.cons_append, step_tag htable tag (by simp)]
    unfold openTag?
    simp only [Element.ended?_ending (h v rfl), String.ofList_toList]

/-- The first line of a table does not end the opening of its element. -/
theorem step_table (id : Nat) :
    n.step (Element.head tag none ++ (" table=\"Symbol table " ++ id.repr).toList) =
      some { n with table := some tag } := by
  have hrest : (" table=\"Symbol table " ++ id.repr).toList =
      ' ' :: ("table=\"Symbol table ".toList ++ id.repr.toList) := by
    rw [String.toList_append]
    rfl
  have hend : Element.ended? ("table=\"Symbol table ".toList ++ id.repr.toList) = none := by
    apply Element.ended?_eq_none
    intro hlast
    rcases List.mem_append.1 (List.mem_of_getLast? hlast) with h | h
    · exact absurd h (by decide)
    · exact notMem_repr id rfl h
  rw [hrest, Element.head, Option.elim_none, List.append_nil, List.cons_append,
    step_tag htable tag (by simp)]
  unfold openTag?
  simp only [hend]

end

/-- The rows of a table are passed over, and the last one ends the opening. -/
theorem foldlM_rows {n : Nesting} {tag : Tag} (htable : n.table = some tag) (whole : Bool)
    (rows : List (List Char)) : ∀ {row : List Char}, (∀ r ∈ row :: rows, r.getLast? ≠ some '>') →
    (Text.endLast ('"' :: Element.ending whole) row rows).foldlM step n =
      some (n.start tag none whole) := by
  induction rows with
  | nil =>
    intro row _
    have hquote : (row ++ ['"']).getLast? ≠ some '/' := by simp
    have hend : Element.ended? (row ++ '"' :: Element.ending whole) =
        some (row ++ ['"'], whole) := by
      rw [← Element.ended?_ending (.inr hquote), List.append_assoc]
      rfl
    rw [Text.endLast, List.foldlM_cons, step, htable, Option.elim_some, readRow, hend]
    rfl
  | cons next rows ih =>
    intro row hrows
    obtain ⟨hrow, hrest⟩ := List.forall_mem_cons.1 hrows
    have hstep : n.step row = some n := by
      rw [step, htable, Option.elim_some, readRow, Element.ended?_eq_none hrow, Option.elim_none]
    rw [Text.endLast, List.foldlM_cons, hstep]
    exact ih hrest

theorem foldlM_opening {n : Nesting} (htable : n.table = none) (tag : Tag) {value : Option String}
    {scope : Option Scope} {whole : Bool}
    (hvalue : ∀ v ∈ value, whole = true ∨ v.toList.getLast? ≠ some '/')
    (hscope : ∀ s ∈ scope, value = none ∧ s.declared ≠ []) :
    (Element.opening tag value scope whole).foldlM step n = some (n.start tag value whole) := by
  cases scope with
  | none =>
    rw [Element.opening, Option.elim_none, List.foldlM_cons, step_head htable tag hvalue]
    rfl
  | some s =>
    obtain ⟨rfl, hdeclared⟩ := hscope s rfl
    obtain ⟨v, vs, hs⟩ := List.exists_cons_of_ne_nil hdeclared
    have hrows : ∀ r ∈ s.rowLine v :: vs.map s.rowLine, r.getLast? ≠ some '>' := by
      rw [← List.map_cons, List.forall_mem_map]
      exact fun v _ => s.getLast?_rowLine v
    rw [Element.opening, Option.elim_some, hs, List.map_cons, Text.endLast, List.foldlM_cons,
      step_table htable tag]
    exact foldlM_rows rfl whole _ hrows

theorem step_closing {n : Nesting} (htable : n.table = none) {tag : Tag} {value : Option String}
    {before : List Element} {outer : List (Tag × Option String × List Element)}
    (h : n.outer = (tag, value, before) :: outer) :
    n.step (Element.closing tag) = some ⟨before ++ [.mk tag value none n.inside], outer, none⟩ := by
  have hline : Element.closing tag = '<' :: '/' :: (tag.text.toList ++ ['>']) := by
    simp [Element.closing]
  rw [step, htable, Option.elim_none, hline, readLine?, ← hline, close?, h]
  exact if_pos rfl

mutual

/-- The lines of an element make it complete. -/
theorem foldlM_lines : ∀ (e : Element) (n : Nesting), e.Writable → n.table = none →
    e.lines.foldlM step n = some (n.add e.bare)
  | .mk tag value scope children, n, h, htable => by
    obtain ⟨hvalue, hscope, hchildren⟩ := h
    have hopening := fun (whole : Bool) hwhole =>
      @foldlM_opening n htable tag value scope whole hwhole
        fun s hs => ⟨(hscope s hs).1, (hscope s hs).2.1⟩
    rw [Element.lines]
    cases children with
    | nil => exact hopening true fun _ _ => .inl rfl
    | cons child children =>
      have hopen := hopening false fun v hv =>
        .inr ((hvalue v hv).2.resolve_left (List.cons_ne_nil _ _))
      -- The children are read while their element is the innermost one that is open.
      have hinner := foldlM_linesAll (child :: children) (n.start tag value false) hchildren rfl
      rw [if_neg (by simp), List.foldlM_append, hopen]
      show ((Element.linesAll (child :: children) ++ [Element.closing tag]).foldlM step
        (n.start tag value false)) = _
      rw [List.foldlM_append, hinner]
      show ([Element.closing tag]).foldlM step _ = _
      rw [List.foldlM_cons, step_closing rfl rfl]
      rfl

theorem foldlM_linesAll : ∀ (es : List Element) (n : Nesting), Element.WritableAll es →
    n.table = none →
    (Element.linesAll es).foldlM step n = some ⟨n.inside ++ Element.bareAll es, n.outer, none⟩
  | [], n, _, htable => by
    rw [Element.linesAll, Element.bareAll, List.append_nil, ← htable]
    rfl
  | e :: es, n, h, htable => by
    have hrest := foldlM_linesAll es (n.add e.bare) h.2 rfl
    rw [Element.linesAll, List.foldlM_append, foldlM_lines e n h.1 htable]
    refine hrest.trans ?_
    simp [add, Element.bareAll]

end

/-- The text of an element is read as the element without its tables. -/
theorem read_text {e : Element} (h : e.Writable) : read e.text = some e.bare := by
  rw [read, Element.lines_text h, foldlM_lines e {} h rfl]
  rfl

end Nesting

end LittleTiny
