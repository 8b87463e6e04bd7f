import LittleTiny.Proofs.Declarations
import LittleTiny.Proofs.Nesting.Program
import LittleTiny.Proofs.Outline

/-!
# Words of a line

A line of code or of assembly is made of words with blanks between them. Since the words have no
blanks in them, they can be told apart again (`Text.words_intercalate`), and what they stand for can
be told from how they begin: a temporary, a label, a variable or a numeral
(`Operand.ofText_text`). Of a variable the code shows everything but the place where it was declared
and the text that it holds.
-/

namespace LittleTiny

namespace Text

/-- The words of a line. -/
def words (line : List Char) : List String := (line.splitOn ' ').map String.ofList

/-- The characters of which words are made. -/
def isWordChar (c : Char) : Bool := Scan.isLetter c || Scan.isDigit c || c == '$' || c == '.'

/-- A text that is one word. -/
def Compact (w : String) : Prop := ∀ c ∈ w.toList, isWordChar c

theorem Compact.notMem {w : String} (h : Compact w) {c : Char} (hc : isWordChar c = false) :
    c ∉ w.toList := by
  intro hmem
  have hword := h c hmem
  rw [hc] at hword
  cases hword

theorem Compact.inline {w : String} (h : Compact w) : Inline w := h.notMem rfl

theorem Compact.append {w w' : String} (h : Compact w) (h' : Compact w') : Compact (w ++ w') := by
  unfold Compact
  rw [String.toList_append]
  exact List.forall_mem_append.2 ⟨h, h'⟩

theorem compact_of_all {w : String} (h : w.toList.all isWordChar = true) : Compact w :=
  List.all_eq_true.1 h

theorem compact_repr (n : Nat) : Compact n.repr := by
  intro c hc
  have hdigit := isDigit_of_mem_repr hc
  simp [isWordChar, hdigit]

/-- Words that are written with blanks between them are read again. -/
theorem words_intercalate {ws : List String} (h : ∀ w ∈ ws, Compact w) (hne : ws ≠ []) :
    words (" ".intercalate ws).toList = ws := by
  have hblank : ∀ w ∈ ws.map String.toList, ' ' ∉ w :=
    List.forall_mem_map.2 fun w hw => (h w hw).notMem rfl
  rw [words, String.toList_intercalate]
  show ((([' '].intercalate (ws.map String.toList)).splitOn ' ').map String.ofList) = ws
  rw [List.splitOn_intercalate ' ' hblank (by simpa using hne), List.map_map]
  simp [Function.comp_def]

theorem intercalate_words (line : List Char) :
    " ".intercalate (words line) = String.ofList line := by
  apply String.toList_injective
  rw [words, String.toList_intercalate, List.map_map, String.toList_ofList]
  simp only [Function.comp_def, String.toList_ofList, List.map_id']
  exact List.intercalate_splitOn ' '

/-- The first word, with anything behind it. -/
theorem words_append {w : String} (h : Compact w) (rest : List Char) :
    words (w.toList ++ ' ' :: rest) = w :: words rest := by
  -- There is no blank in the word at which it could be cut.
  have hword : w.toList.splitOn ' ' = [w.toList] := by
    have hsplit := List.splitOn_intercalate ' '
      (List.forall_mem_singleton.2 (h.notMem (c := ' ') rfl)) (List.cons_ne_nil _ _)
    rwa [List.intercalate_singleton] at hsplit
  have hsplit : (w.toList ++ ' ' :: rest).splitOn ' ' =
      w.toList.splitOn ' ' ++ rest.splitOn ' ' :=
    List.splitOnP_append_cons w.toList rest rfl
  rw [words, hsplit, hword]
  simp [words]

theorem inline_intercalate {ws : List String} (h : ∀ w ∈ ws, Inline w) :
    Inline (" ".intercalate ws) := by
  unfold Inline
  rw [String.toList_intercalate]
  show '\n' ∉ [' '].intercalate (ws.map String.toList)
  induction ws with
  | nil => simp
  | cons w ws ih =>
    obtain ⟨hw, hws⟩ := List.forall_mem_cons.1 h
    have hrest := ih hws
    cases ws with
    | nil =>
      rw [List.map_cons, List.map_nil, List.intercalate_singleton]
      exact hw
    | cons next ws =>
      rw [List.map_cons, List.map_cons, List.intercalate_cons_cons, List.mem_append,
        List.mem_append]
      exact not_or.2 ⟨not_or.2 ⟨hw, by decide⟩, hrest⟩

/-- A line begins with its first word. -/
theorem exists_toList_intercalate (w : String) (ws : List String) :
    ∃ rest, (" ".intercalate (w :: ws)).toList = w.toList ++ rest := by
  rw [String.toList_intercalate, List.map_cons]
  cases ws with
  | nil => exact ⟨[], by simp⟩
  | cons next ws =>
    rw [List.map_cons, List.intercalate_cons_cons, List.append_assoc]
    exact ⟨_, rfl⟩

/-- The number that digits stand for. -/
def ofDigits (digits : List Char) : Nat := Nat.ofDigitChars 10 digits 0

theorem ofDigits_repr (n : Nat) : ofDigits n.repr.toList = n := by
  rw [ofDigits, Nat.repr_eq_ofList_toDigits, String.toList_ofList, Nat.ofDigitChars_ten_toDigits]

/-- A number behind other characters. -/
theorem ofDigits_drop (start : String) (n : Nat) :
    ofDigits ((start ++ n.repr).toList.drop start.toList.length) = n := by
  rw [String.toList_append, List.drop_left, ofDigits_repr]

end Text

open Text

theorem IsWord.compact {w : String} (h : IsWord w.toList) : Compact w := by
  intro c hc
  have hword := h.2 c hc
  simp only [Bool.or_eq_true] at hword
  simp [isWordChar, hword]

theorem IsNumeral.compact {w : String} (h : IsNumeral w.toList) : Compact w := by
  intro c hc
  by_contra hnot
  simp only [isWordChar, Bool.or_eq_true, beq_iff_eq, not_or, Bool.not_eq_true] at hnot
  exact h.notMem hnot.1.1.2 hnot.2 hc

/-- A numeral begins with a digit or the dot. -/
theorem IsNumeral.head?_ne {cs : List Char} (h : IsNumeral cs) {c : Char}
    (hdigit : Scan.isDigit c = false) (hdot : c ≠ '.') : cs.head? ≠ some c :=
  fun hhead => h.notMem hdigit hdot (List.mem_of_head? hhead)

/-! ## Temporaries and labels -/

/-- The temporary with the name. -/
def Temp.ofText (text : String) : Temp := ⟨ofDigits (text.toList.drop 2)⟩

theorem Temp.ofText_text (t : Temp) : ofText t.text = t :=
  congrArg mk (ofDigits_drop "$T" t.index)

theorem Temp.compact_text (t : Temp) : Compact t.text :=
  Compact.append (compact_of_all rfl) (compact_repr _)

/-- The label with the name. -/
def Label.ofText (text : String) : Label := ⟨ofDigits (text.toList.drop 5)⟩

theorem Label.ofText_text (l : Label) : ofText l.text = l :=
  congrArg mk (ofDigits_drop "label" l.index)

theorem Label.compact_text (l : Label) : Compact l.text :=
  Compact.append (compact_of_all rfl) (compact_repr _)

/-! ## Variables -/

namespace Variable

/-- What the code shows of a variable. -/
def shown (v : Variable) : Variable := ⟨v.name.erase, v.type, none, v.scope⟩

/-- The variable of the type that stands in the code under this name. -/
def ofText (type : VarType) (text : String) : Variable :=
  ⟨⟨String.ofList ((text.toList.drop 3).dropWhile Scan.isDigit), {}⟩, type, none,
    ofDigits ((text.toList.drop 3).takeWhile Scan.isDigit)⟩

theorem dropWhile_isDigit_append (n : Nat) {word : List Char} (h : IsWord word) :
    (n.repr.toList ++ word).dropWhile Scan.isDigit = word := by
  have hparts := List.takeWhile_append_dropWhile (p := Scan.isDigit) (l := n.repr.toList ++ word)
  rw [takeWhile_isDigit_append n h] at hparts
  exact List.append_cancel_left hparts

theorem ofText_mangled {v : Variable} (h : IsWord v.name.value.toList) :
    ofText v.type v.mangled = v.shown := by
  have hrest : v.mangled.toList.drop 3 = v.scope.repr.toList ++ v.name.value.toList := by
    rw [toList_mangled]
    rfl
  rw [ofText, hrest, dropWhile_isDigit_append _ h, takeWhile_isDigit_append _ h, ofDigits_repr,
    String.ofList_toList]
  rfl

theorem compact_mangled {v : Variable} (h : IsWord v.name.value.toList) : Compact v.mangled :=
  ((compact_of_all rfl : Compact "var").append (compact_repr _)).append h.compact

theorem head?_mangled (v : Variable) : v.mangled.toList.head? = some 'v' := by
  rw [toList_mangled]
  rfl

end Variable

/-! ## Operands -/

namespace Operand

/-- The operand with what can be seen of it in the listing. -/
def shown : Operand → Operand
  | temp t => temp t
  | var v => var v.shown
  | literal digits => literal digits

/-- The operand that a word of the code stands for, its variable being of the type. -/
def ofText (type : VarType) (text : String) : Operand :=
  if text.toList.head? = some '$' then temp (.ofText text)
  else if text.toList.head? = some 'v' then var (.ofText type text)
  else literal text

variable {o : Operand} (hnames : ∀ v ∈ o.cells, IsWord v.name.value.toList)
  (hliterals : Numerals o.literals)

include hnames hliterals

theorem ofText_text {type : VarType} (htype : ∀ v ∈ o.cells, v.type = type) :
    ofText type o.text = o.shown := by
  cases o with
  | temp t =>
    have hhead : t.text.toList.head? = some '$' := by simp [Temp.text]
    rw [text, ofText, if_pos hhead, Temp.ofText_text]
    rfl
  | var v =>
    have hhead := v.head?_mangled
    have hv := v.ofText_mangled (hnames v (List.mem_singleton_self v))
    rw [htype v (List.mem_singleton_self v)] at hv
    rw [text, ofText, if_neg (by simp [hhead]), if_pos hhead, hv]
    rfl
  | literal digits =>
    have hnumeral := hliterals digits (List.mem_singleton_self digits)
    rw [text, ofText, if_neg (hnumeral.head?_ne rfl (by decide)),
      if_neg (hnumeral.head?_ne rfl (by decide))]
    rfl

theorem compact_text : Compact o.text := by
  cases o with
  | temp t => exact t.compact_text
  | var v => exact Variable.compact_mangled (hnames v (List.mem_singleton_self v))
  | literal digits => exact IsNumeral.compact (hliterals digits (List.mem_singleton_self digits))

end Operand

end LittleTiny
