import LittleTiny.Proofs.Listing
import LittleTiny.Proofs.Transcript.Words

/-!
# Reading lines of assembly

The first word of a line of assembly says what kind of line it is. The words behind it have no
blanks in them, but for the text that a `str` line declares, and this stands last, between quotes.
So a line is read as what it is (`Line.ofText?_text`), if its operands can be told apart; those of a
listing can (`readable_emitInstruction`).
-/

namespace LittleTiny.Tiny

open Text

/-! ## First words -/

/-- What kind of line it is. -/
inductive Verb where
  | var
  | str
  | label
  | move
  | arith (op : ArithOp) (of : NumClass)
  | compare (of : NumClass)
  | jumpIf (test : Comparison)
  | jump
  | sys
deriving DecidableEq, Repr

namespace Verb

/-- The first word of a line. -/
def text : Verb → String
  | var => "var"
  | str => "str"
  | label => "label"
  | move => "move"
  | arith op of => arithName op ++ classLetter of
  | compare of => "cmp" ++ classLetter of
  | jumpIf test => jumpName test
  | jump => "jmp"
  | sys => "sys"

/-- The verbs for numbers of a class. -/
def ofClass (of : NumClass) : List Verb :=
  compare of :: [ArithOp.add, .sub, .mul, .div].map (arith · of)

/-- All that lines begin with. -/
def all : List Verb :=
  [var, str, label, move, jump, sys] ++ ofClass .int ++ ofClass .float ++
    [Comparison.less, .greater, .lessEqual, .greaterEqual, .equal, .notEqual].map jumpIf

/-- What a line begins with, by its first word. -/
def ofText? (text : String) : Option Verb := all.find? fun v => v.text == text

theorem ofText?_text (v : Verb) : ofText? v.text = some v := by
  rcases v with _ | _ | _ | _ | ⟨_ | _, _ | _⟩ | ⟨_ | _⟩ | ⟨_ | _⟩ | _ | _ <;> decide

theorem compact_text (v : Verb) : Compact v.text := by
  apply compact_of_all
  rcases v with _ | _ | _ | _ | ⟨_ | _, _ | _⟩ | ⟨_ | _⟩ | ⟨_ | _⟩ | _ | _ <;> rfl

/-- No verb begins like a line of another listing. -/
theorem exists_cons (v : Verb) :
    ∃ c cs, v.text.toList = c :: cs ∧ c ≠ '<' ∧ c ≠ 'n' ∧ c ≠ ';' := by
  rcases v with _ | _ | _ | _ | ⟨_ | _, _ | _⟩ | ⟨_ | _⟩ | ⟨_ | _⟩ | _ | _ <;>
    exact ⟨_, _, rfl, by decide, by decide, by decide⟩

end Verb

/-- A call of the machine. -/
inductive Call where
  | read (of : NumClass)
  | write (of : VarType)
deriving DecidableEq, Repr

namespace Call

/-- The word behind `sys`. -/
def text : Call → String
  | read of => "read" ++ classLetter of
  | write of => "write" ++ typeLetter of

/-- The call with the word. -/
def ofText? (text : String) : Option Call :=
  [read .int, read .float, write (.number .int), write (.number .float), write .string].find?
    fun c => c.text == text

theorem ofText?_text (c : Call) : ofText? c.text = some c := by
  rcases c with ⟨_ | _⟩ | ⟨⟨_ | _⟩ | _⟩ <;> decide

theorem compact_text (c : Call) : Compact c.text := by
  apply compact_of_all
  rcases c with ⟨_ | _⟩ | ⟨⟨_ | _⟩ | _⟩ <;> rfl

/-- The line of a call for a name. -/
def line (name : String) : Call → Line
  | read of => .read of name
  | write of => .write of name

end Call

/-! ## Operands -/

namespace Operand

/-- The operand that a word of a line stands for. -/
def ofText (text : String) : Operand :=
  if text.toList.head? = some 'r' then register (ofDigits (text.toList.drop 1))
  else if text.toList.head? = some 'v' then var text
  else literal text

/-- The operand can be told from others by how it begins. -/
def Readable : Operand → Prop
  | register _ => True
  | var name => name.toList.head? = some 'v' ∧ Compact name
  | literal digits => IsNumeral digits.toList

theorem ofText_text {o : Operand} (h : o.Readable) : ofText o.text = o := by
  cases o with
  | register index =>
    have hhead : ("r" ++ index.repr).toList.head? = some 'r' := by simp
    rw [text, ofText, if_pos hhead]
    exact congrArg register (ofDigits_drop "r" index)
  | var name =>
    obtain ⟨hhead, -⟩ := h
    rw [text, ofText, if_neg (by simp [hhead]), if_pos hhead]
  | literal digits =>
    have hnumeral : IsNumeral digits.toList := h
    rw [text, ofText, if_neg (hnumeral.head?_ne rfl (by decide)),
      if_neg (hnumeral.head?_ne rfl (by decide))]

theorem compact_text {o : Operand} (h : o.Readable) : Compact o.text := by
  cases o with
  | register index => exact Compact.append (compact_of_all rfl) (compact_repr index)
  | var name => exact h.2
  | literal digits => exact IsNumeral.compact h

theorem compact_pair {o o' : Operand} (h : o.Readable ∧ o'.Readable) :
    ∀ w ∈ [o.text, o'.text], Compact w :=
  List.forall_mem_cons.2 ⟨compact_text h.1, List.forall_mem_singleton.2 (compact_text h.2)⟩

end Operand

/-! ## Lines -/

namespace Line

/-- What a line begins with. -/
def verb : Line → Verb
  | var _ => .var
  | str _ _ => .str
  | label _ => .label
  | move _ _ => .move
  | arith op of _ _ => .arith op of
  | compare of _ _ => .compare of
  | jumpIf test _ => .jumpIf test
  | jump _ => .jump
  | read _ _ => .sys
  | write _ _ => .sys

theorem words_eq (l : Line) : l.words = l.verb.text :: l.words.tail := by
  cases l <;> rfl

end Line

/-- What stands between quotes. -/
def unquote (text : String) : String := String.ofList text.toList.tail.dropLast

theorem unquote_quoted (value : String) : unquote ("\"" ++ value ++ "\"") = value := by
  apply String.toList_injective
  simp [unquote]

/-- The line with these words behind the first. -/
def Verb.line? : Verb → List String → Option Line
  | .var, [name] => some (.var name)
  | .str, name :: value => some (.str name (unquote (" ".intercalate value)))
  | .label, [name] => some (.label (.ofText name))
  | .move, [source, target] => some (.move (.ofText source) (.ofText target))
  | .arith op of, [source, target] => some (.arith op of (.ofText source) (.ofText target))
  | .compare of, [lhs, rhs] => some (.compare of (.ofText lhs) (.ofText rhs))
  | .jumpIf test, [target] => some (.jumpIf test (.ofText target))
  | .jump, [target] => some (.jump (.ofText target))
  | .sys, [call, name] => (Call.ofText? call).map (Call.line name)
  | _, _ => none

namespace Line

/-- The line, read word by word. -/
def ofText? (line : List Char) : Option Line :=
  match Text.words line with
  | [] => none
  | first :: rest => (Verb.ofText? first).bind fun verb => verb.line? rest

/-- The words of the line can be told from others, and a text goes to the end of the line. -/
def Readable : Line → Prop
  | var name => Compact name
  | str name value => Compact name ∧ Inline value
  | label _ => True
  | move source target => source.Readable ∧ target.Readable
  | arith _ _ source target => source.Readable ∧ target.Readable
  | compare _ lhs rhs => lhs.Readable ∧ rhs.Readable
  | jumpIf _ _ => True
  | jump _ => True
  | read _ name => Compact name
  | write _ name => Compact name

variable {l : Line}

theorem compact_words (h : l.Readable) (hl : l.isText = false) : ∀ w ∈ l.words, Compact w := by
  rw [words_eq]
  refine List.forall_mem_cons.2 ⟨l.verb.compact_text, ?_⟩
  cases l with
  | str name value => cases hl
  | var name => exact List.forall_mem_singleton.2 h
  | label name => exact List.forall_mem_singleton.2 name.compact_text
  | move source target => exact Operand.compact_pair h
  | arith op of source target => exact Operand.compact_pair h
  | compare of lhs rhs => exact Operand.compact_pair h
  | jumpIf test target => exact List.forall_mem_singleton.2 target.compact_text
  | jump target => exact List.forall_mem_singleton.2 target.compact_text
  | read of name =>
    exact List.forall_mem_cons.2 ⟨(Call.read of).compact_text, List.forall_mem_singleton.2 h⟩
  | write of name =>
    exact List.forall_mem_cons.2 ⟨(Call.write of).compact_text, List.forall_mem_singleton.2 h⟩

theorem inline_text (h : l.Readable) : Inline l.text := by
  apply inline_intercalate
  cases hl : l.isText with
  | false => exact fun w hw => (compact_words h hl w hw).inline
  | true =>
    cases l with
    | str name value =>
      have hquoted : Inline ("\"" ++ value ++ "\"") := by
        have hvalue : '\n' ∉ value.toList := h.2
        simp [Inline, hvalue]
      exact List.forall_mem_cons.2 ⟨Verb.str.compact_text.inline, List.forall_mem_cons.2
        ⟨h.1.inline, List.forall_mem_singleton.2 hquoted⟩⟩
    | _ => cases hl

theorem exists_text_cons (l : Line) :
    ∃ c cs, l.text.toList = c :: cs ∧ c ≠ '<' ∧ c ≠ 'n' ∧ c ≠ ';' := by
  obtain ⟨c, cs, hverb, hc⟩ := l.verb.exists_cons
  obtain ⟨rest, hrest⟩ := exists_toList_intercalate l.verb.text l.words.tail
  rw [text, words_eq, hrest, hverb]
  exact ⟨c, cs ++ rest, rfl, hc⟩

theorem ofText?_eq {verb : Verb} {rest : List String}
    (h : Text.words l.text.toList = verb.text :: rest) :
    ofText? l.text.toList = verb.line? rest := by
  simp only [ofText?, h, verb.ofText?_text, Option.bind_some]

theorem words_text (h : l.Readable) (hl : l.isText = false) :
    Text.words l.text.toList = l.verb.text :: l.words.tail := by
  have hne : l.words ≠ [] := by
    rw [words_eq]
    exact List.cons_ne_nil _ _
  exact (words_intercalate (compact_words h hl) hne).trans l.words_eq

/-- A line of assembly is read as what it is. -/
theorem ofText?_text (h : l.Readable) : ofText? l.text.toList = some l := by
  cases l with
  | var name =>
    rw [ofText?_eq (words_text h rfl)]
    rfl
  | str name value =>
    -- The value may be cut at its blanks, but its pieces are put together again.
    have hwords : Text.words (text (.str name value)).toList =
        Verb.str.text :: name :: Text.words ("\"" ++ value ++ "\"").toList := by
      rw [← words_append h.1, ← words_append Verb.str.compact_text]
      simp [text, words, Verb.text]
    rw [ofText?_eq hwords, Verb.line?, intercalate_words, String.ofList_toList, unquote_quoted]
  | label name =>
    rw [ofText?_eq (words_text h rfl)]
    exact congrArg (some ∘ label) name.ofText_text
  | move source target =>
    rw [ofText?_eq (words_text h rfl)]
    simp only [verb, words, List.tail_cons, Verb.line?, Operand.ofText_text h.1,
      Operand.ofText_text h.2]
  | arith op of source target =>
    rw [ofText?_eq (words_text h rfl)]
    simp only [verb, words, List.tail_cons, Verb.line?, Operand.ofText_text h.1,
      Operand.ofText_text h.2]
  | compare of lhs rhs =>
    rw [ofText?_eq (words_text h rfl)]
    simp only [verb, words, List.tail_cons, Verb.line?, Operand.ofText_text h.1,
      Operand.ofText_text h.2]
  | jumpIf test target =>
    rw [ofText?_eq (words_text h rfl)]
    exact congrArg (some ∘ jumpIf test) target.ofText_text
  | jump target =>
    rw [ofText?_eq (words_text h rfl)]
    exact congrArg (some ∘ jump) target.ofText_text
  | read of name =>
    rw [ofText?_eq (words_text h rfl)]
    exact congrArg (Option.map (Call.line name)) (Call.read of).ofText?_text
  | write of name =>
    rw [ofText?_eq (words_text h rfl)]
    exact congrArg (Option.map (Call.line name)) (Call.write of).ofText?_text

end Line

/-! ## Lines of a listing -/

theorem readable_var {v : Variable} (h : IsWord v.name.value.toList) :
    (Operand.var v.mangled).Readable :=
  ⟨v.head?_mangled, v.compact_mangled h⟩

theorem readable_operand {o : LittleTiny.Operand}
    (hnames : ∀ v ∈ o.cells, IsWord v.name.value.toList) (hliterals : Numerals o.literals) :
    (operand o).Readable := by
  cases o with
  | temp t => trivial
  | var v => exact readable_var (hnames v (List.mem_singleton_self v))
  | literal digits => exact hliterals digits (List.mem_singleton_self digits)

theorem readable_declaration {v : Variable} (hname : IsWord v.name.value.toList)
    (hvalue : v.Inline) : (declaration v).Readable := by
  have hcompact := v.compact_mangled hname
  unfold declaration
  cases v.type with
  | number of => exact hcompact
  | string =>
    refine ⟨hcompact, ?_⟩
    cases hv : v.value with
    | none => exact List.not_mem_nil
    | some value => exact hvalue.2 value hv

/-- The lines of an instruction can be read. -/
theorem readable_emitInstruction {i : Instruction}
    (hnames : ∀ v ∈ i.uses ++ i.declared, IsWord v.name.value.toList)
    (hliterals : Numerals i.literals) (hvalues : ∀ v ∈ i.declared, v.Inline) :
    ∀ l ∈ emitInstruction i, l.Readable := by
  obtain ⟨huses, hdeclared⟩ := List.forall_mem_append.1 hnames
  cases i with
  | declare scope =>
    exact List.forall_mem_map.2 fun v hv => readable_declaration (hdeclared v hv) (hvalues v hv)
  | arith op of lhs rhs out =>
    exact List.forall_mem_cons.2
      ⟨⟨trivial, trivial⟩, List.forall_mem_singleton.2 ⟨trivial, trivial⟩⟩
  | store of source target =>
    obtain ⟨hsource, htarget⟩ := List.forall_mem_append.1 huses
    obtain ⟨hsource', htarget'⟩ := List.forall_mem_append.1 hliterals
    exact List.forall_mem_singleton.2
      ⟨readable_operand hsource hsource', readable_operand htarget htarget'⟩
  | branch test of lhs rhs target =>
    exact List.forall_mem_cons.2 ⟨⟨trivial, trivial⟩, List.forall_mem_singleton.2 trivial⟩
  | jump target => exact List.forall_mem_singleton.2 trivial
  | label name => exact List.forall_mem_singleton.2 trivial
  | read of v =>
    exact List.forall_mem_singleton.2 (v.compact_mangled (huses v (List.mem_singleton_self v)))
  | write v =>
    exact List.forall_mem_singleton.2 (v.compact_mangled (huses v (List.mem_singleton_self v)))

end LittleTiny.Tiny
