import LittleTiny.Proofs.Transcript.Words

/-!
# Reading lines of code

The first word of a line of code is an opcode, which says what the instruction does, and of which
class the numbers are that it does it with; the words behind it are the operands. All the opcodes
differ, and the variables of an instruction are of its class (`Program.LoweredTo.typed`), so that a
line is read as the instruction that it shows (`Instruction.ofText?_text`).
-/

namespace LittleTiny

open Text

/-! ## Opcodes -/

/-- What an instruction does. -/
inductive Operation where
  | arith (op : ArithOp) (of : NumClass)
  | store (of : NumClass)
  | branch (test : Comparison) (of : NumClass)
  | jump
  | label
  | read (of : NumClass)
  | write (type : VarType)
deriving DecidableEq, Repr

namespace Operation

/-- The first word of a line. -/
def opcode : Operation → String
  | arith op of => op.opcode ++ of.letter
  | store of => "STORE" ++ of.letter
  | branch test of => test.opcode ++ of.letter
  | jump => "JUMP"
  | label => "LABEL"
  | read of => "READ" ++ of.letter
  | write type => "WRITE" ++ type.letter

/-- The operations on numbers of a class. -/
def ofClass (of : NumClass) : List Operation :=
  [ArithOp.add, .sub, .mul, .div].map (arith · of) ++
  [Comparison.less, .greater, .lessEqual, .greaterEqual, .equal, .notEqual].map (branch · of) ++
  [store of, read of, write (.number of)]

/-- All operations. -/
def all : List Operation := ofClass .int ++ ofClass .float ++ [jump, label, write .string]

/-- The operation with the opcode. -/
def ofOpcode? (opcode : String) : Option Operation := all.find? fun o => o.opcode == opcode

theorem ofOpcode?_opcode (o : Operation) : ofOpcode? o.opcode = some o := by
  rcases o with ⟨_ | _, _ | _⟩ | ⟨_ | _⟩ | ⟨_ | _, _ | _⟩ | _ | _ | ⟨_ | _⟩ | ⟨⟨_ | _⟩ | _⟩ <;>
    decide

theorem compact_opcode (o : Operation) : Compact o.opcode := by
  apply compact_of_all
  rcases o with ⟨_ | _, _ | _⟩ | ⟨_ | _⟩ | ⟨_ | _, _ | _⟩ | _ | _ | ⟨_ | _⟩ | ⟨⟨_ | _⟩ | _⟩ <;>
    rfl

/-- The instruction with the operands. -/
def instruction? : Operation → List String → Option Instruction
  | arith op of, [lhs, rhs, out] => some (.arith op of (.ofText lhs) (.ofText rhs) (.ofText out))
  | store of, [source, target] =>
    some (.store of (.ofText (.number of) source) (.ofText (.number of) target))
  | branch test of, [lhs, rhs, target] =>
    some (.branch test of (.ofText lhs) (.ofText rhs) (.ofText target))
  | jump, [target] => some (.jump (.ofText target))
  | label, [name] => some (.label (.ofText name))
  | read of, [v] => some (.read of (.ofText (.number of) v))
  | write type, [v] => some (.write (.ofText type v))
  | _, _ => none

end Operation

/-! ## Instructions -/

namespace Instruction

/-- What an instruction does; a declaration has no line. -/
def operation? : Instruction → Option Operation
  | declare _ => none
  | arith op of _ _ _ => some (.arith op of)
  | store of _ _ => some (.store of)
  | branch test of _ _ _ => some (.branch test of)
  | jump _ => some .jump
  | label _ => some .label
  | read of _ => some (.read of)
  | write v => some (.write v.type)

theorem opcode?_eq (i : Instruction) : i.opcode? = i.operation?.map Operation.opcode := by
  cases i <;> rfl

/-- What the code shows of an instruction. -/
def shown : Instruction → Instruction
  | declare scope => declare scope
  | arith op of lhs rhs out => arith op of lhs rhs out
  | store of source target => store of source.shown target.shown
  | branch test of lhs rhs target => branch test of lhs rhs target
  | jump target => jump target
  | label name => label name
  | read of v => read of v.shown
  | write v => write v.shown

/-- The variables are of the class of the instruction. -/
def Typed : Instruction → Prop
  | store of source target => ∀ v ∈ source.cells ++ target.cells, v.type = .number of
  | read of v => v.type = .number of
  | _ => True

/-- The instruction that a line of code shows. -/
def ofText? (line : List Char) : Option Instruction :=
  match words line with
  | [] => none
  | opcode :: operands => (Operation.ofOpcode? opcode).bind fun o => o.instruction? operands

variable {i : Instruction} (hnames : ∀ v ∈ i.uses, IsWord v.name.value.toList)
  (hliterals : Numerals i.literals)

include hnames hliterals

theorem compact_operands : ∀ w ∈ i.operands, Compact w := by
  cases i with
  | declare scope => exact fun w hw => nomatch hw
  | arith op of lhs rhs out =>
    simpa [operands] using ⟨lhs.compact_text, rhs.compact_text, out.compact_text⟩
  | store of source target =>
    obtain ⟨hsource, htarget⟩ := List.forall_mem_append.1 hnames
    obtain ⟨hsource', htarget'⟩ := List.forall_mem_append.1 hliterals
    simpa [operands] using
      ⟨Operand.compact_text hsource hsource', Operand.compact_text htarget htarget'⟩
  | branch test of lhs rhs target =>
    simpa [operands] using ⟨lhs.compact_text, rhs.compact_text, target.compact_text⟩
  | jump target => exact List.forall_mem_singleton.2 target.compact_text
  | label name => exact List.forall_mem_singleton.2 name.compact_text
  | read of v =>
    have hv := hnames v (List.mem_singleton_self v)
    exact List.forall_mem_singleton.2 (Variable.compact_mangled hv)
  | write v =>
    have hv := hnames v (List.mem_singleton_self v)
    exact List.forall_mem_singleton.2 (Variable.compact_mangled hv)

theorem compact_words {o : Operation} : ∀ w ∈ o.opcode :: i.operands, Compact w :=
  List.forall_mem_cons.2 ⟨o.compact_opcode, compact_operands hnames hliterals⟩

theorem inline_text : Inline i.text := by
  unfold text
  rw [opcode?_eq]
  cases i.operation? with
  | none => exact List.not_mem_nil
  | some o => exact inline_intercalate fun w hw => (compact_words hnames hliterals w hw).inline

theorem ofText?_eq {o : Operation} (h : i.operation? = some o) :
    ofText? i.text.toList = o.instruction? i.operands := by
  have hwords : words i.text.toList = o.opcode :: i.operands := by
    unfold text
    rw [opcode?_eq, h]
    exact words_intercalate (compact_words hnames hliterals) (List.cons_ne_nil _ _)
  simp only [ofText?, hwords, o.ofOpcode?_opcode, Option.bind_some]

/-- A line of code is read as the instruction that it shows. -/
theorem ofText?_text (htyped : i.Typed) (hline : i.isExecutable = true) :
    ofText? i.text.toList = some i.shown := by
  cases i with
  | declare scope => cases hline
  | arith op of lhs rhs out =>
    rw [ofText?_eq hnames hliterals rfl]
    simp only [operands, Operation.instruction?, Temp.ofText_text, shown]
  | store of source target =>
    obtain ⟨hsource, htarget⟩ := List.forall_mem_append.1 hnames
    obtain ⟨hsource', htarget'⟩ := List.forall_mem_append.1 hliterals
    obtain ⟨htype, htype'⟩ := List.forall_mem_append.1 htyped
    rw [ofText?_eq hnames hliterals rfl]
    simp only [operands, Operation.instruction?, Operand.ofText_text hsource hsource' htype,
      Operand.ofText_text htarget htarget' htype', shown]
  | branch test of lhs rhs target =>
    rw [ofText?_eq hnames hliterals rfl]
    simp only [operands, Operation.instruction?, Temp.ofText_text, Label.ofText_text, shown]
  | jump target =>
    rw [ofText?_eq hnames hliterals rfl]
    simp only [operands, Operation.instruction?, Label.ofText_text, shown]
  | label name =>
    rw [ofText?_eq hnames hliterals rfl]
    simp only [operands, Operation.instruction?, Label.ofText_text, shown]
  | read of v =>
    have hv := Variable.ofText_mangled (hnames v (List.mem_singleton_self v))
    rw [show v.type = .number of from htyped] at hv
    rw [ofText?_eq hnames hliterals rfl]
    simp only [operands, Operation.instruction?, hv, shown]
  | write v =>
    have hv := Variable.ofText_mangled (hnames v (List.mem_singleton_self v))
    rw [ofText?_eq hnames hliterals rfl]
    simp only [operands, Operation.instruction?, hv, shown]

end Instruction

/-! ## Classes of variables -/

theorem Frames.type_of_number? {env : Frames} {name : String} {of : NumClass} {v : Variable}
    (h : env.number? name = some (of, v)) : v.type = .number of := by
  unfold number? at h
  split at h
  · split at h
    · next htype =>
      cases h
      exact htype
    · cases h
  · cases h

theorem Scope.typed_declaration (scope : Scope) : ∀ i ∈ scope.declaration, i.Typed := by
  intro i hi
  unfold declaration at hi
  split at hi
  · cases hi
  · rw [List.mem_singleton.1 hi]
    trivial

theorem Expr.Lowered.typed {env : Frames} {e : Expr} {n n' : Nat} {k : NumClass} {code : Code}
    (h : e.Lowered env n k code n') : ∀ i ∈ code, i.Typed := by
  induction h with
  | int => exact List.forall_mem_singleton.2 fun v hv => nomatch hv
  | float => exact List.forall_mem_singleton.2 fun v hv => nomatch hv
  | var hv =>
    refine List.forall_mem_singleton.2 fun v hmem => ?_
    rw [List.mem_singleton.1 hmem]
    exact Frames.type_of_number? hv
  | binary ha hb iha ihb =>
    exact List.forall_mem_append.2 ⟨List.forall_mem_append.2 ⟨iha, ihb⟩,
      List.forall_mem_singleton.2 trivial⟩

theorem Condition.Lowered.typed {env : Frames} {c : Condition} {target : Label} {n n' : Nat}
    {code : Code} (h : c.Lowered env target n code n') : ∀ i ∈ code, i.Typed := by
  obtain ⟨ha, hb⟩ := h
  exact List.forall_mem_append.2 ⟨List.forall_mem_append.2 ⟨ha.typed, hb.typed⟩,
    List.forall_mem_singleton.2 trivial⟩

theorem Lowered.typed {env : Frames} {ss : List Statement} {s s' : Supply} {code : Code}
    (h : Lowered env ss s code s') : ∀ i ∈ code, i.Typed := by
  induction h with
  | nil => exact fun i hi => nomatch hi
  | assign hv ha hss ih =>
    refine List.forall_mem_append.2 ⟨ha.typed, List.forall_mem_cons.2 ⟨fun v hmem => ?_, ih⟩⟩
    rw [List.mem_singleton.1 hmem]
    exact Frames.type_of_number? hv
  | readNil hss ih => exact ih
  | readCons hv hss ih => exact List.forall_mem_cons.2 ⟨Frames.type_of_number? hv, ih⟩
  | writeNil hss ih => exact ih
  | writeCons hv hss ih => exact List.forall_mem_cons.2 ⟨trivial, ih⟩
  | ifThen hc hscope hbody hss ihbody ihss =>
    simp only [List.forall_mem_append, List.forall_mem_cons]
    exact ⟨⟨hc.typed, Scope.typed_declaration _, ihbody⟩, trivial, ihss⟩
  | ifElse hc hscope hbody hscope' halternative hss ihbody ihalternative ihss =>
    simp only [List.forall_mem_append, List.forall_mem_cons]
    exact ⟨⟨hc.typed, Scope.typed_declaration _, ihbody⟩, trivial, trivial,
      ⟨Scope.typed_declaration _, ihalternative⟩, trivial, ihss⟩
  | loop hc hscope hbody hss ihbody ihss =>
    simp only [List.forall_mem_append, List.forall_mem_cons]
    exact ⟨trivial, ⟨hc.typed, Scope.typed_declaration _, ihbody⟩, trivial, trivial, ihss⟩

/-- The variables of an instruction are of its class. -/
theorem Program.LoweredTo.typed {p : Program} {main : Function} {body : Code} {s : Supply}
    {code : Code} (h : p.LoweredTo main body s code) : ∀ i ∈ code, i.Typed := by
  rw [h.code_eq, List.forall_mem_append, List.forall_mem_append]
  exact ⟨Scope.typed_declaration _, Scope.typed_declaration _, h.lowered.typed⟩

end LittleTiny
