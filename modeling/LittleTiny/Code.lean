import LittleTiny.Tree

/-!
# Three-address code

Code is a list of instructions on temporaries, variables, literals and labels. A `declare` marks the
place where the variables of a scope come into being; it has no text of its own. Every other
instruction is one line: its opcode, then its operands.
-/

namespace LittleTiny

/-- A temporary. -/
structure Temp where
  index : Nat
deriving DecidableEq, Repr

/-- The name of a temporary in the listing. -/
def Temp.text (t : Temp) : String := "$T" ++ t.index.repr

/-- A label. -/
structure Label where
  index : Nat
deriving DecidableEq, Repr

/-- The name of a label in the listing. -/
def Label.text (l : Label) : String := "label" ++ l.index.repr

/-- What a value is copied from or to. -/
inductive Operand where
  | temp (t : Temp)
  | var (v : Variable)
  | literal (digits : String)
deriving DecidableEq, Repr

/-- An operand in the listing. -/
def Operand.text : Operand → String
  | temp t => t.text
  | var v => v.mangled
  | literal digits => digits

/-- The instructions. -/
inductive Instruction where
  /-- The variables of a scope begin here. -/
  | declare (scope : Scope)
  /-- Sets `out` to the operation on `lhs` and `rhs`. -/
  | arith (op : ArithOp) (of : NumClass) (lhs rhs out : Temp)
  /-- Copies `source` to `target`. -/
  | store (of : NumClass) (source target : Operand)
  /-- Goes to `target` if the test holds of `lhs` and `rhs`. -/
  | branch (test : Comparison) (of : NumClass) (lhs rhs : Temp) (target : Label)
  | jump (target : Label)
  | label (name : Label)
  | read (of : NumClass) (v : Variable)
  | write (v : Variable)
deriving DecidableEq, Repr

/-- Instructions one after the other. -/
abbrev Code := List Instruction

/-- The letter that tells the variants of an opcode apart. -/
def NumClass.letter : NumClass → String
  | int => "I"
  | float => "F"

/-- The letter of a type at the end of an opcode. -/
def VarType.letter : VarType → String
  | number of => of.letter
  | string => "S"

/-- The opcode of an operation, without the letter of its class. -/
def ArithOp.opcode : ArithOp → String
  | add => "ADD"
  | sub => "SUB"
  | mul => "MULT"
  | div => "DIV"

/-- The opcode of a test, without the letter of its class. -/
def Comparison.opcode : Comparison → String
  | greater => "GT"
  | greaterEqual => "GE"
  | less => "LT"
  | lessEqual => "LE"
  | notEqual => "NE"
  | equal => "EQ"

namespace Instruction

/-- The name of the operation, for instructions that have a text. -/
def opcode? : Instruction → Option String
  | declare _ => none
  | arith op of _ _ _ => some (op.opcode ++ of.letter)
  | store of _ _ => some ("STORE" ++ of.letter)
  | branch test of _ _ _ => some (test.opcode ++ of.letter)
  | jump _ => some "JUMP"
  | label _ => some "LABEL"
  | read of _ => some ("READ" ++ of.letter)
  | write v => some ("WRITE" ++ v.type.letter)

/-- The texts of the operands, in the order in which they are written. -/
def operands : Instruction → List String
  | declare _ => []
  | arith _ _ lhs rhs out => [lhs.text, rhs.text, out.text]
  | store _ source target => [source.text, target.text]
  | branch _ _ lhs rhs target => [lhs.text, rhs.text, target.text]
  | jump target => [target.text]
  | label name => [name.text]
  | read _ v => [v.mangled]
  | write v => [v.mangled]

/-- The line of an instruction: its opcode and its operands. -/
def text (i : Instruction) : String :=
  match i.opcode? with
  | some opcode => " ".intercalate (opcode :: i.operands)
  | none => ""

/-- Whether the instruction has a line of its own. -/
def isExecutable : Instruction → Bool
  | declare _ => false
  | _ => true

end Instruction

namespace Code

/-- The instructions that have a line in the listing. -/
def executable (code : Code) : List Instruction := code.filter Instruction.isExecutable

/-- The listing, a line for each executable instruction. -/
def text (code : Code) : String := String.join (code.executable.map fun i => i.text ++ "\n")

end Code

end LittleTiny
