import LittleTiny.Code

/-!
# Tiny assembly

A line of Tiny declares a variable or a text, names a place, or is a step of a machine with
registers: moving, calculating on a register, comparing, jumping, reading and writing. Every
instruction of three-address code becomes lines of its own, a temporary becoming the register of the
same number.
-/

namespace LittleTiny.Tiny

/-- What a line speaks of. -/
inductive Operand where
  | register (index : Nat)
  | var (name : String)
  | literal (digits : String)
deriving DecidableEq, Repr

/-- An operand as it is written. -/
def Operand.text : Operand → String
  | register index => "r" ++ index.repr
  | var name => name
  | literal digits => digits

/-- The lines of an assembly listing. -/
inductive Line where
  | var (name : String)
  | str (name value : String)
  | label (name : Label)
  | move (source target : Operand)
  /-- Sets the register `target` to the operation on `target` and `source`. -/
  | arith (op : ArithOp) (of : NumClass) (source target : Operand)
  | compare (of : NumClass) (lhs rhs : Operand)
  /-- Goes to `target` if the test holds of what was compared last. -/
  | jumpIf (test : Comparison) (target : Label)
  | jump (target : Label)
  | read (of : NumClass) (name : String)
  | write (of : VarType) (name : String)
deriving DecidableEq, Repr

/-- The letter for numbers of a class. -/
def classLetter : NumClass → String
  | .int => "i"
  | .float => "r"

/-- The letter of a type at the end of a name. -/
def typeLetter : VarType → String
  | .number of => classLetter of
  | .string => "s"

/-- The name of an operation, without the letter of its class. -/
def arithName : ArithOp → String
  | .add => "add"
  | .sub => "sub"
  | .mul => "mul"
  | .div => "div"

/-- The name of the jump for a test. -/
def jumpName : Comparison → String
  | .greater => "jgt"
  | .greaterEqual => "jge"
  | .less => "jlt"
  | .lessEqual => "jle"
  | .notEqual => "jne"
  | .equal => "jeq"

namespace Line

/-- The words of a line. -/
def words : Line → List String
  | var name => ["var", name]
  | str name value => ["str", name, "\"" ++ value ++ "\""]
  | label name => ["label", name.text]
  | move source target => ["move", source.text, target.text]
  | arith op of source target => [arithName op ++ classLetter of, source.text, target.text]
  | compare of lhs rhs => ["cmp" ++ classLetter of, lhs.text, rhs.text]
  | jumpIf test target => [jumpName test, target.text]
  | jump target => ["jmp", target.text]
  | read of name => ["sys", "read" ++ classLetter of, name]
  | write of name => ["sys", "write" ++ typeLetter of, name]

/-- A line as it is written. -/
def text (l : Line) : String := " ".intercalate l.words

end Line

/-! ## Emission -/

/-- Each temporary has a register of the same number. -/
def register (t : Temp) : Operand := .register t.index

/-- The operand of an instruction as one of the assembly. -/
def operand : LittleTiny.Operand → Operand
  | .temp t => register t
  | .var v => .var v.mangled
  | .literal digits => .literal digits

/-- The line that declares a variable; a text without a value starts empty. -/
def declaration (v : Variable) : Line :=
  match v.type with
  | .number _ => .var v.mangled
  | .string => .str v.mangled (v.value.getD "")

/-- The lines of one instruction. -/
def emitInstruction : Instruction → List Line
  | .declare scope => scope.declared.map declaration
  | .arith op of lhs rhs out =>
    [.move (register lhs) (register out), .arith op of (register rhs) (register out)]
  | .store _ source target => [.move (operand source) (operand target)]
  | .branch test of lhs rhs target =>
    [.compare of (register lhs) (register rhs), .jumpIf test target]
  | .jump target => [.jump target]
  | .label name => [.label name]
  | .read of v => [.read of v.mangled]
  | .write v => [.write v.type v.mangled]

/-- The lines of a piece of code. -/
def emit (code : Code) : List Line := code.flatMap emitInstruction

/-- The listing, line by line. -/
def text (lines : List Line) : String := String.join (lines.map fun l => l.text ++ "\n")

end LittleTiny.Tiny
