import LittleTiny.Proofs.Evaluation
import LittleTiny.Proofs.Names
import LittleTiny.Proofs.Steps

/-!
# Running a listing

A listing runs on the words that are printed: registers, variables and labels are nothing but their
names, and a word is a numeral if it begins with a digit or the dot. Declarations and labels do
nothing, a comparison is kept for the conditional jump behind it, and a jump goes to the line that
has its label. A run halts when it falls off the end; it gets stuck at a line that is no
instruction, at a jump to a label that no line has, at a jump without a comparison before it, when
it reads without input, and when it sets a numeral.
-/

namespace LittleTiny.Tiny

universe u

/-- A listing, each line as its words. -/
abbrev Listing := List (List String)

/-- The lines that are emitted, as words. -/
def listing (code : Code) : Listing := (emit code).map Line.words

/-! ## Instructions -/

/-- What a line tells the machine to do, with the words of the line. -/
inductive Command where
  | pass
  | move (source target : String)
  /-- Sets `target` to the operation on `target` and `source`. -/
  | arith (op : ArithOp) (of : NumClass) (source target : String)
  | compare (of : NumClass) (lhs rhs : String)
  | jumpIf (test : Comparison) (target : String)
  | jump (target : String)
  | read (of : NumClass) (name : String)
  | write (of : VarType) (name : String)
deriving DecidableEq, Repr

/-- The instruction that a line of words is. -/
def Command.ofWords? : List String → Option Command
  | ["var", _] => some .pass
  | ["str", _, _] => some .pass
  | ["label", _] => some .pass
  | ["move", source, target] => some (.move source target)
  | ["addi", source, target] => some (.arith .add .int source target)
  | ["addr", source, target] => some (.arith .add .float source target)
  | ["subi", source, target] => some (.arith .sub .int source target)
  | ["subr", source, target] => some (.arith .sub .float source target)
  | ["muli", source, target] => some (.arith .mul .int source target)
  | ["mulr", source, target] => some (.arith .mul .float source target)
  | ["divi", source, target] => some (.arith .div .int source target)
  | ["divr", source, target] => some (.arith .div .float source target)
  | ["cmpi", lhs, rhs] => some (.compare .int lhs rhs)
  | ["cmpr", lhs, rhs] => some (.compare .float lhs rhs)
  | ["jgt", target] => some (.jumpIf .greater target)
  | ["jge", target] => some (.jumpIf .greaterEqual target)
  | ["jlt", target] => some (.jumpIf .less target)
  | ["jle", target] => some (.jumpIf .lessEqual target)
  | ["jne", target] => some (.jumpIf .notEqual target)
  | ["jeq", target] => some (.jumpIf .equal target)
  | ["jmp", target] => some (.jump target)
  | ["sys", "readi", name] => some (.read .int name)
  | ["sys", "readr", name] => some (.read .float name)
  | ["sys", "writei", name] => some (.write (.number .int) name)
  | ["sys", "writer", name] => some (.write (.number .float) name)
  | ["sys", "writes", name] => some (.write .string name)
  | _ => none

/-- The instruction that a line of assembly is printed for. -/
def Line.command : Line → Command
  | var _ => .pass
  | str _ _ => .pass
  | label _ => .pass
  | move source target => .move source.text target.text
  | arith op of source target => .arith op of source.text target.text
  | compare of lhs rhs => .compare of lhs.text rhs.text
  | jumpIf test target => .jumpIf test target.text
  | jump target => .jump target.text
  | read of name => .read of name
  | write of name => .write of name

theorem Command.ofWords?_words (line : Line) : ofWords? line.words = some line.command := by
  cases line with
  | arith op of source target => cases op <;> cases of <;> rfl
  | compare of lhs rhs => cases of <;> rfl
  | jumpIf test target => cases test <;> rfl
  | read of name => cases of <;> rfl
  | write of name =>
    cases of with
    | number of => cases of <;> rfl
    | string => rfl
  | _ => rfl

/-! ## The machine -/

/-- What the names hold, the inputs not yet read, and the outputs, each with the type it was written
as. -/
structure World (V : Type u) where
  store : String → V
  input : List V
  output : List (VarType × V)

/-- A state of the machine, with what was compared last. -/
structure State (V : Type u) where
  counter : Nat
  flag : Option (NumClass × V × V)
  world : World V

variable {V : Type u}

namespace World

/-- The value of a word: that of a numeral, or what the name stands for. -/
def value (N : Interpretation V) (w : World V) (word : String) : V :=
  if isNumeral word then N.literal word else w.store word

/-- The world with a value for the name; a numeral cannot be set. -/
def set? (w : World V) (word : String) (a : V) : Option (World V) :=
  if isNumeral word then none else some { w with store := Function.update w.store word a }

/-- Reads the next input into what the word names. -/
def read? (N : Interpretation V) (w : World V) (of : NumClass) (word : String) : Option (World V) :=
  match w.input with
  | [] => none
  | a :: rest => { w with input := rest }.set? word (N.receive of a)

/-- The world after the value of the word has been written, with its type. -/
def write (N : Interpretation V) (w : World V) (of : VarType) (word : String) : World V :=
  { w with output := w.output ++ [(of, w.value N word)] }

end World

namespace State

/-- The next line, in another world. -/
def advance (m : State V) (w : World V) : State V := { m with counter := m.counter + 1, world := w }

/-- The next line, with what has been compared. -/
def keep (m : State V) (of : NumClass) (a b : V) : State V :=
  { m with counter := m.counter + 1, flag := some (of, a, b) }

/-- Goes to the first line with the label. -/
def jump (m : State V) (lines : Listing) (l : String) : Option (State V) :=
  (lines.findIdx? fun words => words == ["label", l]).map fun place => { m with counter := place }

end State

/-- What an instruction of the listing does. -/
def Command.exec (N : Interpretation V) (lines : Listing) (m : State V) :
    Command → Option (State V)
  | pass => some (m.advance m.world)
  | move source target => (m.world.set? target (m.world.value N source)).map m.advance
  | arith op of source target =>
    (m.world.set? target (N.arith op of (m.world.value N target) (m.world.value N source))).map
      m.advance
  | compare of lhs rhs => some (m.keep of (m.world.value N lhs) (m.world.value N rhs))
  | jumpIf test target =>
    match m.flag with
    | none => none
    | some (of, a, b) =>
      if N.test test of a b then m.jump lines target else some (m.advance m.world)
  | jump target => m.jump lines target
  | read of name => (m.world.read? N of name).map m.advance
  | write of name => some (m.advance (m.world.write N of name))

/-- One step of the machine. -/
def next (N : Interpretation V) (lines : Listing) (m : State V) : Option (State V) :=
  lines[m.counter]?.bind fun words => (Command.ofWords? words).bind (Command.exec N lines m)

/-- A run from the first line halts by falling off the end of the listing. -/
def Halts (N : Interpretation V) (lines : Listing) (w w' : World V) : Prop :=
  ∃ flag, Reaches (next N lines) ⟨0, none, w⟩ ⟨lines.length, flag, w'⟩

theorem next_eq {N : Interpretation V} {lines : Listing} {m : State V} {line : Line}
    (h : lines[m.counter]? = some line.words) : next N lines m = line.command.exec N lines m := by
  rw [next, h, Option.bind_some, Command.ofWords?_words]
  rfl

theorem next_end {N : Interpretation V} {lines : Listing} {m : State V}
    (h : m.counter = lines.length) : next N lines m = none := by
  rw [next, List.getElem?_eq_none (Nat.le_of_eq h.symm)]
  rfl

end LittleTiny.Tiny
