import LittleTiny.Scope

/-!
# Program trees

The typed tree of a program. Every name, type and expression carries its location, every block the
scope of its declarations. Numerals stay as they were written.
-/

namespace LittleTiny

/-- The four operations on numbers. -/
inductive ArithOp where
  | add
  | sub
  | mul
  | div
deriving DecidableEq, Repr

/-- The sign of an operation. -/
def ArithOp.text : ArithOp → String
  | add => "+"
  | sub => "-"
  | mul => "*"
  | div => "/"

/-- The six tests on numbers. -/
inductive Comparison where
  | less
  | greater
  | lessEqual
  | greaterEqual
  | equal
  | notEqual
deriving DecidableEq, Repr

namespace Comparison

/-- The sign of a test. -/
def text : Comparison → String
  | less => "<"
  | greater => ">"
  | lessEqual => "<="
  | greaterEqual => ">="
  | equal => "="
  | notEqual => "!="

/-- The test that holds exactly when this one does not. -/
def negate : Comparison → Comparison
  | less => greaterEqual
  | greater => lessEqual
  | lessEqual => greater
  | greaterEqual => less
  | equal => notEqual
  | notEqual => equal

end Comparison

/-- Expressions. The location of one in parentheses includes them. -/
inductive Expr where
  | int (digits : String) (location : Location)
  | float (digits : String) (location : Location)
  | var (name : String) (location : Location)
  | binary (op : ArithOp) (lhs rhs : Expr) (location : Location)
  | call (function : Located String) (arguments : List Expr) (location : Location)

namespace Expr

/-- Where an expression stands. -/
def location : Expr → Location
  | int _ l => l
  | float _ l => l
  | var _ l => l
  | binary _ _ _ l => l
  | call _ _ l => l

/-- The same expression at another location. -/
def relocate (l : Location) : Expr → Expr
  | int digits _ => int digits l
  | float digits _ => float digits l
  | var name _ => var name l
  | binary op lhs rhs _ => binary op lhs rhs l
  | call function arguments _ => call function arguments l

/-- The operation on two expressions, from the start of the first to the end of the second. -/
def join (op : ArithOp) (lhs rhs : Expr) : Expr :=
  binary op lhs rhs (.span lhs.location rhs.location)

end Expr

/-- The condition of an IF or a WHILE. -/
structure Condition where
  op : Comparison
  lhs : Expr
  rhs : Expr

/-- A declaration: of one text with its value, or of numbers of one type. -/
inductive Declaration where
  | text (name : Located String) (value : Located String)
  | numbers (type : Located NumClass) (names : List (Located String))
deriving DecidableEq, Repr

mutual

/-- The statements. -/
inductive Statement where
  | assign (target : Located String) (value : Expr)
  | read (names : List (Located String))
  | write (names : List (Located String))
  | ifThen (condition : Condition) (body : Block)
  | ifElse (condition : Condition) (body alternative : Block)
  | loop (condition : Condition) (body : Block)
  | return_ (value : Expr)

/-- Declarations and statements, with the scope that the declarations make. -/
structure Block where
  declarations : List Declaration
  statements : List Statement
  scope : Scope

end

/-- A parameter of a function. -/
structure Parameter where
  type : Located NumClass
  name : Located String
deriving DecidableEq, Repr

/-- A function. Its parameters belong to the scope of its body. -/
structure Function where
  returns : Located ReturnType
  name : Located String
  parameters : List Parameter
  body : Block

/-- A whole program; `eof` is the location of its last token. -/
structure Program where
  name : Located String
  globals : List Declaration
  scope : Scope
  functions : List Function
  eof : Location

end LittleTiny
