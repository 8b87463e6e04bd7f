/-!
# Types of Little

Numbers are of one of two classes, whole or real; a variable holds a number or a text; a function
returns a number or nothing. Each type has the word that names it in a program.
-/

namespace LittleTiny

/-- The class of a number. -/
inductive NumClass where
  | int
  | float
deriving DecidableEq, Repr

namespace NumClass

/-- How a type of numbers is spelled. -/
def text : NumClass → String
  | int => "INT"
  | float => "FLOAT"

/-- The class of an operation on two numbers: one real operand makes it real. -/
def promote : NumClass → NumClass → NumClass
  | int, int => int
  | _, _ => float

end NumClass

/-- The declared type of a variable. -/
inductive VarType where
  | number (of : NumClass)
  | string
deriving DecidableEq, Repr

namespace VarType

/-- How a type is spelled. -/
def text : VarType → String
  | number of => of.text
  | string => "STRING"

end VarType

/-- What a function returns. -/
inductive ReturnType where
  | number (of : NumClass)
  | void
deriving DecidableEq, Repr

namespace ReturnType

/-- How a return type is spelled. -/
def text : ReturnType → String
  | number of => of.text
  | void => "VOID"

end ReturnType

end LittleTiny
