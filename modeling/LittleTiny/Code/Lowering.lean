import LittleTiny.Code

/-!
# Lowering

The code of a program is that of its first function named `main`; the others are not looked at. The
value of every expression gets a temporary of its own, taken before those of its operands. A
condition becomes a branch on the opposite test, out of the block that it guards. Names are looked
up in the scope of the block that the statement stands in, conditions included; the first fault in
reading order is reported.
-/

namespace LittleTiny

/-- What lowering does not support. -/
inductive Feature where
  | returns
  | calls
deriving DecidableEq, Repr

/-- How a message names a feature. -/
def Feature.text : Feature → String
  | returns => "RETURN statements"
  | calls => "Function calls"

/-- Why a program has no code. -/
inductive SemanticError where
  | noMain
  | undeclared (name : String)
  | notNumeric (name : String)
  | unsupported (feature : Feature)
deriving DecidableEq, Repr

/-- The message of an error. -/
def SemanticError.message : SemanticError → String
  | noMain => "Could not find main method"
  | undeclared name => "Variable '" ++ name ++ "' is not declared in this scope"
  | notNumeric name =>
    "Variable '" ++ name ++ "' has type " ++ VarType.string.text ++ ", expected INT or FLOAT"
  | unsupported feature => feature.text ++ " are not supported"

/-- The numbers of the next temporary and the next label. -/
structure Supply where
  temps : Nat := 0
  labels : Nat := 0
deriving DecidableEq, Repr

/-- Lowering takes numbers from the supply, and may fail. -/
abbrev Lower := EStateM (Located SemanticError) Supply

namespace Lower

/-- Takes the next temporary. -/
def freshTemp : Lower Temp :=
  modifyGet fun s => (⟨s.temps⟩, { s with temps := s.temps + 1 })

/-- Takes the next label. -/
def freshLabel : Lower Label :=
  modifyGet fun s => (⟨s.labels⟩, { s with labels := s.labels + 1 })

/-- Ends with an error at the location. -/
def fail {α : Type} (e : SemanticError) (at_ : Location) : Lower α := throw ⟨e, at_⟩

end Lower

open Lower

namespace Scope

/-- The variable of a name, or the error that there is none. -/
def resolve (scope : Scope) (name : String) (at_ : Location) : Lower Variable :=
  match scope.lookup? name with
  | some v => return v
  | none => fail (.undeclared name) at_

/-- The variable of that name, which has to hold a number, with the class of the number. -/
def numeric (scope : Scope) (name : String) (at_ : Location) : Lower (NumClass × Variable) := do
  let v ← scope.resolve name at_
  match v.type with
  | .number of => return (of, v)
  | .string => fail (.notNumeric name) at_

/-- The declaration of the variables of a scope, if it has any. -/
def declaration (scope : Scope) : Code :=
  if scope.declared.isEmpty then [] else [.declare scope]

end Scope

/-- Code that leaves a number of class `of` in `temp`. -/
structure Value where
  of : NumClass
  temp : Temp
  code : Code

namespace Expr

/-- The code of an expression. The temporary of its value is taken before those of its operands. -/
def lower (scope : Scope) : Expr → Lower Value
  | int digits _ => do
    let out ← freshTemp
    return ⟨.int, out, [.store .int (.literal digits) (.temp out)]⟩
  | float digits _ => do
    let out ← freshTemp
    return ⟨.float, out, [.store .float (.literal digits) (.temp out)]⟩
  | var name l => do
    let out ← freshTemp
    let (of, v) ← scope.numeric name l
    return ⟨of, out, [.store of (.var v) (.temp out)]⟩
  | binary op lhs rhs _ => do
    let out ← freshTemp
    let a ← lhs.lower scope
    let b ← rhs.lower scope
    let of := a.of.promote b.of
    return ⟨of, out, a.code ++ b.code ++ [.arith op of a.temp b.temp out]⟩
  | call function _ _ => do
    let _ ← freshTemp
    fail (.unsupported .calls) function.location

end Expr

/-- Code that goes to `target` when the condition is false. -/
def Condition.lower (scope : Scope) (c : Condition) (target : Label) : Lower Code := do
  let a ← c.lhs.lower scope
  let b ← c.rhs.lower scope
  return a.code ++ b.code ++ [.branch c.op.negate (a.of.promote b.of) a.temp b.temp target]

/-- The code of a READ, an instruction for each name. -/
def Statement.lowerReads (scope : Scope) : List (Located String) → Lower Code
  | [] => return []
  | name :: names => do
    let (of, v) ← scope.numeric name.value name.location
    let rest ← Statement.lowerReads scope names
    return .read of v :: rest

/-- The code of a WRITE, an instruction for each name. -/
def Statement.lowerWrites (scope : Scope) : List (Located String) → Lower Code
  | [] => return []
  | name :: names => do
    let v ← scope.resolve name.value name.location
    let rest ← Statement.lowerWrites scope names
    return .write v :: rest

mutual

/-- The code of a statement in a block with the given scope. -/
def Statement.lower (scope : Scope) : Statement → Lower Code
  | .assign target value => do
    let (of, v) ← scope.numeric target.value target.location
    let e ← value.lower scope
    return e.code ++ [.store of (.temp e.temp) (.var v)]
  | .read names => Statement.lowerReads scope names
  | .write names => Statement.lowerWrites scope names
  | .ifThen condition body => do
    let exit ← freshLabel
    let test ← condition.lower scope exit
    let then_ ← body.lower
    return test ++ then_ ++ [.label exit]
  | .ifElse condition body alternative => do
    let other ← freshLabel
    let exit ← freshLabel
    let test ← condition.lower scope other
    let then_ ← body.lower
    let else_ ← alternative.lower
    return test ++ then_ ++ [.jump exit, .label other] ++ else_ ++ [.label exit]
  | .loop condition body => do
    let top ← freshLabel
    let exit ← freshLabel
    let test ← condition.lower scope exit
    let again ← body.lower
    return [.label top] ++ test ++ again ++ [.jump top, .label exit]
  | .return_ value => fail (.unsupported .returns) value.location

/-- The code of a block, with the declaration of its scope in front. -/
def Block.lower : Block → Lower Code
  | ⟨_, statements, scope⟩ => do
    let code ← Statement.lowerAll scope statements
    return scope.declaration ++ code

/-- The code of statements in a row. -/
def Statement.lowerAll (scope : Scope) : List Statement → Lower Code
  | [] => return []
  | s :: ss => do
    let code ← s.lower scope
    let rest ← Statement.lowerAll scope ss
    return code ++ rest

end

namespace Program

/-- The first function named `main`. -/
def main? (p : Program) : Option Function := p.functions.find? fun f => f.name.value == "main"

/-- The declarations of the program, and the body of `main`. -/
def lowerMain (p : Program) : Lower Code :=
  match p.main? with
  | some main => do
    let body ← main.body.lower
    return p.scope.declaration ++ body
  | none => fail .noMain p.eof

/-- The code of a program, or its first fault. -/
def lower (p : Program) : Except (Located SemanticError) Code :=
  match p.lowerMain.run {} with
  | .ok code _ => .ok code
  | .error e _ => .error e

end Program

end LittleTiny
