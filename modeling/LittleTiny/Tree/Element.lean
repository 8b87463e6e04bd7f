import LittleTiny.Tree

/-!
# Elements

A program tree as nested elements, each with a tag, perhaps a value and perhaps the scope whose
table it shows. `Element.text` writes an element without children as one line and any other as an
opening line, its children and a closing line.
-/

namespace LittleTiny

/-- The kinds of elements. -/
inductive Tag where
  | intLiteral
  | floatLiteral
  | stringLiteral
  | identifier
  | lessThan
  | greaterThan
  | lessThanEqual
  | greaterThanEqual
  | notEqual
  | equal
  | addition
  | subtraction
  | multiplication
  | division
  | assignment
  | read
  | write
  | if_
  | while_
  | return_
  | call
  | condition
  | stringDeclaration
  | variableDeclaration
  | declarationList
  | statementList
  | intType
  | floatType
  | stringType
  | voidType
  | parameter
  | parameterList
  | function
  | functionList
  | program
deriving DecidableEq, Repr

/-- The name of a kind in the listing. -/
def Tag.text : Tag → String
  | intLiteral => "IntLiteral"
  | floatLiteral => "FloatLiteral"
  | stringLiteral => "StringLiteral"
  | identifier => "Identifier"
  | lessThan => "LessThan"
  | greaterThan => "GreaterThan"
  | lessThanEqual => "LessThanEqual"
  | greaterThanEqual => "GreaterThanEqual"
  | notEqual => "NotEqual"
  | equal => "Equal"
  | addition => "Addition"
  | subtraction => "Subtraction"
  | multiplication => "Multiplication"
  | division => "Division"
  | assignment => "Assignment"
  | read => "Read"
  | write => "Write"
  | if_ => "If"
  | while_ => "While"
  | return_ => "Return"
  | call => "Call"
  | condition => "Condition"
  | stringDeclaration => "StringDeclaration"
  | variableDeclaration => "VariableDeclaration"
  | declarationList => "DeclarationList"
  | statementList => "StatementList"
  | intType => "IntType"
  | floatType => "FloatType"
  | stringType => "StringType"
  | voidType => "VoidType"
  | parameter => "Parameter"
  | parameterList => "ParameterList"
  | function => "Function"
  | functionList => "FunctionList"
  | program => "Program"

/-- The kind of the element for an operation. -/
def ArithOp.tag : ArithOp → Tag
  | add => .addition
  | sub => .subtraction
  | mul => .multiplication
  | div => .division

/-- The kind of the element for a test. -/
def Comparison.tag : Comparison → Tag
  | less => .lessThan
  | greater => .greaterThan
  | lessEqual => .lessThanEqual
  | greaterEqual => .greaterThanEqual
  | equal => .equal
  | notEqual => .notEqual

/-- The kind of the element for the type of a number. -/
def NumClass.tag : NumClass → Tag
  | int => .intType
  | float => .floatType

/-- The kind of the element for the type of a variable. -/
def VarType.tag : VarType → Tag
  | number of => of.tag
  | string => .stringType

/-- The kind of the element for what a function returns. -/
def ReturnType.tag : ReturnType → Tag
  | number of => of.tag
  | void => .voidType

/-- A node of the tree as it is shown. -/
inductive Element where
  | mk (tag : Tag) (value : Option String) (scope : Option Scope) (children : List Element)

namespace Element

/-- An element with a value and nothing inside. -/
def leaf (tag : Tag) (value : String) : Element := mk tag (some value) none []

/-- An element that only holds others. -/
def branch (tag : Tag) (children : List Element) : Element := mk tag none none children

/-- An element that also shows the table of a scope that declares something. -/
def branchIn (scope : Scope) (tag : Tag) (children : List Element) : Element :=
  mk tag none (if scope.declared.isEmpty then none else some scope) children

/-- The element of a name. -/
def name (n : Located String) : Element := leaf .identifier n.value

mutual

/-- How an element is shown: all on one line, or with the elements inside between its two tags. -/
def text : Element → String
  | mk tag value scope children =>
    let head := "<" ++ tag.text ++
      (match value with
        | some v => " " ++ v
        | none => "") ++
      (match scope with
        | some s => " table=\"" ++ s.table ++ "\""
        | none => "")
    if children.isEmpty then
      head ++ "/>\n"
    else
      head ++ ">\n" ++ textAll children ++ "</" ++ tag.text ++ ">\n"

/-- The texts of the elements one after the other. -/
def textAll : List Element → String
  | [] => ""
  | e :: es => e.text ++ textAll es

end

end Element

/-! ## The elements of a program -/

namespace Expr

mutual

/-- The element of an expression. -/
def element : Expr → Element
  | int digits _ => .leaf .intLiteral digits
  | float digits _ => .leaf .floatLiteral digits
  | var name _ => .leaf .identifier name
  | binary op lhs rhs _ => .branch op.tag [lhs.element, rhs.element]
  | call function arguments _ => .mk .call (some function.value) none (elements arguments)

/-- The elements of the arguments of a call. -/
def elements : List Expr → List Element
  | [] => []
  | e :: es => e.element :: elements es

end

end Expr

/-- The element of a condition, with the test inside. -/
def Condition.element (c : Condition) : Element :=
  .branch .condition [.branch c.op.tag [c.lhs.element, c.rhs.element]]

/-- The element of a declaration. -/
def Declaration.element : Declaration → Element
  | text name value => .branch .stringDeclaration [.name name, .leaf .stringLiteral value.value]
  | numbers type names =>
    .branch .variableDeclaration (.branch type.value.tag [] :: names.map .name)

mutual

/-- The element of a statement; an IF has the parts of both its blocks one behind the other. -/
def Statement.element : Statement → Element
  | .assign target value => .branch .assignment [.name target, value.element]
  | .read names => .branch .read (names.map .name)
  | .write names => .branch .write (names.map .name)
  | .ifThen condition body => .branch .if_ (condition.element :: body.elements)
  | .ifElse condition body alternative =>
    .branch .if_ (condition.element :: (body.elements ++ alternative.elements))
  | .loop condition body => .branch .while_ (condition.element :: body.elements)
  | .return_ value => .branch .return_ [value.element]

/-- The declarations of a block, and its statements with its table. -/
def Block.elements : Block → List Element
  | ⟨declarations, statements, scope⟩ =>
    [.branch .declarationList (declarations.map Declaration.element),
      .branchIn scope .statementList (Statement.elements statements)]

/-- The elements of statements in a row. -/
def Statement.elements : List Statement → List Element
  | [] => []
  | s :: ss => s.element :: Statement.elements ss

end

/-- The element of a parameter. -/
def Parameter.element (p : Parameter) : Element :=
  .branch .parameter [.branch p.type.value.tag [], .name p.name]

/-- The element of a function. -/
def Function.element (f : Function) : Element :=
  .branch .function
    ([.branch f.returns.value.tag [], .name f.name,
      .branch .parameterList (f.parameters.map Parameter.element)] ++ f.body.elements)

/-- The element of a program, which is the root of the listing. -/
def Program.element (p : Program) : Element :=
  .branch .program
    [.name p.name, .branchIn p.scope .declarationList (p.globals.map Declaration.element),
      .branch .functionList (p.functions.map Function.element)]

/-- The tree listing of a program. -/
def Program.treeText (p : Program) : String := p.element.text

end LittleTiny
