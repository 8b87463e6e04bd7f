import LittleTiny.Proofs.Grammar

/-!
# Nodes of a program tree

A program tree is written with nodes: words and signs, names, and expressions, which have nodes
inside. What stands between two expressions is fixed, and an expression may stand in parentheses, so
that the nodes say all of a text of the program but the parentheses and the places.
-/

namespace LittleTiny

open Grammar

/-- What a program is written with. Of a token, the tree keeps what it says, or its location as
well. -/
inductive Node where
  | plain (t : Token)
  | kept (t : Located Token)
  | expr (e : Expr)

namespace Node

/-- A word that the grammar fixes. -/
abbrev word (k : Keyword) : Node := plain (.keyword k)

/-- A sign that the grammar fixes. -/
abbrev sign (o : Operator) : Node := plain (.operator o)

/-- A name, which the tree keeps with its location. -/
abbrev name (n : Located String) : Node := kept (identifier n)

/-- Items with commas between them. -/
def commas {α : Type} (write : α → List Node) : List α → List Node
  | [] => []
  | a :: as => write a ++ as.flatMap fun a => sign .comma :: write a

end Node

/-- The nodes of an expression, without parentheses around it. -/
def Expr.nodes : Expr → List Node
  | int digits _ => [.plain (.intLiteral digits)]
  | float digits _ => [.plain (.floatLiteral digits)]
  | var name _ => [.plain (.identifier name)]
  | binary op lhs rhs _ => [.expr lhs, .sign op.operator, .expr rhs]
  | call function arguments _ =>
    .name function :: .sign .openParen ::
      (Node.commas (fun e => [.expr e]) arguments ++ [.sign .closeParen])

/-- The nodes of a declaration. -/
def Declaration.nodes : Declaration → List Node
  | text name value =>
    [.word .string, .name name, .sign .assign, .kept ⟨.stringLiteral value.value, value.location⟩,
      .sign .semicolon]
  | numbers type names =>
    .kept (word type.value.keyword type.location) ::
      (Node.commas (fun name => [.name name]) names ++ [.sign .semicolon])

/-- The condition of an IF or a WHILE, with the parentheses. -/
def Condition.nodes (c : Condition) : List Node :=
  [.sign .openParen, .expr c.lhs, .sign c.op.operator, .expr c.rhs, .sign .closeParen]

/-- The names of a READ or a WRITE, with the parentheses and the semicolon. -/
def Statement.nameNodes (names : List (Located String)) : List Node :=
  .sign .openParen ::
    (Node.commas (fun name => [.name name]) names ++ [.sign .closeParen, .sign .semicolon])

mutual

/-- The nodes of a statement. -/
def Statement.nodes : Statement → List Node
  | .assign target value => [.name target, .sign .assign, .expr value, .sign .semicolon]
  | .read names => .word .read :: Statement.nameNodes names
  | .write names => .word .write :: Statement.nameNodes names
  | .ifThen condition body =>
    .word .if_ :: (condition.nodes ++ body.nodes ++ [.word .endIf])
  | .ifElse condition body alternative =>
    .word .if_ :: (condition.nodes ++ body.nodes ++
      .word .else_ :: (alternative.nodes ++ [.word .endIf]))
  | .loop condition body =>
    .word .while_ :: (condition.nodes ++ body.nodes ++ [.word .endWhile])
  | .return_ value => [.word .return_, .expr value, .sign .semicolon]

/-- The nodes of the declarations and statements of a block. -/
def Block.nodes : Block → List Node
  | ⟨declarations, statements, _⟩ =>
    declarations.flatMap Declaration.nodes ++ Statement.nodesAll statements

/-- The nodes of statements one behind the other. -/
def Statement.nodesAll : List Statement → List Node
  | [] => []
  | s :: ss => s.nodes ++ Statement.nodesAll ss

end

/-- The nodes of a parameter. -/
def Parameter.nodes (p : Parameter) : List Node :=
  [.kept (word p.type.value.keyword p.type.location), .name p.name]

/-- The nodes of a function. -/
def Function.nodes (f : Function) : List Node :=
  .word .function :: .kept (word f.returns.value.keyword f.returns.location) :: .name f.name ::
    .sign .openParen :: (Node.commas Parameter.nodes f.parameters ++
      .sign .closeParen :: .word .begin_ :: (f.body.nodes ++ [.word .end_]))

/-- The nodes of a whole program. -/
def Program.nodes (p : Program) : List Node :=
  .word .program :: .name p.name :: .word .begin_ ::
    (p.globals.flatMap Declaration.nodes ++ p.functions.flatMap Function.nodes ++ [.word .end_])

end LittleTiny
