import LittleTiny.Location

/-!
# Tokens

The words of Little: identifiers, keywords, literals kept as they were written, and operators with
the punctuation. `Token.text` writes a token as it stands in a program.
-/

namespace LittleTiny

/-- The reserved words. -/
inductive Keyword where
  | program
  | begin_
  | end_
  | function
  | read
  | write
  | if_
  | else_
  | endIf
  | while_
  | endWhile
  | continue_
  | break_
  | return_
  | int
  | void
  | string
  | float
deriving DecidableEq, Repr

namespace Keyword

/-- All keywords. -/
def all : List Keyword :=
  [program, begin_, end_, function, read, write, if_, else_, endIf, while_, endWhile, continue_,
    break_, return_, int, void, string, float]

/-- How a keyword is spelled. -/
def text : Keyword → String
  | program => "PROGRAM"
  | begin_ => "BEGIN"
  | end_ => "END"
  | function => "FUNCTION"
  | read => "READ"
  | write => "WRITE"
  | if_ => "IF"
  | else_ => "ELSE"
  | endIf => "ENDIF"
  | while_ => "WHILE"
  | endWhile => "ENDWHILE"
  | continue_ => "CONTINUE"
  | break_ => "BREAK"
  | return_ => "RETURN"
  | int => "INT"
  | void => "VOID"
  | string => "STRING"
  | float => "FLOAT"

/-- The keyword spelled exactly so; case counts. -/
def ofText? (s : String) : Option Keyword := all.find? fun k => k.text == s

theorem mem_all (k : Keyword) : k ∈ all := by cases k <;> decide

end Keyword

/-- Operators and punctuation. -/
inductive Operator where
  | assign
  | plus
  | minus
  | times
  | divide
  | equal
  | notEqual
  | less
  | greater
  | lessEqual
  | greaterEqual
  | openParen
  | closeParen
  | semicolon
  | comma
deriving DecidableEq, Repr

namespace Operator

/-- All operators and punctuation marks. -/
def all : List Operator :=
  [assign, plus, minus, times, divide, equal, notEqual, less, greater, lessEqual, greaterEqual,
    openParen, closeParen, semicolon, comma]

/-- How an operator is spelled. -/
def text : Operator → String
  | assign => ":="
  | plus => "+"
  | minus => "-"
  | times => "*"
  | divide => "/"
  | equal => "="
  | notEqual => "!="
  | less => "<"
  | greater => ">"
  | lessEqual => "<="
  | greaterEqual => ">="
  | openParen => "("
  | closeParen => ")"
  | semicolon => ";"
  | comma => ","

/-- The operator spelled exactly so. -/
def ofText? (s : String) : Option Operator := all.find? fun o => o.text == s

theorem mem_all (o : Operator) : o ∈ all := by cases o <;> decide

end Operator

/-- The tokens of a program. A string literal holds what stands between its quotes. -/
inductive Token where
  | identifier (name : String)
  | keyword (word : Keyword)
  | intLiteral (digits : String)
  | floatLiteral (digits : String)
  | stringLiteral (content : String)
  | operator (op : Operator)
deriving DecidableEq, Repr

namespace Token

/-- The classes of tokens that messages speak of. -/
inductive Kind where
  | identifier
  | keyword
  | intLiteral
  | floatLiteral
  | stringLiteral
  | operator
deriving DecidableEq, Repr

/-- How a message names a kind. -/
def Kind.text : Kind → String
  | identifier => "IDENTIFIER"
  | keyword => "KEYWORD"
  | intLiteral => "INTLITERAL"
  | floatLiteral => "FLOATLITERAL"
  | stringLiteral => "STRINGLITERAL"
  | operator => "OPERATOR"

/-- The kind of a token. -/
def kind : Token → Kind
  | .identifier _ => .identifier
  | .keyword _ => .keyword
  | .intLiteral _ => .intLiteral
  | .floatLiteral _ => .floatLiteral
  | .stringLiteral _ => .stringLiteral
  | .operator _ => .operator

/-- The token as it is written in a program, a text between double quotes. -/
def text : Token → String
  | .identifier name => name
  | .keyword word => word.text
  | .intLiteral digits => digits
  | .floatLiteral digits => digits
  | .stringLiteral content => "\"" ++ content ++ "\""
  | .operator op => op.text

end Token

end LittleTiny
