import LittleTiny.Proofs.Frames
import LittleTiny.Token

/-!
# The grammar of programs

A derivation is a tree that says by which rules a list of tokens is a program. It has one type for
each rule, given in the comment on the type; a word or sign that the rule fixes stands in it as the
location of its token, and any other token as what it says. `tokens` reads the tokens off a
derivation, from left to right, and `tree` is the program tree that it stands for. Scopes are
numbered in the order in which they are opened, so that `tree` is given the number of scopes opened
before. `Prog.scopes` lists, for every scope, the names that are declared in it.
-/

namespace LittleTiny

/-! ## Terminals -/

/-- The word for a type of numbers. -/
def NumClass.keyword : NumClass → Keyword
  | int => .int
  | float => .float

/-- The word for what a function returns. -/
def ReturnType.keyword : ReturnType → Keyword
  | number of => of.keyword
  | void => .void

/-- The sign of a test. -/
def Comparison.operator : Comparison → Operator
  | less => .less
  | greater => .greater
  | lessEqual => .lessEqual
  | greaterEqual => .greaterEqual
  | equal => .equal
  | notEqual => .notEqual

/-- The sign of an operation. -/
def ArithOp.operator : ArithOp → Operator
  | add => .plus
  | sub => .minus
  | mul => .times
  | div => .divide

namespace Grammar

/-- A text as the grammar sees it. -/
abbrev Tokens := List (Located Token)

/-- A keyword as a token. -/
abbrev word (k : Keyword) (l : Location) : Located Token := ⟨.keyword k, l⟩

/-- An operator or a punctuation mark as a token. -/
abbrev sign (o : Operator) (l : Location) : Located Token := ⟨.operator o, l⟩

/-- A name as a token. -/
abbrev identifier (name : Located String) : Located Token := ⟨.identifier name.value, name.location⟩

/-- `+ | -` -/
inductive Additive where
  | plus
  | minus
deriving DecidableEq, Repr

/-- The sign of `+` or `-`. -/
def Additive.operator : Additive → Operator
  | plus => .plus
  | minus => .minus

/-- The operation that `+` or `-` stands for. -/
def Additive.op : Additive → ArithOp
  | plus => .add
  | minus => .sub

/-- `* | /` -/
inductive Multiplicative where
  | times
  | divide
deriving DecidableEq, Repr

/-- The sign of `*` or `/`. -/
def Multiplicative.operator : Multiplicative → Operator
  | times => .times
  | divide => .divide

/-- The operation that `*` or `/` stands for. -/
def Multiplicative.op : Multiplicative → ArithOp
  | times => .mul
  | divide => .div

/-- `a {, a}`, each comma with its location. -/
structure Separated (α : Type) where
  first : α
  rest : List (Location × α)

namespace Separated

variable {α : Type}

/-- The items without the commas. -/
def toList (x : Separated α) : List α := x.first :: x.rest.map Prod.snd

/-- The tokens of the items behind the first. -/
def restTokens (write : α → Tokens) (rest : List (Location × α)) : Tokens :=
  rest.flatMap fun (comma, a) => sign .comma comma :: write a

/-- The tokens of items with commas between them. -/
def tokens (write : α → Tokens) (x : Separated α) : Tokens :=
  write x.first ++ restTokens write x.rest

end Separated

/-! ## Expressions -/

mutual

/-- `expr := factor {(+|-) factor}` -/
inductive Sum where
  | mk (first : Product) (rest : Terms)

/-- `{(+|-) factor}` -/
inductive Terms where
  | nil
  | cons (op : Located Additive) (operand : Product) (rest : Terms)

/-- `factor := atom {(*|/) atom}` -/
inductive Product where
  | mk (first : Atom) (rest : Factors)

/-- `{(*|/) atom}` -/
inductive Factors where
  | nil
  | cons (op : Located Multiplicative) (operand : Atom) (rest : Factors)

/-- `atom := id ( [expr {, expr}] ) | ( expr ) | id | intlit | floatlit` -/
inductive Atom where
  | call (function : Located String) (opening : Location) (arguments : Arguments)
      (closing : Location)
  | paren (opening : Location) (inner : Sum) (closing : Location)
  | var (name : Located String)
  | int (digits : Located String)
  | float (digits : Located String)

/-- `[expr {, expr}]` -/
inductive Arguments where
  | none
  | some (first : Sum) (rest : MoreArguments)

/-- `{, expr}` -/
inductive MoreArguments where
  | nil
  | cons (comma : Location) (argument : Sum) (rest : MoreArguments)

end

mutual

/-- The tokens of a sum. -/
def Sum.tokens : Sum → Tokens
  | .mk first rest => first.tokens ++ rest.tokens

/-- The tokens of the terms behind the first one, each with its sign. -/
def Terms.tokens : Terms → Tokens
  | .nil => []
  | .cons op operand rest =>
    sign op.value.operator op.location :: (operand.tokens ++ rest.tokens)

/-- The tokens of a product. -/
def Product.tokens : Product → Tokens
  | .mk first rest => first.tokens ++ rest.tokens

/-- The tokens of the factors behind the first one, each with its sign. -/
def Factors.tokens : Factors → Tokens
  | .nil => []
  | .cons op operand rest =>
    sign op.value.operator op.location :: (operand.tokens ++ rest.tokens)

/-- The tokens of an atom. -/
def Atom.tokens : Atom → Tokens
  | .call function opening arguments closing =>
    identifier function :: sign .openParen opening ::
      (arguments.tokens ++ [sign .closeParen closing])
  | .paren opening inner closing =>
    sign .openParen opening :: (inner.tokens ++ [sign .closeParen closing])
  | .var name => [identifier name]
  | .int digits => [⟨.intLiteral digits.value, digits.location⟩]
  | .float digits => [⟨.floatLiteral digits.value, digits.location⟩]

/-- The tokens between the parentheses of a call. -/
def Arguments.tokens : Arguments → Tokens
  | .none => []
  | .some first rest => first.tokens ++ rest.tokens

/-- The tokens of the arguments behind the first one, each with its comma. -/
def MoreArguments.tokens : MoreArguments → Tokens
  | .nil => []
  | .cons comma argument rest => sign .comma comma :: (argument.tokens ++ rest.tokens)

end

/-- An expression in parentheses is the one inside, from the start of the opening one to the end of
the closing one. -/
def enclosed (opening closing : Location) : Expr → Expr
  | .int digits _ => .int digits ⟨opening.first, closing.last⟩
  | .float digits _ => .float digits ⟨opening.first, closing.last⟩
  | .var name _ => .var name ⟨opening.first, closing.last⟩
  | .binary op lhs rhs _ => .binary op lhs rhs ⟨opening.first, closing.last⟩
  | .call function arguments _ => .call function arguments ⟨opening.first, closing.last⟩

theorem enclosed_eq_relocate (opening closing : Location) (e : Expr) :
    enclosed opening closing e = e.relocate (.span opening closing) := by
  cases e <;> rfl

mutual

/-- The tree of a sum. -/
def Sum.tree : Sum → Expr
  | .mk first rest => rest.tree first.tree

/-- The sum that begins with `lhs`, taken from the left. -/
def Terms.tree (lhs : Expr) : Terms → Expr
  | .nil => lhs
  | .cons op operand rest =>
    rest.tree (.binary op.value.op lhs operand.tree
      ⟨lhs.location.first, operand.tree.location.last⟩)

/-- The tree of a product. -/
def Product.tree : Product → Expr
  | .mk first rest => rest.tree first.tree

/-- The product that begins with `lhs`, taken from the left. -/
def Factors.tree (lhs : Expr) : Factors → Expr
  | .nil => lhs
  | .cons op operand rest =>
    rest.tree (.binary op.value.op lhs operand.tree
      ⟨lhs.location.first, operand.tree.location.last⟩)

/-- The tree of an atom. -/
def Atom.tree : Atom → Expr
  | .call function _ arguments closing =>
    .call function arguments.trees ⟨function.location.first, closing.last⟩
  | .paren opening inner closing => enclosed opening closing inner.tree
  | .var name => .var name.value name.location
  | .int digits => .int digits.value digits.location
  | .float digits => .float digits.value digits.location

/-- The trees of the arguments of a call. -/
def Arguments.trees : Arguments → List Expr
  | .none => []
  | .some first rest => first.tree :: rest.trees

/-- The trees of the arguments behind the first one. -/
def MoreArguments.trees : MoreArguments → List Expr
  | .nil => []
  | .cons _ argument rest => argument.tree :: rest.trees

end

/-- The operations of a sum and their right operands. -/
def Terms.toList : Terms → List (Additive × Product)
  | .nil => []
  | .cons op operand rest => (op.value, operand) :: rest.toList

/-- The operations of a product and their right operands. -/
def Factors.toList : Factors → List (Multiplicative × Atom)
  | .nil => []
  | .cons op operand rest => (op.value, operand) :: rest.toList

/-- `cond := expr (< | > | <= | >= | = | !=) expr` -/
structure Cond where
  lhs : Sum
  op : Located Comparison
  rhs : Sum

namespace Cond

/-- The tokens of a condition, without the parentheses. -/
def tokens (c : Cond) : Tokens :=
  c.lhs.tokens ++ sign c.op.value.operator c.op.location :: c.rhs.tokens

/-- The tree of a condition. -/
def tree (c : Cond) : Condition := ⟨c.op.value, c.lhs.tree, c.rhs.tree⟩

end Cond

/-! ## Declarations -/

/-- `decl := STRING id := strlit ; | (INT|FLOAT) id {, id} ;` -/
inductive Decl where
  | text (string : Location) (name : Located String) (becomes : Location) (value : Located String)
      (semicolon : Location)
  | numbers (type : Located NumClass) (names : Separated (Located String)) (semicolon : Location)

namespace Decl

/-- The tokens of a declaration. -/
def tokens : Decl → Tokens
  | text string name becomes value semicolon =>
    [word .string string, identifier name, sign .assign becomes,
      ⟨.stringLiteral value.value, value.location⟩, sign .semicolon semicolon]
  | numbers type names semicolon =>
    word type.value.keyword type.location ::
      (names.tokens (fun name => [identifier name]) ++ [sign .semicolon semicolon])

/-- The tree of a declaration. -/
def tree : Decl → Declaration
  | text _ name _ value _ => .text name value
  | numbers type names _ => .numbers type names.toList

/-- The names that are declared. -/
def names : Decl → List String
  | text _ name _ _ _ => [name.value]
  | numbers _ names _ => names.toList.map Located.value

/-- The variables that declarations make in the scope of the given number. -/
def declared (id : Nat) (ds : List Decl) : List Variable :=
  ds.flatMap fun d => d.tree.declared id

end Decl

/-- `param := (INT|FLOAT) id` -/
structure Param where
  type : Located NumClass
  name : Located String

namespace Param

/-- The tokens of a parameter. -/
def tokens (p : Param) : Tokens := [word p.type.value.keyword p.type.location, identifier p.name]

/-- The tree of a parameter. -/
def tree (p : Param) : Parameter := ⟨p.type, p.name⟩

/-- The variables that parameters make in the scope of the given number. -/
def declared (id : Nat) (ps : List Param) : List Variable :=
  ps.map fun p => p.tree.variable id

end Param

/-- `[param {, param}]` -/
inductive Params where
  | none
  | some (list : Separated Param)

namespace Params

/-- The parameters without the commas. -/
def toList : Params → List Param
  | none => []
  | some list => list.toList

/-- The tokens between the parentheses of a function. -/
def tokens : Params → Tokens
  | none => []
  | some list => list.tokens Param.tokens

end Params

/-! ## Statements -/

mutual

/-- `stmt := if | while | assign | read | write | return`, with

* `if := IF ( cond ) decl* stmt* [ELSE decl* stmt*] ENDIF`,
* `while := WHILE ( cond ) decl* stmt* ENDWHILE`,
* `assign := id := expr ;`,
* `read := READ ( id {, id} ) ;` and `write := WRITE ( id {, id} ) ;`,
* `return := RETURN expr ;`. -/
inductive Stmt where
  | assign (target : Located String) (becomes : Location) (value : Sum) (semicolon : Location)
  | read (read opening : Location) (names : Separated (Located String))
      (closing semicolon : Location)
  | write (write opening : Location) (names : Separated (Located String))
      (closing semicolon : Location)
  | ifThen (if_ opening : Location) (condition : Cond) (closing : Location) (body : Body)
      (endIf : Location)
  | ifElse (if_ opening : Location) (condition : Cond) (closing : Location) (body : Body)
      (else_ : Location) (alternative : Body) (endIf : Location)
  | loop (while_ opening : Location) (condition : Cond) (closing : Location) (body : Body)
      (endWhile : Location)
  | return_ (return_ : Location) (value : Sum) (semicolon : Location)

/-- `decl* stmt*` -/
structure Body where
  decls : List Decl
  stmts : List Stmt

end

/-- The tokens between the parentheses of an IF or a WHILE, with these. -/
def headTokens (opening : Location) (condition : Cond) (closing : Location) : Tokens :=
  sign .openParen opening :: (condition.tokens ++ [sign .closeParen closing])

/-- The tokens of the names of a READ or a WRITE, with the parentheses and the semicolon. -/
def listTokens (opening : Location) (names : Separated (Located String))
    (closing semicolon : Location) : Tokens :=
  sign .openParen opening :: (names.tokens (fun name => [identifier name]) ++
    [sign .closeParen closing, sign .semicolon semicolon])

mutual

/-- The tokens of a statement. -/
def Stmt.tokens : Stmt → Tokens
  | .assign target becomes value semicolon =>
    identifier target :: sign .assign becomes :: (value.tokens ++ [sign .semicolon semicolon])
  | .read read opening names closing semicolon =>
    word .read read :: listTokens opening names closing semicolon
  | .write write opening names closing semicolon =>
    word .write write :: listTokens opening names closing semicolon
  | .ifThen if_ opening condition closing body endIf =>
    word .if_ if_ :: (headTokens opening condition closing ++ body.tokens ++ [word .endIf endIf])
  | .ifElse if_ opening condition closing body else_ alternative endIf =>
    word .if_ if_ :: (headTokens opening condition closing ++ body.tokens ++
      word .else_ else_ :: (alternative.tokens ++ [word .endIf endIf]))
  | .loop while_ opening condition closing body endWhile =>
    word .while_ while_ ::
      (headTokens opening condition closing ++ body.tokens ++ [word .endWhile endWhile])
  | .return_ return_ value semicolon =>
    word .return_ return_ :: (value.tokens ++ [sign .semicolon semicolon])

/-- The tokens of declarations and the statements behind them. -/
def Body.tokens : Body → Tokens
  | ⟨decls, stmts⟩ => decls.flatMap Decl.tokens ++ Stmt.tokensAll stmts

/-- The tokens of statements in a row. -/
def Stmt.tokensAll : List Stmt → Tokens
  | [] => []
  | s :: ss => s.tokens ++ Stmt.tokensAll ss

end

mutual

/-- The number of scopes that a statement opens. -/
def Stmt.openings : Stmt → Nat
  | .assign .. => 0
  | .read .. => 0
  | .write .. => 0
  | .ifThen _ _ _ _ body _ => 1 + body.openings
  | .ifElse _ _ _ _ body _ alternative _ => 1 + body.openings + (1 + alternative.openings)
  | .loop _ _ _ _ body _ => 1 + body.openings
  | .return_ .. => 0

/-- The number of scopes that are opened inside a block. -/
def Body.openings : Body → Nat
  | ⟨_, stmts⟩ => Stmt.openingsAll stmts

/-- How many scopes statements in a row open. -/
def Stmt.openingsAll : List Stmt → Nat
  | [] => 0
  | s :: ss => s.openings + Stmt.openingsAll ss

end

mutual

/-- The tree of a statement in a block of the given scope, `n` scopes having been opened before. -/
def Stmt.tree (scope : Scope) (n : Nat) : Stmt → Statement
  | .assign target _ value _ => .assign target value.tree
  | .read _ _ names _ _ => .read names.toList
  | .write _ _ names _ _ => .write names.toList
  | .ifThen _ _ condition _ body _ =>
    .ifThen condition.tree (body.tree (scope.nested (n + 1)) (n + 1))
  | .ifElse _ _ condition _ body _ alternative _ =>
    .ifElse condition.tree (body.tree (scope.nested (n + 1)) (n + 1))
      (alternative.tree (scope.nested (n + 1 + body.openings + 1)) (n + 1 + body.openings + 1))
  | .loop _ _ condition _ body _ =>
    .loop condition.tree (body.tree (scope.nested (n + 1)) (n + 1))
  | .return_ _ value _ => .return_ value.tree

/-- The tree of a block whose scope has just been opened, with the parameters in it if there are
any. -/
def Body.tree (scope : Scope) (n : Nat) : Body → Block
  | ⟨decls, stmts⟩ =>
    let inner := scope.add (Decl.declared scope.id decls)
    ⟨decls.map Decl.tree, Stmt.trees inner n stmts, inner⟩

/-- The trees of statements in a row, each behind the scopes that those before it open. -/
def Stmt.trees (scope : Scope) (n : Nat) : List Stmt → List Statement
  | [] => []
  | s :: ss => s.tree scope n :: Stmt.trees scope (n + s.openings) ss

end

mutual

/-- For every scope that a statement opens, the names declared in it. -/
def Stmt.scopes : Stmt → List (List String)
  | .assign .. => []
  | .read .. => []
  | .write .. => []
  | .ifThen _ _ _ _ body _ => body.scopes []
  | .ifElse _ _ _ _ body _ alternative _ => body.scopes [] ++ alternative.scopes []
  | .loop _ _ _ _ body _ => body.scopes []
  | .return_ .. => []

/-- The names declared in a block, behind those of the parameters, and those of the scopes inside.
-/
def Body.scopes (parameters : List String) : Body → List (List String)
  | ⟨decls, stmts⟩ => (parameters ++ decls.flatMap Decl.names) :: Stmt.scopesAll stmts

/-- The names declared in each scope that statements in a row open. -/
def Stmt.scopesAll : List Stmt → List (List String)
  | [] => []
  | s :: ss => s.scopes ++ Stmt.scopesAll ss

end

/-! ## Programs -/

/-- `func := FUNCTION (INT|FLOAT|VOID) id ( [param {, param}] ) BEGIN decl* stmt* END` -/
structure Func where
  function : Location
  returns : Located ReturnType
  name : Located String
  opening : Location
  parameters : Params
  closing : Location
  begin_ : Location
  body : Body
  end_ : Location

namespace Func

/-- The tokens of a function. -/
def tokens (f : Func) : Tokens :=
  word .function f.function :: word f.returns.value.keyword f.returns.location ::
    identifier f.name :: sign .openParen f.opening ::
      (f.parameters.tokens ++
        sign .closeParen f.closing :: word .begin_ f.begin_ ::
          (f.body.tokens ++ [word .end_ f.end_]))

/-- The number of scopes that a function opens. -/
def openings (f : Func) : Nat := 1 + f.body.openings

/-- How many scopes functions in a row open. -/
def openingsAll : List Func → Nat
  | [] => 0
  | f :: fs => f.openings + openingsAll fs

/-- The scope of a function with its parameters, numbered `id`. -/
def scope (outer : Scope) (id : Nat) (f : Func) : Scope :=
  (outer.nested id).add (Param.declared id f.parameters.toList)

@[simp]
theorem id_scope (outer : Scope) (id : Nat) (f : Func) : (f.scope outer id).id = id :=
  Scope.id_add ..

@[simp]
theorem declared_scope (outer : Scope) (id : Nat) (f : Func) :
    (f.scope outer id).declared = Param.declared id f.parameters.toList :=
  Scope.declared_add ..

/-- The tree of a function, when `n` scopes have been opened before it. -/
def tree (outer : Scope) (n : Nat) (f : Func) : Function :=
  ⟨f.returns, f.name, f.parameters.toList.map Param.tree,
    f.body.tree (f.scope outer (n + 1)) (n + 1)⟩

/-- The trees of functions in a row, each behind the scopes that those before it open. -/
def trees (outer : Scope) (n : Nat) : List Func → List Function
  | [] => []
  | f :: fs => f.tree outer n :: trees outer (n + f.openings) fs

/-- The names declared in each scope of a function, its parameters among those of the first. -/
def scopes (f : Func) : List (List String) :=
  f.body.scopes (f.parameters.toList.map fun p => p.name.value)

end Func

/-- `program := PROGRAM id BEGIN decl* func* END`, with nothing behind it. -/
structure Prog where
  program : Location
  name : Located String
  begin_ : Location
  globals : List Decl
  functions : List Func
  end_ : Location

namespace Prog

/-- The tokens of a program. -/
def tokens (p : Prog) : Tokens :=
  word .program p.program :: identifier p.name :: word .begin_ p.begin_ ::
    (p.globals.flatMap Decl.tokens ++ p.functions.flatMap Func.tokens ++ [word .end_ p.end_])

/-- The outermost scope, with number 0. -/
def scope (p : Prog) : Scope := Scope.global.add (Decl.declared 0 p.globals)

@[simp]
theorem id_scope (p : Prog) : p.scope.id = 0 := Scope.id_add ..

@[simp]
theorem declared_scope (p : Prog) : p.scope.declared = Decl.declared 0 p.globals :=
  Scope.declared_add ..

/-- The tree of a program, whose end is at its last word. -/
def tree (p : Prog) : Program :=
  ⟨p.name, p.globals.map Decl.tree, p.scope, Func.trees p.scope 0 p.functions, p.end_⟩

/-- The names declared in each scope: the outermost one, that of each function with its parameters,
and that of each block of an IF, an ELSE or a WHILE. -/
def scopes (p : Prog) : List (List String) :=
  p.globals.flatMap Decl.names :: p.functions.flatMap Func.scopes

/-- No scope declares a name twice. -/
def Distinct (p : Prog) : Prop := ∀ names ∈ p.scopes, names.Nodup

instance (p : Prog) : Decidable p.Distinct :=
  inferInstanceAs (Decidable (∀ names ∈ p.scopes, names.Nodup))

end Prog

/-! ## Parts without places

Derivations can be written down with these where the places of their tokens do not matter. -/

/-- A value at the default location. -/
def unplaced {α : Type} (a : α) : Located α := ⟨a, {}⟩

/-- The expression that consists of a name. -/
def Sum.var (name : String) : Sum := .mk (.mk (.var (unplaced name)) .nil) .nil

/-- The expression that consists of an integer. -/
def Sum.int (digits : String) : Sum := .mk (.mk (.int (unplaced digits)) .nil) .nil

end Grammar

end LittleTiny
