import LittleTiny.Code.Lowering
import LittleTiny.Proofs.Grammar.Program

/-!
# Faults

A fault is something in the body of `main` that has no code: a call, a RETURN, a name that is not
declared around its place, or a text where a number is needed. `Prog.marked` lists the tokens of a
program, from left to right, and beside each token the fault that lies in it. A call is a fault of
the name of its function, and a RETURN one of its first word; what stands behind them may have
faults of its own. A condition is read in the block that its IF or WHILE stands in.
-/

namespace LittleTiny.Grammar

/-- An error with the location that it is reported at. -/
abbrev Fault := Located SemanticError

/-- Tokens, each with the fault that lies in it if there is one. -/
abbrev Marked := List (Located Token × Option Fault)

/-- Tokens without a fault. -/
def plain (tokens : Tokens) : Marked := tokens.map fun t => (t, none)

/-- The fault of the first token that has one. -/
def firstFault (marked : Marked) : Option Fault := marked.findSome? Prod.snd

theorem map_fst_plain (tokens : Tokens) : (plain tokens).map Prod.fst = tokens := by
  simp [plain, Function.comp_def]

theorem firstFault_nil : firstFault [] = none := rfl

theorem firstFault_plain (tokens : Tokens) : firstFault (plain tokens) = none := by
  simp [firstFault, plain]

theorem firstFault_append (marked marked' : Marked) :
    firstFault (marked ++ marked') = (firstFault marked).or (firstFault marked') :=
  List.findSome?_append

theorem firstFault_cons (t : Located Token) (fault? : Option Fault) (marked : Marked) :
    firstFault ((t, fault?) :: marked) = fault?.or (firstFault marked) := by
  cases fault? with
  | none => rfl
  | some fault => rfl

theorem firstFault_eq_none_iff {marked : Marked} :
    firstFault marked = none ↔ ∀ x ∈ marked, x.2 = none :=
  List.findSome?_eq_none_iff

/-! ## Names -/

/-- The names that can be seen at a place, with their types, scope by scope and the innermost first.
-/
abbrev Typing := List (List (String × VarType))

namespace Typing

/-- The type of a name: the one in the innermost scope that has the name. -/
def type? (env : Typing) (name : String) : Option VarType :=
  env.findSome? fun names => names.lookup name

/-- The fault of a name that has to be declared. -/
def undeclared? (env : Typing) (name : String) (l : Location) : Option Fault :=
  match env.type? name with
  | some _ => none
  | none => some ⟨.undeclared name, l⟩

/-- The fault of a name that has to be that of a number. -/
def notNumber? (env : Typing) (name : String) (l : Location) : Option Fault :=
  match env.type? name with
  | some (.number _) => none
  | some .string => some ⟨.notNumeric name, l⟩
  | none => some ⟨.undeclared name, l⟩

end Typing

/-- The names that a declaration declares, with their types. -/
def Decl.typing : Decl → List (String × VarType)
  | text _ name _ _ _ => [(name.value, .string)]
  | numbers type names _ => names.toList.map fun name => (name.value, .number type.value)

/-- The name of a parameter with its type. -/
def Param.typing (p : Param) : String × VarType := (p.name.value, .number p.type.value)

/-! ## Expressions -/

/-- The parentheses around a sum are around its first term if that is all there is. -/
def Terms.within (around : Option Location) : Terms → Option Location
  | .nil => around
  | .cons .. => none

/-- The parentheses around a product are around its first factor if that is all of it. -/
def Factors.within (around : Option Location) : Factors → Option Location
  | .nil => around
  | .cons .. => none

mutual

/-- The location `around` is that of parentheses that hold nothing but the sum. -/
def Sum.marked (env : Typing) (around : Option Location) : Sum → Marked
  | .mk first rest => first.marked env (rest.within around) ++ rest.marked env

/-- The terms behind the first one with their faults. -/
def Terms.marked (env : Typing) : Terms → Marked
  | .nil => []
  | .cons op operand rest =>
    (sign op.value.operator op.location, none) :: (operand.marked env none ++ rest.marked env)

/-- A product with its faults; `around` are the parentheses around it. -/
def Product.marked (env : Typing) (around : Option Location) : Product → Marked
  | .mk first rest => first.marked env (rest.within around) ++ rest.marked env

/-- The factors behind the first one with their faults. -/
def Factors.marked (env : Typing) : Factors → Marked
  | .nil => []
  | .cons op operand rest =>
    (sign op.value.operator op.location, none) :: (operand.marked env none ++ rest.marked env)

/-- A name in parentheses of its own is reported with them, the outermost ones if there are more. -/
def Atom.marked (env : Typing) (around : Option Location) : Atom → Marked
  | .call function opening arguments closing =>
    (identifier function, some ⟨.unsupported .calls, function.location⟩) ::
      (sign .openParen opening, none) :: (arguments.marked env ++ plain [sign .closeParen closing])
  | .paren opening inner closing =>
    (sign .openParen opening, none) ::
      (inner.marked env (some (around.getD ⟨opening.first, closing.last⟩)) ++
        plain [sign .closeParen closing])
  | .var name => [(identifier name, env.notNumber? name.value (around.getD name.location))]
  | .int digits => plain [⟨.intLiteral digits.value, digits.location⟩]
  | .float digits => plain [⟨.floatLiteral digits.value, digits.location⟩]

/-- The arguments of a call with their faults. -/
def Arguments.marked (env : Typing) : Arguments → Marked
  | .none => []
  | .some first rest => first.marked env none ++ rest.marked env

/-- The arguments behind the first one with their faults. -/
def MoreArguments.marked (env : Typing) : MoreArguments → Marked
  | .nil => []
  | .cons comma argument rest =>
    (sign .comma comma, none) :: (argument.marked env none ++ rest.marked env)

end

/-- A condition with its faults. -/
def Cond.marked (env : Typing) (c : Cond) : Marked :=
  c.lhs.marked env none ++ (sign c.op.value.operator c.op.location, none) :: c.rhs.marked env none

/-! ## Statements -/

/-- Names between commas, each of them checked. -/
def namesMarked (fault? : String → Location → Option Fault) (names : Separated (Located String)) :
    Marked :=
  (identifier names.first, fault? names.first.value names.first.location) ::
    names.rest.flatMap fun x =>
      [(sign .comma x.1, none), (identifier x.2, fault? x.2.value x.2.location)]

/-- The names of a READ or a WRITE with their faults, and what stands around them. -/
def listMarked (fault? : String → Location → Option Fault) (opening : Location)
    (names : Separated (Located String)) (closing semicolon : Location) : Marked :=
  (sign .openParen opening, none) ::
    (namesMarked fault? names ++ plain [sign .closeParen closing, sign .semicolon semicolon])

/-- The condition of an IF or a WHILE with its faults, in its parentheses. -/
def headMarked (env : Typing) (opening : Location) (condition : Cond) (closing : Location) :
    Marked :=
  (sign .openParen opening, none) :: (condition.marked env ++ plain [sign .closeParen closing])

mutual

/-- A statement with its faults. -/
def Stmt.marked (env : Typing) : Stmt → Marked
  | .assign target becomes value semicolon =>
    (identifier target, env.notNumber? target.value target.location) ::
      (sign .assign becomes, none) :: (value.marked env none ++ plain [sign .semicolon semicolon])
  | .read read opening names closing semicolon =>
    (word .read read, none) :: listMarked env.notNumber? opening names closing semicolon
  | .write write opening names closing semicolon =>
    (word .write write, none) :: listMarked env.undeclared? opening names closing semicolon
  | .ifThen if_ opening condition closing body endIf =>
    (word .if_ if_, none) ::
      (headMarked env opening condition closing ++ body.marked env [] ++ plain [word .endIf endIf])
  | .ifElse if_ opening condition closing body else_ alternative endIf =>
    (word .if_ if_, none) ::
      (headMarked env opening condition closing ++ body.marked env [] ++
        (word .else_ else_, none) :: (alternative.marked env [] ++ plain [word .endIf endIf]))
  | .loop while_ opening condition closing body endWhile =>
    (word .while_ while_, none) ::
      (headMarked env opening condition closing ++ body.marked env [] ++
        plain [word .endWhile endWhile])
  | .return_ return_ value semicolon =>
    (word .return_ return_, some ⟨.unsupported .returns, value.tree.location⟩) ::
      (value.marked env none ++ plain [sign .semicolon semicolon])

/-- A block in a scope of its own, which has the given parameters. -/
def Body.marked (env : Typing) (parameters : List (String × VarType)) : Body → Marked
  | ⟨decls, stmts⟩ =>
    plain (decls.flatMap Decl.tokens) ++
      Stmt.markedAll ((parameters ++ decls.flatMap Decl.typing) :: env) stmts

/-- Statements in a row with their faults. -/
def Stmt.markedAll (env : Typing) : List Stmt → Marked
  | [] => []
  | s :: ss => s.marked env ++ Stmt.markedAll env ss

end

/-! ## Programs -/

/-- A function with the faults of its body. -/
def Func.marked (env : Typing) (f : Func) : Marked :=
  plain (word .function f.function :: word f.returns.value.keyword f.returns.location ::
    identifier f.name :: sign .openParen f.opening ::
      (f.parameters.tokens ++ [sign .closeParen f.closing, word .begin_ f.begin_])) ++
    (f.body.marked env (f.parameters.toList.map Param.typing) ++ plain [word .end_ f.end_])

/-- Faults lie in the first function named `main` only. -/
def Func.markedMain (env : Typing) : List Func → Marked
  | [] => []
  | f :: fs =>
    if f.name.value == "main" then f.marked env ++ plain (fs.flatMap Func.tokens)
    else plain f.tokens ++ Func.markedMain env fs

/-- A program with the faults of its first function named `main`. -/
def Prog.marked (p : Prog) : Marked :=
  plain (word .program p.program :: identifier p.name :: word .begin_ p.begin_ ::
    p.globals.flatMap Decl.tokens) ++
    (Func.markedMain [p.globals.flatMap Decl.typing] p.functions ++ plain [word .end_ p.end_])

/-! ## The tokens that are marked -/

mutual

theorem Sum.map_fst_marked (env : Typing) : ∀ (around : Option Location) (d : Sum),
    (d.marked env around).map Prod.fst = d.tokens
  | around, .mk first rest => by
    rw [Sum.marked, Sum.tokens, List.map_append, first.map_fst_marked env, rest.map_fst_marked env]

theorem Terms.map_fst_marked (env : Typing) : ∀ d : Terms, (d.marked env).map Prod.fst = d.tokens
  | .nil => rfl
  | .cons op operand rest => by
    rw [Terms.marked, Terms.tokens, List.map_cons, List.map_append, operand.map_fst_marked env,
      rest.map_fst_marked env]

theorem Product.map_fst_marked (env : Typing) : ∀ (around : Option Location) (d : Product),
    (d.marked env around).map Prod.fst = d.tokens
  | around, .mk first rest => by
    rw [Product.marked, Product.tokens, List.map_append, first.map_fst_marked env,
      rest.map_fst_marked env]

theorem Factors.map_fst_marked (env : Typing) :
    ∀ d : Factors, (d.marked env).map Prod.fst = d.tokens
  | .nil => rfl
  | .cons op operand rest => by
    rw [Factors.marked, Factors.tokens, List.map_cons, List.map_append, operand.map_fst_marked env,
      rest.map_fst_marked env]

theorem Atom.map_fst_marked (env : Typing) : ∀ (around : Option Location) (d : Atom),
    (d.marked env around).map Prod.fst = d.tokens
  | around, .call function opening arguments closing => by
    rw [Atom.marked, Atom.tokens, List.map_cons, List.map_cons, List.map_append, map_fst_plain,
      arguments.map_fst_marked env]
  | around, .paren opening inner closing => by
    rw [Atom.marked, Atom.tokens, List.map_cons, List.map_append, map_fst_plain,
      inner.map_fst_marked env]
  | around, .var name => rfl
  | around, .int digits => rfl
  | around, .float digits => rfl

theorem Arguments.map_fst_marked (env : Typing) :
    ∀ d : Arguments, (d.marked env).map Prod.fst = d.tokens
  | .none => rfl
  | .some first rest => by
    rw [Arguments.marked, Arguments.tokens, List.map_append, first.map_fst_marked env,
      rest.map_fst_marked env]

theorem MoreArguments.map_fst_marked (env : Typing) :
    ∀ d : MoreArguments, (d.marked env).map Prod.fst = d.tokens
  | .nil => rfl
  | .cons comma argument rest => by
    rw [MoreArguments.marked, MoreArguments.tokens, List.map_cons, List.map_append,
      argument.map_fst_marked env, rest.map_fst_marked env]

end

theorem Cond.map_fst_marked (env : Typing) (d : Cond) :
    (d.marked env).map Prod.fst = d.tokens := by
  rw [Cond.marked, Cond.tokens, List.map_append, List.map_cons, d.lhs.map_fst_marked env,
    d.rhs.map_fst_marked env]

theorem map_fst_listMarked (fault? : String → Location → Option Fault) (opening : Location)
    (names : Separated (Located String)) (closing semicolon : Location) :
    (listMarked fault? opening names closing semicolon).map Prod.fst =
      listTokens opening names closing semicolon := by
  simp [listMarked, listTokens, namesMarked, Separated.tokens, Separated.restTokens,
    List.map_flatMap, map_fst_plain]

theorem map_fst_headMarked (env : Typing) (opening : Location) (condition : Cond)
    (closing : Location) : (headMarked env opening condition closing).map Prod.fst =
      headTokens opening condition closing := by
  rw [headMarked, headTokens, List.map_cons, List.map_append, condition.map_fst_marked,
    map_fst_plain]

mutual

theorem Stmt.map_fst_marked : ∀ (env : Typing) (d : Stmt), (d.marked env).map Prod.fst = d.tokens
  | env, .assign target becomes value semicolon => by
    rw [Stmt.marked, Stmt.tokens, List.map_cons, List.map_cons, List.map_append,
      value.map_fst_marked, map_fst_plain]
  | env, .read read opening names closing semicolon => by
    rw [Stmt.marked, Stmt.tokens, List.map_cons, map_fst_listMarked]
  | env, .write write opening names closing semicolon => by
    rw [Stmt.marked, Stmt.tokens, List.map_cons, map_fst_listMarked]
  | env, .ifThen if_ opening condition closing body endIf => by
    rw [Stmt.marked, Stmt.tokens, List.map_cons, List.map_append, List.map_append,
      map_fst_headMarked, body.map_fst_marked, map_fst_plain]
  | env, .ifElse if_ opening condition closing body else_ alternative endIf => by
    rw [Stmt.marked, Stmt.tokens, List.map_cons, List.map_append, List.map_append, List.map_cons,
      List.map_append, map_fst_headMarked, body.map_fst_marked, alternative.map_fst_marked,
      map_fst_plain]
  | env, .loop while_ opening condition closing body endWhile => by
    rw [Stmt.marked, Stmt.tokens, List.map_cons, List.map_append, List.map_append,
      map_fst_headMarked, body.map_fst_marked, map_fst_plain]
  | env, .return_ return_ value semicolon => by
    rw [Stmt.marked, Stmt.tokens, List.map_cons, List.map_append, value.map_fst_marked,
      map_fst_plain]

theorem Body.map_fst_marked : ∀ (env : Typing) (parameters : List (String × VarType)) (d : Body),
    (d.marked env parameters).map Prod.fst = d.tokens
  | env, parameters, ⟨decls, stmts⟩ => by
    rw [Body.marked, Body.tokens, List.map_append, map_fst_plain, Stmt.map_fst_markedAll]

theorem Stmt.map_fst_markedAll : ∀ (env : Typing) (ds : List Stmt),
    (Stmt.markedAll env ds).map Prod.fst = Stmt.tokensAll ds
  | env, [] => rfl
  | env, d :: ds => by
    rw [Stmt.markedAll, Stmt.tokensAll, List.map_append, d.map_fst_marked, Stmt.map_fst_markedAll]

end

theorem Func.map_fst_marked (env : Typing) (d : Func) :
    (d.marked env).map Prod.fst = d.tokens := by
  rw [Func.marked, Func.tokens, List.map_append, List.map_append, map_fst_plain,
    d.body.map_fst_marked, map_fst_plain]
  simp

theorem Func.map_fst_markedMain (env : Typing) (ds : List Func) :
    (Func.markedMain env ds).map Prod.fst = ds.flatMap Func.tokens := by
  induction ds with
  | nil => rfl
  | cons d ds ih =>
    rw [Func.markedMain, List.flatMap_cons]
    split
    · rw [List.map_append, d.map_fst_marked, map_fst_plain]
    · rw [List.map_append, map_fst_plain, ih]

/-- The tokens that are marked are those of the program, in their order. -/
theorem Prog.map_fst_marked (d : Prog) : d.marked.map Prod.fst = d.tokens := by
  rw [Prog.marked, Prog.tokens, List.map_append, List.map_append, map_fst_plain,
    Func.map_fst_markedMain, map_fst_plain]
  simp

end LittleTiny.Grammar
