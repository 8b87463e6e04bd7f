import LittleTiny.Tree
import LittleTiny.Tree.Cursor

/-!
# Rules of declarations

A declaration gives a text a value or names variables of one numeric type; the names enter the scope
once the declaration has been read to its semicolon. A parameter enters it at once.
-/

namespace LittleTiny

namespace Token

/-- The type of numbers that a token names. -/
def numClass? : Token → Option NumClass
  | .keyword .int => some .int
  | .keyword .float => some .float
  | _ => none

/-- What a function returns, if a token names that. -/
def returnType? : Token → Option ReturnType
  | .keyword .int => some (.number .int)
  | .keyword .float => some (.number .float)
  | .keyword .void => some .void
  | _ => none

/-- Whether a declaration starts with the token. -/
def startsDeclaration : Token → Bool
  | .keyword .string => true
  | .keyword .int => true
  | .keyword .float => true
  | _ => false

end Token

namespace Cursor

/-- Takes a type of numbers, which has to be there. -/
def varType (s : Cursor) : Reading (Advance s.size (Located NumClass)) :=
  s.take Token.numClass? .expectedVarType

/-- Takes the return type of a function, which has to be there. -/
def returnType (s : Cursor) : Reading (Advance s.size (Located ReturnType)) :=
  s.take Token.returnType? .expectedReturnType

/-- The scope with the name declared; a second declaration is an error at the name. -/
def declare (s : Cursor) (scope : Scope) (name : Located String) (type : VarType)
    (value : Option String) : Reading Scope :=
  match (Scope.declare name type value).run scope with
  | .ok _ scope => .ok scope
  | .error e _ => .error ⟨e.map .redeclared, s⟩

/-- The scope with all the names declared, in order. -/
def declareAll (s : Cursor) (scope : Scope) (type : VarType) :
    List (Located String) → Reading Scope
  | [] => .ok scope
  | name :: names => do
    let scope ← s.declare scope name type none
    s.declareAll scope type names

end Cursor

namespace Declaration

/-- Reads the declaration of a text; the name is declared behind the semicolon. -/
def parseText (scope : Scope) (s : Cursor) : Reading (Advance s.size (Declaration × Scope)) := do
  let ⟨_, s₁, h₁⟩ ← s.keyword .string
  let ⟨name, s₂, h₂⟩ ← s₁.identifier.after h₁
  let ⟨_, s₃, h₃⟩ ← (s₂.operator .assign).after h₂
  let ⟨value, s₄, h₄⟩ ← s₃.stringLiteral.after h₃
  let ⟨_, s₅, h₅⟩ ← (s₄.operator .semicolon).after h₄
  let scope ← s₅.declare scope name .string (some value.value)
  return ⟨(.text name value, scope), s₅, h₅⟩

/-- Reads a declaration of numbers; the names are declared behind the semicolon. -/
def parseNumbers (scope : Scope) (s : Cursor) : Reading (Advance s.size (Declaration × Scope)) := do
  let ⟨type, s₁, h₁⟩ ← s.varType
  let ⟨names, s₂, h₂⟩ ← s₁.names.after h₁
  let ⟨_, s₃, h₃⟩ ← (s₂.operator .semicolon).after h₂
  let scope ← s₃.declareAll scope (.number type.value) names
  return ⟨(.numbers type names, scope), s₃, h₃⟩

/-- Reads a declaration of either form. -/
def parse (scope : Scope) (s : Cursor) : Reading (Advance s.size (Declaration × Scope)) :=
  if s.peek? = some (.keyword .string) then parseText scope s else parseNumbers scope s

/-- The declarations ahead, with the scope that they make of `scope`. -/
def parseAll (scope : Scope) (s : Cursor) :
    Reading (Advance (s.size + 1) (List Declaration × Scope)) :=
  if s.peek?.any Token.startsDeclaration then
    Reading.loosen do
      let ⟨(d, scope), s₁, h₁⟩ ← parse scope s
      let ⟨(ds, scope), s₂, h₂⟩ ← (parseAll scope s₁).afterLoose h₁
      return ⟨(d :: ds, scope), s₂, h₂⟩
  else
    .stay s ([], scope)
termination_by s.size

end Declaration

namespace Parameter

/-- Reads a parameter and declares it. -/
def parse (scope : Scope) (s : Cursor) : Reading (Advance s.size (Parameter × Scope)) := do
  let ⟨type, s₁, h₁⟩ ← s.varType
  let ⟨name, s₂, h₂⟩ ← s₁.identifier.after h₁
  let scope ← s₂.declare scope name (.number type.value) none
  return ⟨(⟨type, name⟩, scope), s₂, h₂⟩

/-- One parameter or more, with commas between them. -/
def parseList (scope : Scope) (s : Cursor) :
    Reading (Advance s.size (List Parameter × Scope)) := do
  let ⟨(p, scope), s₁, h₁⟩ ← parse scope s
  match s₁.skip? (.operator .comma) with
  | none => return ⟨([p], scope), s₁, h₁⟩
  | some ⟨s₂, g⟩ =>
    have h₂ := Cursor.size_lt_trans h₁ g
    let ⟨(ps, scope), s₃, h₃⟩ ← (parseList scope s₂).after h₂
    return ⟨(p :: ps, scope), s₃, h₃⟩
termination_by s.size

/-- The parameters ahead, if any, with the scope that they make of `scope`. -/
def parseAll (scope : Scope) (s : Cursor) :
    Reading (Advance (s.size + 1) (List Parameter × Scope)) :=
  if (s.peek?.bind Token.numClass?).isSome then
    (parseList scope s).loosen
  else
    .stay s ([], scope)

end Parameter

end LittleTiny
