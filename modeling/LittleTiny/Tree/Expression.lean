import LittleTiny.Tree
import LittleTiny.Tree.Cursor

/-!
# Rules of expressions

A sum is products joined by `+` and `-`, a product is atoms joined by `*` and `/`, both from the
left. An atom is a name, a numeral, an expression in parentheses, or a call: a name with an opening
parenthesis behind it.
-/

namespace LittleTiny

namespace Token

/-- The operation of `+` or `-`. -/
def additive? : Token → Option ArithOp
  | .operator .plus => some .add
  | .operator .minus => some .sub
  | _ => none

/-- The operation of `*` or `/`. -/
def multiplicative? : Token → Option ArithOp
  | .operator .times => some .mul
  | .operator .divide => some .div
  | _ => none

/-- The test that a token stands for. -/
def comparison? : Token → Option Comparison
  | .operator .less => some .less
  | .operator .greater => some .greater
  | .operator .lessEqual => some .lessEqual
  | .operator .greaterEqual => some .greaterEqual
  | .operator .equal => some .equal
  | .operator .notEqual => some .notEqual
  | _ => none

/-- The expression that a name or a numeral is by itself. -/
def leaf? : Token → Option (Location → Expr)
  | .identifier name => some (.var name)
  | .intLiteral digits => some (.int digits)
  | .floatLiteral digits => some (.float digits)
  | _ => none

/-- Whether an argument can start with the token. -/
def startsExpr : Token → Bool
  | .identifier _ => true
  | .intLiteral _ => true
  | .floatLiteral _ => true
  | .operator .openParen => true
  | _ => false

end Token

/-- Whether a name and an opening parenthesis are ahead. -/
def Cursor.seesCall (s : Cursor) : Bool :=
  match s.ahead with
  | ⟨.identifier _, _⟩ :: ⟨.operator .openParen, _⟩ :: _ => true
  | _ => false

namespace Expr

mutual

/-- Reads an expression: a sum of products. -/
def parse (s : Cursor) : Reading (Advance s.size Expr) := do
  let ⟨lhs, s₁, h₁⟩ ← parseProduct s
  (parseSumFrom lhs s₁).afterLoose h₁
termination_by 6 * s.size + 3

/-- The rest of a sum that begins with `lhs`. -/
def parseSumFrom (lhs : Expr) (s : Cursor) : Reading (Advance (s.size + 1) Expr) :=
  match s.take? Token.additive? with
  | none => .stay s lhs
  | some ⟨op, s₁, h₁⟩ => Reading.loosen do
    let ⟨rhs, s₂, h₂⟩ ← (parseProduct s₁).after h₁
    (parseSumFrom (.join op.value lhs rhs) s₂).afterLoose h₂
termination_by 6 * s.size

/-- Reads a product of atoms. -/
def parseProduct (s : Cursor) : Reading (Advance s.size Expr) := do
  let ⟨lhs, s₁, h₁⟩ ← parseAtom s
  (parseProductFrom lhs s₁).afterLoose h₁
termination_by 6 * s.size + 2

/-- The rest of a product that begins with `lhs`. -/
def parseProductFrom (lhs : Expr) (s : Cursor) : Reading (Advance (s.size + 1) Expr) :=
  match s.take? Token.multiplicative? with
  | none => .stay s lhs
  | some ⟨op, s₁, h₁⟩ => Reading.loosen do
    let ⟨rhs, s₂, h₂⟩ ← (parseAtom s₁).after h₁
    (parseProductFrom (.join op.value lhs rhs) s₂).afterLoose h₂
termination_by 6 * s.size

/-- Reads a call, a name, a literal, or an expression in parentheses. -/
def parseAtom (s : Cursor) : Reading (Advance s.size Expr) := do
  if s.seesCall then
    let ⟨function, s₁, h₁⟩ ← s.identifier
    let ⟨_, s₂, h₂⟩ ← (s₁.operator .openParen).after h₁
    let ⟨arguments, s₃, h₃⟩ ← (parseArguments s₂).afterLoose h₂
    let ⟨close, s₄, h₄⟩ ← (s₃.operator .closeParen).after h₃
    return ⟨.call function arguments (.span function.location close.location), s₄, h₄⟩
  else
    match s.take? Token.leaf? with
    | some ⟨leaf, s₁, h₁⟩ => return ⟨leaf.value leaf.location, s₁, h₁⟩
    | none =>
      if s.peek? = some (.operator .openParen) then
        let ⟨opening, s₁, h₁⟩ ← s.operator .openParen
        let ⟨e, s₂, h₂⟩ ← (parse s₁).after h₁
        let ⟨close, s₃, h₃⟩ ← (s₂.operator .closeParen).after h₂
        return ⟨e.relocate (.span opening.location close.location), s₃, h₃⟩
      else
        throw (s.fault .illegalExpression)
termination_by 6 * s.size + 1

/-- The arguments of a call, if any. -/
def parseArguments (s : Cursor) : Reading (Advance (s.size + 1) (List Expr)) :=
  if s.peek?.any Token.startsExpr then (parseList s).loosen else .stay s []
termination_by 6 * s.size + 5

/-- One expression or more, with commas between them. -/
def parseList (s : Cursor) : Reading (Advance s.size (List Expr)) := do
  let ⟨e, s₁, h₁⟩ ← parse s
  match s₁.skip? (.operator .comma) with
  | none => return ⟨[e], s₁, h₁⟩
  | some ⟨s₂, g⟩ =>
    have h₂ := Cursor.size_lt_trans h₁ g
    let ⟨more, s₃, h₃⟩ ← (parseList s₂).after h₂
    return ⟨e :: more, s₃, h₃⟩
termination_by 6 * s.size + 4

end

end Expr

/-- Two expressions with a comparison between them. -/
def Condition.parse (s : Cursor) : Reading (Advance s.size Condition) := do
  let ⟨lhs, s₁, h₁⟩ ← Expr.parse s
  let ⟨op, s₂, h₂⟩ ← (s₁.take Token.comparison? .expectedComparison).after h₁
  let ⟨rhs, s₃, h₃⟩ ← (Expr.parse s₂).after h₂
  return ⟨⟨op.value, lhs, rhs⟩, s₃, h₃⟩

end LittleTiny
