import LittleTiny.Tree.Declaration
import LittleTiny.Tree.Expression

/-!
# Rules of statements

A block is declarations followed by statements. The scope of the block of an IF or a WHILE is opened
at its keyword, before the condition is read, and takes the next number; an ELSE opens another.
-/

namespace LittleTiny

/-- Whether a statement starts with the token. -/
def Token.startsStatement : Token → Bool
  | .keyword .if_ => true
  | .keyword .while_ => true
  | .keyword .read => true
  | .keyword .write => true
  | .keyword .return_ => true
  | .identifier _ => true
  | _ => false

namespace Statement

/-- Reads an assignment. -/
def parseAssign (s : Cursor) : Reading (Advance s.size Statement) := do
  let ⟨target, s₁, h₁⟩ ← s.identifier
  let ⟨_, s₂, h₂⟩ ← (s₁.operator .assign).after h₁
  let ⟨value, s₃, h₃⟩ ← (Expr.parse s₂).after h₂
  let ⟨_, s₄, h₄⟩ ← (s₃.operator .semicolon).after h₃
  return ⟨.assign target value, s₄, h₄⟩

/-- Reads a RETURN. -/
def parseReturn (s : Cursor) : Reading (Advance s.size Statement) := do
  let ⟨_, s₁, h₁⟩ ← s.keyword .return_
  let ⟨value, s₂, h₂⟩ ← (Expr.parse s₁).after h₁
  let ⟨_, s₃, h₃⟩ ← (s₂.operator .semicolon).after h₂
  return ⟨.return_ value, s₃, h₃⟩

/-- A READ or a WRITE, made by `form` from the names in its parentheses. -/
def parseNames (k : Keyword) (form : List (Located String) → Statement) (s : Cursor) :
    Reading (Advance s.size Statement) := do
  let ⟨_, s₁, h₁⟩ ← s.keyword k
  let ⟨_, s₂, h₂⟩ ← (s₁.operator .openParen).after h₁
  let ⟨names, s₃, h₃⟩ ← s₂.names.after h₂
  let ⟨_, s₄, h₄⟩ ← (s₃.operator .closeParen).after h₃
  let ⟨_, s₅, h₅⟩ ← (s₄.operator .semicolon).after h₄
  return ⟨form names, s₅, h₅⟩

/-- The condition in the parentheses of an IF or a WHILE, and the number of the scope that is opened
before them. -/
def parseHead (k : Keyword) (s : Cursor) : Reading (Advance s.size (Nat × Condition)) := do
  let ⟨_, s₁, h₁⟩ ← s.keyword k
  let ⟨_, s₂, h₂⟩ ← (s₁.opened.operator .openParen).after h₁
  let ⟨condition, s₃, h₃⟩ ← (Condition.parse s₂).after h₂
  let ⟨_, s₄, h₄⟩ ← (s₃.operator .closeParen).after h₃
  return ⟨(s₁.opened.scopes, condition), s₄, h₄⟩

end Statement

mutual

/-- A block in a scope that has just been opened. -/
def Block.parse (scope : Scope) (s : Cursor) : Reading (Advance (s.size + 1) Block) := do
  let ⟨(declarations, scope), s₁, h₁⟩ ← Declaration.parseAll scope s
  let ⟨statements, s₂, h₂⟩ ← (Statement.parseAll scope s₁).afterLoose h₁
  return ⟨⟨declarations, statements, scope⟩, s₂, h₂⟩
termination_by 4 * s.size + 3

/-- The statements ahead; `scope` is that of the block they stand in. -/
def Statement.parseAll (scope : Scope) (s : Cursor) :
    Reading (Advance (s.size + 1) (List Statement)) :=
  if s.peek?.any Token.startsStatement then
    Reading.loosen do
      let ⟨st, s₁, h₁⟩ ← Statement.parse scope s
      let ⟨sts, s₂, h₂⟩ ← (Statement.parseAll scope s₁).afterLoose h₁
      return ⟨st :: sts, s₂, h₂⟩
  else
    .stay s []
termination_by 4 * s.size + 2

/-- Reads a statement; what is no keyword of one has to be an assignment. -/
def Statement.parse (scope : Scope) (s : Cursor) : Reading (Advance s.size Statement) :=
  match s.peek? with
  | some (.keyword .if_) => Statement.parseIf scope s
  | some (.keyword .while_) => Statement.parseWhile scope s
  | some (.keyword .read) => Statement.parseNames .read .read s
  | some (.keyword .write) => Statement.parseNames .write .write s
  | some (.keyword .return_) => Statement.parseReturn s
  | _ => Statement.parseAssign s
termination_by 4 * s.size + 1

/-- Reads an IF. Its block, and that of an ELSE, opens a scope inside `scope`. -/
def Statement.parseIf (scope : Scope) (s : Cursor) : Reading (Advance s.size Statement) := do
  let ⟨(id, condition), s₁, h₁⟩ ← Statement.parseHead .if_ s
  let ⟨body, s₂, h₂⟩ ← (Block.parse (scope.nested id) s₁).afterLoose h₁
  match s₂.skip? (.keyword .else_) with
  | none =>
    let ⟨_, s₃, h₃⟩ ← (s₂.keyword .endIf).after h₂
    return ⟨.ifThen condition body, s₃, h₃⟩
  | some ⟨s₃, g⟩ =>
    have h₃ : s₃.opened.size < s.size := Cursor.size_lt_trans h₂ g
    let ⟨alternative, s₄, h₄⟩ ←
      (Block.parse (scope.nested s₃.opened.scopes) s₃.opened).afterLoose h₃
    let ⟨_, s₅, h₅⟩ ← (s₄.keyword .endIf).after h₄
    return ⟨.ifElse condition body alternative, s₅, h₅⟩
termination_by 4 * s.size

/-- Reads a WHILE. Its block opens a scope inside `scope`. -/
def Statement.parseWhile (scope : Scope) (s : Cursor) : Reading (Advance s.size Statement) := do
  let ⟨(id, condition), s₁, h₁⟩ ← Statement.parseHead .while_ s
  let ⟨body, s₂, h₂⟩ ← (Block.parse (scope.nested id) s₁).afterLoose h₁
  let ⟨_, s₃, h₃⟩ ← (s₂.keyword .endWhile).after h₂
  return ⟨.loop condition body, s₃, h₃⟩
termination_by 4 * s.size

end

end LittleTiny
