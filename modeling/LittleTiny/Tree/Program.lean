import LittleTiny.Tree.Statement

/-!
# Rules of functions and programs

A function's parameters belong to the scope of its body, which is opened behind its name, inside the
scope of the program. Functions come after all the declarations of the program, and nothing comes
after its END.
-/

namespace LittleTiny

namespace Function

/-- Reads a function. Its parameters and its body share the scope that it opens inside `outer`. -/
def parse (outer : Scope) (s : Cursor) : Reading (Advance s.size Function) := do
  let ⟨_, s₁, h₁⟩ ← s.keyword .function
  let ⟨returns, s₂, h₂⟩ ← s₁.returnType.after h₁
  let ⟨name, s₃, h₃⟩ ← s₂.identifier.after h₂
  let ⟨_, s₄, h₄⟩ ← (s₃.opened.operator .openParen).after h₃
  let ⟨(parameters, scope), s₅, h₅⟩ ←
    (Parameter.parseAll (outer.nested s₃.opened.scopes) s₄).afterLoose h₄
  let ⟨_, s₆, h₆⟩ ← (s₅.operator .closeParen).after h₅
  let ⟨_, s₇, h₇⟩ ← (s₆.keyword .begin_).after h₆
  let ⟨body, s₈, h₈⟩ ← (Block.parse scope s₇).afterLoose h₇
  let ⟨_, s₉, h₉⟩ ← (s₈.keyword .end_).after h₈
  return ⟨⟨returns, name, parameters, body⟩, s₉, h₉⟩

/-- The functions ahead, each inside the scope `outer`. -/
def parseAll (outer : Scope) (s : Cursor) : Reading (Advance (s.size + 1) (List Function)) :=
  if s.peek? = some (.keyword .function) then
    Reading.loosen do
      let ⟨f, s₁, h₁⟩ ← parse outer s
      let ⟨fs, s₂, h₂⟩ ← (parseAll outer s₁).afterLoose h₁
      return ⟨f :: fs, s₂, h₂⟩
  else
    .stay s []
termination_by s.size

end Function

namespace Program

/-- A program with nothing behind it. -/
def parseWhole (s : Cursor) : Reading (Advance s.size Program) := do
  let ⟨_, s₁, h₁⟩ ← s.keyword .program
  let ⟨name, s₂, h₂⟩ ← s₁.identifier.after h₁
  let ⟨_, s₃, h₃⟩ ← (s₂.keyword .begin_).after h₂
  let ⟨(globals, scope), s₄, h₄⟩ ← (Declaration.parseAll .global s₃).afterLoose h₃
  let ⟨functions, s₅, h₅⟩ ← (Function.parseAll scope s₄).afterLoose h₄
  let ⟨end_, s₆, h₆⟩ ← (s₅.keyword .end_).after h₅
  if s₆.ahead.isEmpty then
    return ⟨⟨name, globals, scope, functions, end_.location⟩, s₆, h₆⟩
  else
    throw (s₆.fault .trailingInput)

/-- The tree of a program, or the first error. -/
def parse (tokens : List (Located Token)) : Except (Located SyntaxError) Program :=
  match parseWhole { ahead := tokens } with
  | .ok step => .ok step.value
  | .error stop => .error stop.error

end Program

end LittleTiny
