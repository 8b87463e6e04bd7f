import LittleTiny.Scope
import LittleTiny.Token

/-!
# Reading tokens

A cursor stands before the tokens still to be read. It also knows the location of the last token
that a rule required, which is where the end of the input is reported, and the number of scopes
opened so far. A rule that succeeds returns its value with a cursor that is further on (`Advance`),
so that rules may call each other freely and still come to an end; a rule that fails says where it
stopped.
-/

namespace LittleTiny

/-- Why the tokens are not a program. -/
inductive SyntaxError where
  | expectedToken (token : Token)
  | expectedKind (kind : Token.Kind)
  | expectedVarType
  | expectedReturnType
  | expectedComparison
  | illegalExpression
  | unexpectedEnd
  | trailingInput
  | redeclared (error : Redeclared)
deriving DecidableEq, Repr

namespace SyntaxError

/-- The message of an error. -/
def message : SyntaxError → String
  | expectedToken token => "Expected token: '" ++ token.text ++ "'"
  | expectedKind kind => "Expected token of type '" ++ kind.text ++ "'"
  | expectedVarType => "Expected variable type"
  | expectedReturnType => "Expected return type"
  | expectedComparison => "Expected comparison operator"
  | illegalExpression => "Illegal start of expression"
  | unexpectedEnd => "Reached end of file while parsing"
  | trailingInput => "Expected end of file"
  | redeclared error => error.message

end SyntaxError

/-- The tokens ahead, the location of the last token that was required, and the number of scopes
opened. -/
structure Cursor where
  ahead : List (Located Token)
  last : Location := {}
  scopes : Nat := 0
deriving DecidableEq, Repr

/-- An error, with the cursor at which it arose. -/
structure Stop where
  error : Located SyntaxError
  stop : Cursor
deriving DecidableEq, Repr

namespace Cursor

/-- The number of tokens ahead. -/
def size (s : Cursor) : Nat := s.ahead.length

/-- The token ahead. -/
def peek? (s : Cursor) : Option Token := s.ahead.head?.map Located.value

/-- The error at the token ahead; without one, the end has come too early. -/
def fault (s : Cursor) (e : SyntaxError) : Stop :=
  match s.ahead with
  | [] => ⟨⟨.unexpectedEnd, s.last⟩, s⟩
  | t :: _ => ⟨⟨e, t.location⟩, s⟩

/-- The cursor with one more scope opened. -/
def opened (s : Cursor) : Cursor := { s with scopes := s.scopes + 1 }

theorem size_lt_trans {s s₁ s₂ : Cursor} (h₁ : s₁.size < s.size) (h₂ : s₂.size < s₁.size) :
    s₂.size < s.size :=
  Nat.lt_trans h₂ h₁

end Cursor

/-- A value, and a cursor with fewer than `n` tokens ahead. -/
structure Advance (n : Nat) (α : Type) where
  value : α
  next : Cursor
  shorter : next.size < n

/-- What a rule answers. -/
abbrev Reading := Except Stop

namespace Reading

variable {α : Type} {n : Nat} {s : Cursor}

/-- A rule that takes nothing. -/
def stay (s : Cursor) (a : α) : Reading (Advance (s.size + 1) α) :=
  .ok ⟨a, s, Nat.lt_succ_self s.size⟩

/-- A rule that takes a token at least, entered with fewer than `n` tokens ahead. -/
def after (h : s.size < n) : Reading (Advance s.size α) → Reading (Advance n α)
  | .ok ⟨a, next, g⟩ => .ok ⟨a, next, Nat.lt_trans g h⟩
  | .error stop => .error stop

/-- A rule that may take nothing, entered with fewer than `n` tokens ahead. -/
def afterLoose (h : s.size < n) : Reading (Advance (s.size + 1) α) → Reading (Advance n α)
  | .ok ⟨a, next, g⟩ => .ok ⟨a, next, Nat.lt_of_lt_of_le g h⟩
  | .error stop => .error stop

/-- A rule that takes a token at least is one that may take nothing. -/
def loosen : Reading (Advance n α) → Reading (Advance (n + 1) α)
  | .ok ⟨a, next, g⟩ => .ok ⟨a, next, Nat.lt_succ_of_lt g⟩
  | .error stop => .error stop

end Reading

namespace Cursor

/-- The token ahead, if `want` recognises it. -/
def take? {α : Type} (s : Cursor) (want : Token → Option α) : Option (Advance s.size (Located α)) :=
  match h : s.ahead with
  | [] => none
  | t :: rest =>
    (want t.value).map fun a =>
      ⟨⟨a, t.location⟩, { s with ahead := rest, last := t.location }, by simp [size, h]⟩

/-- The token ahead, which `want` has to recognise. -/
def take {α : Type} (s : Cursor) (want : Token → Option α) (otherwise : SyntaxError) :
    Reading (Advance s.size (Located α)) :=
  match s.take? want with
  | some step => .ok step
  | none => .error (s.fault otherwise)

/-- Exactly this token. -/
def expect (s : Cursor) (token : Token) : Reading (Advance s.size (Located Unit)) :=
  s.take (fun t => if t = token then some () else none) (.expectedToken token)

/-- Takes the keyword, which has to be there. -/
def keyword (s : Cursor) (k : Keyword) : Reading (Advance s.size (Located Unit)) :=
  s.expect (.keyword k)

/-- Takes the operator, which has to be there. -/
def operator (s : Cursor) (o : Operator) : Reading (Advance s.size (Located Unit)) :=
  s.expect (.operator o)

/-- Takes a name, which has to be there. -/
def identifier (s : Cursor) : Reading (Advance s.size (Located String)) :=
  s.take (fun | .identifier name => some name | _ => none) (.expectedKind .identifier)

/-- Takes a string literal, which has to be there. -/
def stringLiteral (s : Cursor) : Reading (Advance s.size (Located String)) :=
  s.take (fun | .stringLiteral content => some content | _ => none) (.expectedKind .stringLiteral)

/-- Behind this token if it is the one ahead. An optional token does not count as the last one. -/
def skip? (s : Cursor) (token : Token) : Option { next : Cursor // next.size < s.size } :=
  match h : s.ahead with
  | [] => none
  | t :: rest =>
    if t.value = token then some ⟨{ s with ahead := rest }, by simp [size, h]⟩ else none

/-- One name or more, with commas between them. -/
def names (s : Cursor) : Reading (Advance s.size (List (Located String))) := do
  let ⟨name, s₁, h₁⟩ ← s.identifier
  match s₁.skip? (.operator .comma) with
  | none => return ⟨[name], s₁, h₁⟩
  | some ⟨s₂, g⟩ =>
    have h₂ := size_lt_trans h₁ g
    let ⟨more, s₃, h₃⟩ ← s₂.names.after h₂
    return ⟨name :: more, s₃, h₃⟩
termination_by s.size

end Cursor

end LittleTiny
