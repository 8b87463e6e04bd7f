import LittleTiny.Location
import LittleTiny.NameMap
import LittleTiny.Types

/-!
# Scopes

A scope keeps the variables it declares, in order, and beside them a map of all the names that can
be seen from it. A new scope starts with a copy of the map of the scope around it, and a declaration
puts its variable into both, so that inner declarations hide outer ones and later declarations
outside are not seen. A scope declares a name once.
-/

namespace LittleTiny

/-- A declared variable, with the number of the scope that declares it. -/
structure Variable where
  name : Located String
  type : VarType
  value : Option String
  scope : Nat
deriving DecidableEq, Repr

/-- The name under which the variable stands in the code: it tells apart the variables of one name
in different scopes. -/
def Variable.mangled (v : Variable) : String := "var" ++ v.scope.repr ++ v.name.value

/-- A name declared twice in one scope. -/
structure Redeclared where
  name : String
deriving DecidableEq, Repr

/-- The text of the error. -/
def Redeclared.message (e : Redeclared) : String :=
  "Variable '" ++ e.name ++ "' has already been declared in this scope"

/-- The variables that a scope declares, and what names mean in it. -/
structure Scope where
  id : Nat
  declared : List Variable := []
  visible : NameMap Variable := {}
deriving DecidableEq, Repr

namespace Scope

/-- The outermost scope, before any declaration. -/
def global : Scope := { id := 0 }

/-- A new scope inside `outer`, which sees what `outer` sees now. -/
def nested (outer : Scope) (id : Nat) : Scope := { id, visible := outer.visible }

/-- The variable that can be seen under the name. -/
def lookup? (s : Scope) (name : String) : Option Variable := s.visible.get? name

/-- Whether the scope itself declares the name. -/
def declares (s : Scope) (name : String) : Bool := s.declared.any fun v => v.name.value == name

/-- Declares a name in the scope. A second declaration is an error at the name. -/
def declare (name : Located String) (type : VarType) (value : Option String) :
    EStateM (Located Redeclared) Scope Unit := do
  if (← get).declares name.value then
    throw ⟨⟨name.value⟩, name.location⟩
  let v : Variable := ⟨name, type, value, (← get).id⟩
  modify fun s => { s with visible := s.visible.insert name.value v }
  modify fun s => { s with declared := s.declared ++ [v] }

/-- The row of the table for a variable. -/
def row (s : Scope) (v : Variable) : String :=
  "\nname " ++ v.name.value ++ "_" ++ s.id.repr ++ " type " ++ v.type.text ++
    match v.value with
    | some value => " value \"" ++ value ++ "\""
    | none => ""

/-- The symbol table of the scope, a line for each variable it declares. -/
def table (s : Scope) : String :=
  "Symbol table " ++ s.id.repr ++ String.join (s.declared.map s.row)

end Scope

end LittleTiny
