import LittleTiny.Scope

/-!
# Stores of scopes

Scopes kept in the order in which they were opened, the global one first. Declaring changes one
scope of the store, opening adds one; neither does anything when the scope it speaks of is not
there.
-/

namespace LittleTiny

/-- The scopes that have been opened, in order. -/
abbrev ScopeStore := List Scope

namespace ScopeStore

/-- The global scope alone. -/
def initial : ScopeStore := [Scope.global]

/-- Declares a name in the scope at `i`, which is put back into the store as the declaration leaves
it, whether it succeeds or not. -/
def declare (i : Nat) (name : Located String) (type : VarType) (value : Option String) :
    EStateM (Located Redeclared) ScopeStore Unit := fun store =>
  match store[i]? with
  | none => .ok () store
  | some scope =>
    match (Scope.declare name type value).run scope with
    | .ok result changed => .ok result (store.set i changed)
    | .error e changed => .error e (store.set i changed)

/-- Opens a scope with the number `id` inside the scope at `i`. -/
def nest (store : ScopeStore) (i id : Nat) : ScopeStore :=
  match store[i]? with
  | none => store
  | some scope => store ++ [scope.nested id]

end ScopeStore

end LittleTiny
