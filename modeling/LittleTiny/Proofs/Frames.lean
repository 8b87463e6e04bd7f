import LittleTiny.Tree

/-!
# Frames

A frame is the list of variables that the declarations of one scope make: those of the program,
those of a function with its parameters first, or those of the block of an IF, an ELSE or a WHILE. A
name means the variable that is found by walking outwards through the frames around it
(`Frames.find?`).
-/

namespace LittleTiny

/-- The variables of a declaration that stands in the scope of the given number. -/
def Declaration.declared (scope : Nat) : Declaration → List Variable
  | text name value => [⟨name, .string, some value.value, scope⟩]
  | numbers type names => names.map fun name => ⟨name, .number type.value, none, scope⟩

/-- The variable that a parameter declares in the scope with the number. -/
def Parameter.variable (scope : Nat) (p : Parameter) : Variable :=
  ⟨p.name, .number p.type.value, none, scope⟩

/-- The variables that the declarations of a block make. -/
def Block.frame (b : Block) : List Variable :=
  b.declarations.flatMap (Declaration.declared b.scope.id)

/-- The parameters of a function, and the variables of its body. -/
def Function.frame (f : Function) : List Variable :=
  f.parameters.map (Parameter.variable f.body.scope.id) ++ f.body.frame

/-- The variables that the program declares outside of functions. -/
def Program.frame (p : Program) : List Variable :=
  p.globals.flatMap (Declaration.declared p.scope.id)

mutual

/-- The variables that are declared inside a statement. -/
def Statement.cells : Statement → List Variable
  | .assign .. => []
  | .read _ => []
  | .write _ => []
  | .ifThen _ body => body.cells
  | .ifElse _ body alternative => body.cells ++ alternative.cells
  | .loop _ body => body.cells
  | .return_ _ => []

/-- The variables that are declared in a block and inside its statements. -/
def Block.cells : Block → List Variable
  | ⟨declarations, statements, scope⟩ =>
    Block.frame ⟨declarations, statements, scope⟩ ++ Statement.cellsAll statements

/-- The variables declared inside statements in a row. -/
def Statement.cellsAll : List Statement → List Variable
  | [] => []
  | s :: ss => s.cells ++ Statement.cellsAll ss

end

/-- The variables of a function, its parameters first. -/
def Function.cells (f : Function) : List Variable :=
  f.parameters.map (Parameter.variable f.body.scope.id) ++ f.body.cells

/-- All the variables that a program declares. -/
def Program.cells (p : Program) : List Variable := p.frame ++ p.functions.flatMap Function.cells

mutual

/-- The scopes of the blocks inside a statement, in the order in which they are opened. -/
def Statement.scopes : Statement → List Scope
  | .assign .. => []
  | .read _ => []
  | .write _ => []
  | .ifThen _ body => body.scopes
  | .ifElse _ body alternative => body.scopes ++ alternative.scopes
  | .loop _ body => body.scopes
  | .return_ _ => []

/-- The scope of a block and those inside. -/
def Block.scopes : Block → List Scope
  | ⟨_, statements, scope⟩ => scope :: Statement.scopesAll statements

/-- The scopes inside statements in a row. -/
def Statement.scopesAll : List Statement → List Scope
  | [] => []
  | s :: ss => s.scopes ++ Statement.scopesAll ss

end

/-- All the scopes of a program, in the order in which they are opened. -/
def Program.scopes (p : Program) : List Scope :=
  p.scope :: p.functions.flatMap fun f => f.body.scopes

/-- The frames around a statement, the innermost first. -/
abbrev Frames := List (List Variable)

namespace Frames

/-- The variable that a name means: the one of the innermost frame that has the name. -/
def find? (env : Frames) (name : String) : Option Variable :=
  env.findSome? fun frame => frame.find? fun v => v.name.value == name

theorem find?_cons (frame : List Variable) (env : Frames) (name : String) :
    find? (frame :: env) name =
      (frame.find? fun v => v.name.value == name).or (env.find? name) := by
  rw [find?, List.findSome?_cons]
  cases frame.find? fun v => v.name.value == name <;> rfl

/-- The variable that a name means, if it holds a number, with the class of the number. -/
def number? (env : Frames) (name : String) : Option (NumClass × Variable) :=
  match env.find? name with
  | some v =>
    match v.type with
    | .number of => some (of, v)
    | .string => none
  | none => none

end Frames

namespace Scope

/-! ## Entering variables -/

/-- The scope with one more variable of its own. A name that the scope has declared before keeps the
variable that it has. -/
def enter (s : Scope) (v : Variable) : Scope :=
  { s with
    declared := s.declared ++ [v]
    visible := if s.declares v.name.value then s.visible else s.visible.insert v.name.value v }

/-- The scope with more variables of its own. -/
def add (s : Scope) (vs : List Variable) : Scope := vs.foldl enter s

theorem add_nil (s : Scope) : s.add [] = s := rfl

theorem add_add (s : Scope) (vs ws : List Variable) : (s.add vs).add ws = s.add (vs ++ ws) :=
  (List.foldl_append).symm

@[simp]
theorem id_add (s : Scope) (vs : List Variable) : (s.add vs).id = s.id := by
  induction vs generalizing s with
  | nil => rfl
  | cons v vs ih => exact ih (s.enter v)

@[simp]
theorem declared_add (s : Scope) (vs : List Variable) : (s.add vs).declared = s.declared ++ vs := by
  induction vs generalizing s with
  | nil => exact (List.append_nil _).symm
  | cons v vs ih => exact (ih (s.enter v)).trans (List.append_assoc ..)

/-- A name that is new to the scope is entered, any other is refused and changes nothing. -/
theorem run_declare (s : Scope) (name : Located String) (type : VarType) (value : Option String) :
    (declare name type value).run s =
      if s.declares name.value then .error ⟨⟨name.value⟩, name.location⟩ s
      else .ok () (s.enter ⟨name, type, value, s.id⟩) := by
  by_cases h : s.declares name.value
  · simp [declare, h]
  · simp [declare, enter, h]

/-! ## What names mean -/

/-- The variable of that name which the scope itself declares. -/
def own? (s : Scope) (name : String) : Option Variable :=
  s.declared.find? fun v => v.name.value == name

/-- The list of the scope's own variables and its map agree: a name means a variable of its own, and
if there is none what `outer` says. -/
def Over (s : Scope) (outer : String → Option Variable) : Prop :=
  ∀ name, s.lookup? name = (s.own? name).or (outer name)

theorem over_global : global.Over fun _ => none := fun _ => rfl

theorem over_nested (outer : Scope) (id : Nat) : (outer.nested id).Over outer.lookup? :=
  fun _ => rfl

theorem declares_iff_own? {s : Scope} {name : String} :
    s.declares name = true ↔ (s.own? name).isSome := by
  rw [declares, own?, List.find?_isSome, List.any_eq_true]

theorem own?_enter (s : Scope) (v : Variable) (name : String) :
    (s.enter v).own? name = (s.own? name).or (if name = v.name.value then some v else none) := by
  rw [own?, enter, List.find?_append, ← own?, List.find?_singleton]
  by_cases h : name = v.name.value
  · simp [h]
  · simp [h, Ne.symm h]

theorem lookup?_enter (s : Scope) (v : Variable) (name : String) :
    (s.enter v).lookup? name =
      if name = v.name.value ∧ ¬ s.declares v.name.value then some v else s.lookup? name := by
  rw [lookup?, enter]
  by_cases h : s.declares v.name.value
  · simp [h, lookup?]
  · simp [h, NameMap.get?_insert, lookup?]

/-- Entering a variable keeps the two in agreement. -/
theorem Over.enter {s : Scope} {outer : String → Option Variable} (h : s.Over outer)
    (v : Variable) : (s.enter v).Over outer := by
  intro name
  rw [own?_enter, lookup?_enter, h name]
  by_cases hname : name = v.name.value
  · subst hname
    by_cases hdeclares : s.declares v.name.value
    · obtain ⟨w, hw⟩ := Option.isSome_iff_exists.1 (declares_iff_own?.1 hdeclares)
      simp [hdeclares, hw]
    · have hnone : s.own? v.name.value = none := by
        rw [← Option.not_isSome_iff_eq_none, ← declares_iff_own?]
        exact hdeclares
      simp [hdeclares, hnone]
  · simp [hname]

theorem Over.add {s : Scope} {outer : String → Option Variable} (h : s.Over outer)
    (vs : List Variable) : (s.add vs).Over outer := by
  induction vs generalizing s with
  | nil => exact h
  | cons v vs ih => exact ih (h.enter v)

/-- Names mean in the scope what is found by walking outwards through the frames. -/
def Sees (s : Scope) (env : Frames) : Prop := ∀ name, s.lookup? name = env.find? name

theorem Over.sees {s : Scope} {env : Frames} (h : s.Over env.find?) :
    s.Sees (s.declared :: env) := by
  intro name
  rw [h name, Frames.find?_cons]
  rfl

theorem Sees.over_nested {s : Scope} {env : Frames} (h : s.Sees env) (id : Nat) :
    (s.nested id).Over env.find? := fun name => h name

end Scope

end LittleTiny
