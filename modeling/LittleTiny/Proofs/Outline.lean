import LittleTiny.Proofs.Frames

/-!
# Trees up to locations

The outline of a tree has everything that the tree has but the locations, and `σ s` in the place of
every scope `s`. Three changes of scopes matter. `Scope.renumber` gives scopes other numbers, and
`Scope.erase` is the case in which the numbers stay: two trees are equal up to locations if they
have the same outline under it. `Scope.forget` leaves nothing of a scope, so that two trees have the
same outline under it if they are written in the same way.

A program also says by itself which scopes its blocks have. `Program.rescope` is the outline in
which every scope holds what the declarations of its block make, under the number that it gets if
scopes are numbered in the order in which they are opened.
-/

namespace LittleTiny

/-- The same value at no place. -/
def Located.erase {α : Type} (x : Located α) : Located α := ⟨x.value, {}⟩

@[simp]
theorem Located.value_erase {α : Type} (x : Located α) : x.erase.value = x.value := rfl

@[simp]
theorem Located.erase_erase {α : Type} (x : Located α) : x.erase.erase = x.erase := rfl

theorem Located.erase_eq_iff {α : Type} {x y : Located α} :
    x.erase = y.erase ↔ x.value = y.value := by
  simp [erase]

/-! ## Scopes -/

/-- The variable of that name in a scope that has another number. -/
def Variable.renumber (ρ : Nat → Nat) (v : Variable) : Variable :=
  ⟨v.name.erase, v.type, v.value, ρ v.scope⟩

namespace NameMap

variable {α β γ : Type}

/-- The map with a function applied to its values. -/
def map (f : α → β) (m : NameMap α) : NameMap β where
  entries := m.entries.map fun entry => (entry.1, f entry.2)
  distinct := by
    rw [List.map_map]
    exact m.distinct

theorem map_map (f : α → β) (g : β → γ) (m : NameMap α) : (m.map f).map g = m.map (g ∘ f) := by
  simp [map, Function.comp_def]

theorem map_insert (f : α → β) (m : NameMap α) (name : String) (x : α) :
    (m.insert name x).map f = (m.map f).insert name (f x) := by
  simp [map, insert, List.filter_map, Function.comp_def]

theorem get?_map (f : α → β) (m : NameMap α) (name : String) :
    (m.map f).get? name = (m.get? name).map f := by
  have hentries : ∀ entries : List (String × α),
      (entries.map fun entry => (entry.1, f entry.2)).lookup name =
        (entries.lookup name).map f := by
    intro entries
    induction entries with
    | nil => rfl
    | cons entry entries ih =>
      rw [List.map_cons, List.lookup_cons, List.lookup_cons, ih]
      cases name == entry.1 <;> rfl
  exact hentries m.entries

end NameMap

namespace Scope

/-- The scope with other numbers for it and for those that its variables come from, its variables at
no place. -/
def renumber (ρ : Nat → Nat) (s : Scope) : Scope :=
  ⟨ρ s.id, s.declared.map (Variable.renumber ρ), s.visible.map (Variable.renumber ρ)⟩

/-- The scope with its variables at no place. -/
def erase (s : Scope) : Scope := s.renumber fun n => n

/-- Nothing of a scope. -/
def forget (_ : Scope) : Scope := .global

section

variable (ρ : Nat → Nat) (s : Scope)

theorem renumber_renumber (ρ' : Nat → Nat) :
    (s.renumber ρ).renumber ρ' = s.renumber (ρ' ∘ ρ) := by
  have hvariable : Variable.renumber ρ' ∘ Variable.renumber ρ = Variable.renumber (ρ' ∘ ρ) := rfl
  simp only [renumber, List.map_map, NameMap.map_map, hvariable, Function.comp_apply]

theorem renumber_erase : s.erase.renumber ρ = s.renumber ρ :=
  s.renumber_renumber (fun n => n) ρ

theorem lookup?_renumber (name : String) :
    (s.renumber ρ).lookup? name = (s.lookup? name).map (Variable.renumber ρ) :=
  NameMap.get?_map ..

theorem nested_renumber (id : Nat) : (s.nested id).renumber ρ = (s.renumber ρ).nested (ρ id) := rfl

theorem nested_erase (id : Nat) : (s.nested id).erase = s.erase.nested id :=
  s.nested_renumber (fun n => n) id

theorem declares_renumber (name : String) : (s.renumber ρ).declares name = s.declares name := by
  rw [declares, renumber, List.any_map]
  rfl

theorem enter_renumber (v : Variable) :
    (s.enter v).renumber ρ = (s.renumber ρ).enter (v.renumber ρ) := by
  have hdeclares : (s.renumber ρ).declares (v.renumber ρ).name.value = s.declares v.name.value :=
    s.declares_renumber ρ v.name.value
  unfold enter
  rw [hdeclares]
  cases s.declares v.name.value with
  | true => simp [renumber]
  | false => simp [renumber, NameMap.map_insert, Variable.renumber]

theorem add_renumber (vs : List Variable) :
    (s.add vs).renumber ρ = (s.renumber ρ).add (vs.map (Variable.renumber ρ)) := by
  induction vs generalizing s with
  | nil => rfl
  | cons v vs ih =>
    rw [List.map_cons, add, List.foldl_cons, ← add, ih, enter_renumber]
    rfl

end

end Scope

/-! ## Expressions -/

namespace Expr

mutual

/-- The expression without locations. -/
def erase : Expr → Expr
  | int digits _ => int digits {}
  | float digits _ => float digits {}
  | var name _ => var name {}
  | binary op lhs rhs _ => binary op lhs.erase rhs.erase {}
  | call function arguments _ => call function.erase (eraseAll arguments) {}

/-- The arguments of a call without locations. -/
def eraseAll : List Expr → List Expr
  | [] => []
  | e :: es => e.erase :: eraseAll es

end

mutual

theorem erase_erase : ∀ e : Expr, e.erase.erase = e.erase
  | int .. => rfl
  | float .. => rfl
  | var .. => rfl
  | binary op lhs rhs _ => by simp only [erase, lhs.erase_erase, rhs.erase_erase]
  | call function arguments _ => by
    simp only [erase, eraseAll_eraseAll arguments, Located.erase_erase]

theorem eraseAll_eraseAll : ∀ es : List Expr, eraseAll (eraseAll es) = eraseAll es
  | [] => rfl
  | e :: es => by simp only [eraseAll, e.erase_erase, eraseAll_eraseAll es]

end

theorem location_erase (e : Expr) : e.erase.location = {} := by
  cases e <;> rfl

/-- What counts of an expression in parentheses is the expression. -/
theorem erase_relocate (l : Location) (e : Expr) : (e.relocate l).erase = e.erase := by
  cases e <;> rfl

theorem erase_join (op : ArithOp) (lhs rhs : Expr) :
    (join op lhs rhs).erase = binary op lhs.erase rhs.erase {} := rfl

end Expr

/-- The condition without locations. -/
def Condition.erase (c : Condition) : Condition := ⟨c.op, c.lhs.erase, c.rhs.erase⟩

theorem Condition.erase_erase (c : Condition) : c.erase.erase = c.erase := by
  simp only [erase, Expr.erase_erase]

/-! ## Declarations -/

namespace Declaration

/-- The declaration without locations. -/
def erase : Declaration → Declaration
  | text name value => text name.erase value.erase
  | numbers type names => numbers type.erase (names.map Located.erase)

theorem erase_erase (d : Declaration) : d.erase.erase = d.erase := by
  cases d <;> simp [erase]

theorem declared_erase (ρ : Nat → Nat) (id : Nat) (d : Declaration) :
    d.erase.declared (ρ id) = (d.declared id).map (Variable.renumber ρ) := by
  cases d <;> simp [erase, declared, Variable.renumber]

theorem map_declared_erase (ρ : Nat → Nat) (id : Nat) (d : Declaration) :
    (d.erase.declared id).map (Variable.renumber ρ) = d.erase.declared (ρ id) := by
  rw [← declared_erase, erase_erase]

end Declaration

namespace Parameter

/-- The parameter without locations. -/
def erase (p : Parameter) : Parameter := ⟨p.type.erase, p.name.erase⟩

theorem erase_erase (p : Parameter) : p.erase.erase = p.erase := rfl

theorem variable_erase (ρ : Nat → Nat) (id : Nat) (p : Parameter) :
    p.erase.variable (ρ id) = (p.variable id).renumber ρ := rfl

end Parameter

/-! ## Statements and programs -/

mutual

/-- The statement without locations, `σ` being applied to the scopes of its blocks. -/
def Statement.outline (σ : Scope → Scope) : Statement → Statement
  | .assign target value => .assign target.erase value.erase
  | .read names => .read (names.map Located.erase)
  | .write names => .write (names.map Located.erase)
  | .ifThen condition body => .ifThen condition.erase (body.outline σ)
  | .ifElse condition body alternative =>
    .ifElse condition.erase (body.outline σ) (alternative.outline σ)
  | .loop condition body => .loop condition.erase (body.outline σ)
  | .return_ value => .return_ value.erase

/-- The block without locations, `σ` being applied to its scope and to those inside. -/
def Block.outline (σ : Scope → Scope) : Block → Block
  | ⟨declarations, statements, scope⟩ =>
    ⟨declarations.map Declaration.erase, Statement.outlineAll σ statements, σ scope⟩

/-- The outlines of statements in a row. -/
def Statement.outlineAll (σ : Scope → Scope) : List Statement → List Statement
  | [] => []
  | s :: ss => s.outline σ :: Statement.outlineAll σ ss

end

/-- The function without locations, `σ` being applied to its scopes. -/
def Function.outline (σ : Scope → Scope) (f : Function) : Function :=
  ⟨f.returns.erase, f.name.erase, f.parameters.map Parameter.erase, f.body.outline σ⟩

/-- The program without locations, `σ` being applied to its scopes. -/
def Program.outline (σ : Scope → Scope) (p : Program) : Program :=
  ⟨p.name.erase, p.globals.map Declaration.erase, σ p.scope, p.functions.map (Function.outline σ),
    {}⟩

section

variable (σ τ : Scope → Scope)

mutual

theorem Statement.outline_outline : ∀ s : Statement,
    (s.outline σ).outline τ = s.outline (τ ∘ σ)
  | .assign .. => by simp only [Statement.outline, Located.erase_erase, Expr.erase_erase]
  | .read _ => by simp [Statement.outline]
  | .write _ => by simp [Statement.outline]
  | .ifThen _ body => by
    simp only [Statement.outline, Condition.erase_erase, body.outline_outline]
  | .ifElse _ body alternative => by
    simp only [Statement.outline, Condition.erase_erase, body.outline_outline,
      alternative.outline_outline]
  | .loop _ body => by
    simp only [Statement.outline, Condition.erase_erase, body.outline_outline]
  | .return_ _ => by simp only [Statement.outline, Expr.erase_erase]

theorem Block.outline_outline : ∀ b : Block, (b.outline σ).outline τ = b.outline (τ ∘ σ)
  | ⟨declarations, statements, scope⟩ => by
    simp [Block.outline, Statement.outlineAll_outlineAll statements, Function.comp_def,
      Declaration.erase_erase]

theorem Statement.outlineAll_outlineAll : ∀ ss : List Statement,
    Statement.outlineAll τ (Statement.outlineAll σ ss) = Statement.outlineAll (τ ∘ σ) ss
  | [] => rfl
  | s :: ss => by
    simp only [Statement.outlineAll, s.outline_outline, Statement.outlineAll_outlineAll ss]

end

theorem Function.outline_outline (f : Function) :
    (f.outline σ).outline τ = f.outline (τ ∘ σ) := by
  simp [Function.outline, Block.outline_outline, Function.comp_def, Parameter.erase_erase]

theorem Program.outline_outline (p : Program) : (p.outline σ).outline τ = p.outline (τ ∘ σ) := by
  simp [Program.outline, Function.outline_outline, Function.comp_def, Declaration.erase_erase]

end

end LittleTiny
