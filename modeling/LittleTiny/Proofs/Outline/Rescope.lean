import LittleTiny.Proofs.Outline
import LittleTiny.Proofs.Scopes

/-!
# The scopes that declarations make

`Program.rescope` gives every block of a program the scope that its declarations make. It does not
look at the scopes that the program has (`Program.rescope_outline`), and a program that has been
read has these scopes already (`Program.outline_of_parse`). If more scopes have been opened before a
function, then all the scopes inside it have numbers that are greater by as many
(`Function.renumber_rescope`).
-/

namespace LittleTiny

mutual

/-- The statement in a block of the given scope, `n` scopes having been opened before. -/
def Statement.rescope (scope : Scope) (n : Nat) : Statement → Statement
  | .assign target value => .assign target.erase value.erase
  | .read names => .read (names.map Located.erase)
  | .write names => .write (names.map Located.erase)
  | .ifThen condition body =>
    .ifThen condition.erase (body.rescope (scope.nested (n + 1)) (n + 1))
  | .ifElse condition body alternative =>
    .ifElse condition.erase (body.rescope (scope.nested (n + 1)) (n + 1))
      (alternative.rescope (scope.nested (n + body.scopes.length + 1)) (n + body.scopes.length + 1))
  | .loop condition body => .loop condition.erase (body.rescope (scope.nested (n + 1)) (n + 1))
  | .return_ value => .return_ value.erase

/-- The block whose scope has just been opened, with the parameters in it if there are any. -/
def Block.rescope (scope : Scope) (n : Nat) : Block → Block
  | ⟨declarations, statements, _⟩ =>
    let inner := scope.add (declarations.flatMap fun d => d.erase.declared scope.id)
    ⟨declarations.map Declaration.erase, Statement.rescopeAll inner n statements, inner⟩

/-- Statements in a row with new scopes, numbered one behind the other. -/
def Statement.rescopeAll (scope : Scope) (n : Nat) : List Statement → List Statement
  | [] => []
  | s :: ss => s.rescope scope n :: Statement.rescopeAll scope (n + s.scopes.length) ss

end

namespace Function

/-- The function inside the scope `outer`, `n` scopes having been opened before. -/
def rescope (outer : Scope) (n : Nat) (f : Function) : Function :=
  ⟨f.returns.erase, f.name.erase, f.parameters.map Parameter.erase,
    f.body.rescope ((outer.nested (n + 1)).add
      (f.parameters.map fun p => p.erase.variable (n + 1))) (n + 1)⟩

/-- Functions in a row with new scopes, numbered one behind the other. -/
def rescopeAll (outer : Scope) (n : Nat) : List Function → List Function
  | [] => []
  | f :: fs => f.rescope outer n :: rescopeAll outer (n + f.body.scopes.length) fs

end Function

/-- The outermost scope that declarations make. -/
def Declaration.globalScope (ds : List Declaration) : Scope :=
  Scope.global.add (ds.flatMap fun d => d.erase.declared 0)

/-- The program without locations, each block having the scope that its declarations make. -/
def Program.rescope (p : Program) : Program :=
  ⟨p.name.erase, p.globals.map Declaration.erase, Declaration.globalScope p.globals,
    Function.rescopeAll (Declaration.globalScope p.globals) 0 p.functions, {}⟩

/-! ## The scopes of an outline -/

section

variable (σ : Scope → Scope)

mutual

theorem Statement.scopes_outline : ∀ s : Statement, (s.outline σ).scopes = s.scopes.map σ
  | .assign .. => rfl
  | .read _ => rfl
  | .write _ => rfl
  | .ifThen _ body => body.scopes_outline
  | .ifElse _ body alternative => by
    rw [Statement.outline, Statement.scopes, body.scopes_outline, alternative.scopes_outline,
      Statement.scopes, List.map_append]
  | .loop _ body => body.scopes_outline
  | .return_ _ => rfl

theorem Block.scopes_outline : ∀ b : Block, (b.outline σ).scopes = b.scopes.map σ
  | ⟨declarations, statements, scope⟩ => by
    rw [Block.outline, Block.scopes, Statement.scopesAll_outlineAll statements, Block.scopes,
      List.map_cons]

theorem Statement.scopesAll_outlineAll : ∀ ss : List Statement,
    Statement.scopesAll (Statement.outlineAll σ ss) = (Statement.scopesAll ss).map σ
  | [] => rfl
  | s :: ss => by
    rw [Statement.outlineAll, Statement.scopesAll, s.scopes_outline,
      Statement.scopesAll_outlineAll ss, Statement.scopesAll, List.map_append]

end

theorem Program.scopes_outline (p : Program) : (p.outline σ).scopes = p.scopes.map σ := by
  simp [Program.scopes, Program.outline, Function.outline, Block.scopes_outline, List.flatMap_map,
    List.map_flatMap]

theorem Program.map_names_outline (p : Program) :
    (p.outline Scope.erase).scopes.map Scope.names = p.scopes.map Scope.names := by
  simp [Program.scopes_outline, Scope.names, Scope.erase, Scope.renumber, Variable.renumber]

theorem Statement.length_scopes_outline (s : Statement) :
    (s.outline σ).scopes.length = s.scopes.length := by
  rw [s.scopes_outline, List.length_map]

theorem Block.length_scopes_outline (b : Block) :
    (b.outline σ).scopes.length = b.scopes.length := by
  rw [b.scopes_outline, List.length_map]

/-! ## Only the declarations count -/

mutual

theorem Statement.rescope_outline : ∀ (s : Statement) (scope : Scope) (n : Nat),
    (s.outline σ).rescope scope n = s.rescope scope n
  | .assign .., scope, n => by
    simp only [Statement.outline, Statement.rescope, Located.erase_erase, Expr.erase_erase]
  | .read _, scope, n => by simp [Statement.outline, Statement.rescope]
  | .write _, scope, n => by simp [Statement.outline, Statement.rescope]
  | .ifThen _ body, scope, n => by
    simp only [Statement.outline, Statement.rescope, Condition.erase_erase, body.rescope_outline]
  | .ifElse _ body alternative, scope, n => by
    simp only [Statement.outline, Statement.rescope, Condition.erase_erase, body.rescope_outline,
      alternative.rescope_outline, body.length_scopes_outline]
  | .loop _ body, scope, n => by
    simp only [Statement.outline, Statement.rescope, Condition.erase_erase, body.rescope_outline]
  | .return_ _, scope, n => by simp only [Statement.outline, Statement.rescope, Expr.erase_erase]

theorem Block.rescope_outline : ∀ (b : Block) (scope : Scope) (n : Nat),
    (b.outline σ).rescope scope n = b.rescope scope n
  | ⟨declarations, statements, _⟩, scope, n => by
    simp only [Block.outline, Block.rescope, List.map_map, List.flatMap_map, Function.comp_def,
      Declaration.erase_erase, Statement.rescopeAll_outlineAll statements]

theorem Statement.rescopeAll_outlineAll : ∀ (ss : List Statement) (scope : Scope) (n : Nat),
    Statement.rescopeAll scope n (Statement.outlineAll σ ss) = Statement.rescopeAll scope n ss
  | [], scope, n => rfl
  | s :: ss, scope, n => by
    simp only [Statement.outlineAll, Statement.rescopeAll, s.rescope_outline,
      s.length_scopes_outline, Statement.rescopeAll_outlineAll ss]

end

theorem Function.rescope_outline (f : Function) (outer : Scope) (n : Nat) :
    (f.outline σ).rescope outer n = f.rescope outer n := by
  simp only [Function.outline, Function.rescope, Located.erase_erase, List.map_map,
    Function.comp_def, Parameter.erase_erase, Block.rescope_outline]

theorem Function.rescopeAll_outline (outer : Scope) : ∀ (fs : List Function) (n : Nat),
    rescopeAll outer n (fs.map (Function.outline σ)) = rescopeAll outer n fs
  | [], n => rfl
  | f :: fs, n => by
    have hlength : (f.outline σ).body.scopes.length = f.body.scopes.length :=
      f.body.length_scopes_outline σ
    rw [List.map_cons, rescopeAll, f.rescope_outline, hlength, rescopeAll_outline outer fs,
      rescopeAll]

/-- The scopes that a program has do not matter. -/
theorem Program.rescope_outline (p : Program) : (p.outline σ).rescope = p.rescope := by
  simp only [Program.outline, Program.rescope, Declaration.globalScope, Located.erase_erase,
    List.map_map, List.flatMap_map, Function.comp_def, Declaration.erase_erase,
    Function.rescopeAll_outline]

end

/-! ## More scopes before -/

section

variable {ρ : Nat → Nat} {k : Nat}

theorem Scope.nested_renumber_succ (hρ : ∀ n, ρ (n + 1) = n + 1 + k) (scope : Scope) (n : Nat) :
    (scope.nested (n + 1)).renumber ρ = (scope.renumber ρ).nested (n + k + 1) := by
  rw [Scope.nested_renumber, hρ, Nat.add_right_comm]

mutual

theorem Statement.renumber_rescope (hρ : ∀ n, ρ (n + 1) = n + 1 + k) :
    ∀ (s : Statement) (scope : Scope) (n : Nat),
    (s.rescope scope n).outline (Scope.renumber ρ) = s.rescope (scope.renumber ρ) (n + k)
  | .assign .., scope, n => by
    simp only [Statement.rescope, Statement.outline, Located.erase_erase, Expr.erase_erase]
  | .read _, scope, n => by simp [Statement.rescope, Statement.outline]
  | .write _, scope, n => by simp [Statement.rescope, Statement.outline]
  | .ifThen _ body, scope, n => by
    simp only [Statement.rescope, Statement.outline, Condition.erase_erase,
      body.renumber_rescope hρ, Scope.nested_renumber_succ hρ, Nat.add_right_comm n 1 k]
  | .ifElse _ body alternative, scope, n => by
    simp only [Statement.rescope, Statement.outline, Condition.erase_erase,
      body.renumber_rescope hρ, alternative.renumber_rescope hρ, Scope.nested_renumber_succ hρ,
      Nat.add_right_comm n 1 k, Nat.add_right_comm _ 1 k, Nat.add_right_comm n body.scopes.length k]
  | .loop _ body, scope, n => by
    simp only [Statement.rescope, Statement.outline, Condition.erase_erase,
      body.renumber_rescope hρ, Scope.nested_renumber_succ hρ, Nat.add_right_comm n 1 k]
  | .return_ _, scope, n => by simp only [Statement.rescope, Statement.outline, Expr.erase_erase]

theorem Block.renumber_rescope (hρ : ∀ n, ρ (n + 1) = n + 1 + k) :
    ∀ (b : Block) (scope : Scope) (n : Nat),
    (b.rescope scope n).outline (Scope.renumber ρ) = b.rescope (scope.renumber ρ) (n + k)
  | ⟨declarations, statements, _⟩, scope, n => by
    simp only [Block.rescope, Block.outline, List.map_map, Function.comp_def,
      Declaration.erase_erase, Statement.renumber_rescopeAll hρ statements, Scope.add_renumber,
      List.map_flatMap, Declaration.map_declared_erase]
    rfl

theorem Statement.renumber_rescopeAll (hρ : ∀ n, ρ (n + 1) = n + 1 + k) :
    ∀ (ss : List Statement) (scope : Scope) (n : Nat),
    Statement.outlineAll (Scope.renumber ρ) (Statement.rescopeAll scope n ss) =
      Statement.rescopeAll (scope.renumber ρ) (n + k) ss
  | [], scope, n => rfl
  | s :: ss, scope, n => by
    simp only [Statement.rescopeAll, Statement.outlineAll, s.renumber_rescope hρ,
      Statement.renumber_rescopeAll hρ ss, Nat.add_right_comm n s.scopes.length k]

end

/-- If `k` more scopes have been opened before a function, then the numbers of its scopes are
greater by `k`. -/
theorem Function.renumber_rescope (hρ : ∀ n, ρ (n + 1) = n + 1 + k) (f : Function)
    (outer : Scope) (n : Nat) :
    (f.rescope outer n).outline (Scope.renumber ρ) = f.rescope (outer.renumber ρ) (n + k) := by
  have hvariable : ∀ p : Parameter, (p.erase.variable (n + 1)).renumber ρ =
      p.erase.variable (n + k + 1) := by
    intro p
    rw [← Parameter.variable_erase, Parameter.erase_erase, hρ, Nat.add_right_comm]
  simp only [Function.rescope, Function.outline, Located.erase_erase, List.map_map,
    Function.comp_def, Parameter.erase_erase, Block.renumber_rescope hρ, Scope.add_renumber,
    Scope.nested_renumber_succ hρ, hvariable, Nat.add_right_comm n 1 k]

end

theorem Declaration.renumber_globalScope {ρ : Nat → Nat} (hρ : ρ 0 = 0) (ds : List Declaration) :
    (globalScope ds).renumber ρ = globalScope ds := by
  have hglobal : Scope.global.renumber ρ = Scope.global := by
    simp [Scope.renumber, Scope.global, NameMap.map, hρ]
  simp only [globalScope, Scope.add_renumber, List.map_flatMap, map_declared_erase, hρ, hglobal]

/-! ## Programs that have been read -/

namespace Grammar

theorem Stmt.length_scopes (d : Stmt) (scope : Scope) (n : Nat) :
    (d.tree scope n).scopes.length = d.openings := by
  have hids := congrArg List.length (d.map_id_scopes scope n)
  simpa using hids

theorem Body.length_scopes (b : Body) (scope : Scope) {n : Nat} (hid : scope.id = n) :
    (b.tree scope n).scopes.length = 1 + b.openings := by
  have hids := congrArg List.length (b.map_id_scopes scope n hid)
  simpa using hids

theorem Decl.erase_declared (scope : Scope) (ds : List Decl) :
    (scope.add (Decl.declared scope.id ds)).erase =
      scope.erase.add ((ds.map Decl.tree).flatMap fun d => d.erase.declared scope.erase.id) := by
  have hdeclared : ∀ d : Decl, d.tree.erase.declared scope.erase.id =
      (d.tree.declared scope.id).map (Variable.renumber fun n => n) :=
    fun d => d.tree.declared_erase (fun n => n) scope.id
  simp only [Scope.erase, Scope.add_renumber, Decl.declared, List.map_flatMap, List.flatMap_map]
  simp only [← hdeclared, Scope.erase]

mutual

theorem Stmt.outline_tree : ∀ (d : Stmt) (scope : Scope) (n : Nat),
    (d.tree scope n).outline Scope.erase = (d.tree scope n).rescope scope.erase n
  | .assign .., scope, n => rfl
  | .read .., scope, n => rfl
  | .write .., scope, n => rfl
  | .ifThen _ _ _ _ body _, scope, n => by
    have hbody := body.outline_tree (scope.nested (n + 1)) (n + 1)
    simp only [Stmt.tree, Statement.outline, Statement.rescope, hbody, Scope.nested_erase]
  | .ifElse _ _ _ _ body _ alternative _, scope, n => by
    have hbody := body.outline_tree (scope.nested (n + 1)) (n + 1)
    have halternative := alternative.outline_tree (scope.nested (n + 1 + body.openings + 1))
      (n + 1 + body.openings + 1)
    have hlength : (body.tree (scope.nested (n + 1)) (n + 1)).scopes.length = 1 + body.openings :=
      body.length_scopes _ rfl
    have hplace : n + (1 + body.openings) + 1 = n + 1 + body.openings + 1 := by omega
    simp only [Stmt.tree, Statement.outline, Statement.rescope, hbody, halternative, hlength,
      hplace, Scope.nested_erase]
  | .loop _ _ _ _ body _, scope, n => by
    have hbody := body.outline_tree (scope.nested (n + 1)) (n + 1)
    simp only [Stmt.tree, Statement.outline, Statement.rescope, hbody, Scope.nested_erase]
  | .return_ .., scope, n => rfl

theorem Body.outline_tree : ∀ (b : Body) (scope : Scope) (n : Nat),
    (b.tree scope n).outline Scope.erase = (b.tree scope n).rescope scope.erase n
  | ⟨decls, stmts⟩, scope, n => by
    simp only [Body.tree, Block.outline, Block.rescope, Stmt.outline_trees stmts,
      Decl.erase_declared]

theorem Stmt.outline_trees : ∀ (ds : List Stmt) (scope : Scope) (n : Nat),
    Statement.outlineAll Scope.erase (Stmt.trees scope n ds) =
      Statement.rescopeAll scope.erase n (Stmt.trees scope n ds)
  | [], scope, n => rfl
  | d :: ds, scope, n => by
    simp only [Stmt.trees, Statement.outlineAll, Statement.rescopeAll, d.outline_tree,
      d.length_scopes, Stmt.outline_trees ds]

end

theorem Func.outline_tree (f : Func) (outer : Scope) (n : Nat) :
    (f.tree outer n).outline Scope.erase = (f.tree outer n).rescope outer.erase n := by
  have hbody := f.body.outline_tree (f.scope outer (n + 1)) (n + 1)
  have hscope : (f.scope outer (n + 1)).erase = (outer.erase.nested (n + 1)).add
      ((f.parameters.toList.map Param.tree).map fun p => p.erase.variable (n + 1)) := by
    simp only [Func.scope, Scope.erase, Scope.add_renumber, Scope.nested_renumber, Param.declared,
      List.map_map]
    rfl
  simp only [Func.tree, Function.outline, Function.rescope, hbody, hscope]

theorem Func.outline_trees (outer : Scope) : ∀ (fs : List Func) (n : Nat),
    (trees outer n fs).map (Function.outline Scope.erase) =
      Function.rescopeAll outer.erase n (trees outer n fs)
  | [], n => rfl
  | f :: fs, n => by
    have hlength : (f.tree outer n).body.scopes.length = f.openings :=
      f.body.length_scopes (f.scope outer (n + 1)) (f.id_scope ..)
    rw [trees, List.map_cons, Function.rescopeAll, f.outline_tree, hlength, outline_trees outer fs]

theorem Prog.outline_tree (p : Prog) : p.tree.outline Scope.erase = p.tree.rescope := by
  have hscope : p.scope.erase = Declaration.globalScope (p.globals.map Decl.tree) :=
    Decl.erase_declared Scope.global p.globals
  have hfunctions := Func.outline_trees p.scope p.functions 0
  rw [hscope] at hfunctions
  simp only [Prog.tree, Program.outline, Program.rescope, hfunctions, hscope]

end Grammar

/-- A program that has been read has the scopes that its declarations make. -/
theorem Program.outline_of_parse {tokens : List (Located Token)} {p : Program}
    (h : Program.parse tokens = .ok p) : p.outline Scope.erase = p.rescope := by
  obtain ⟨d, -, -, rfl⟩ := Program.parse_eq_ok_iff.1 h
  exact d.outline_tree

end LittleTiny
