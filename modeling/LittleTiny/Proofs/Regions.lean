import LittleTiny.Proofs.Scopes

/-!
# Lexical scoping

A region is a part of a program that has a scope of its own: the program, a function, or a block of
an IF, an ELSE or a WHILE. `Program.Nest` says which regions stand around a region. A scope copies
the names that are visible when it is opened, and this copy is enough: it finds in every region what
is found by walking outwards through the regions around it, and never a variable of any other region
(`Program.lookup?_eq_walk`).
-/

namespace LittleTiny

open Grammar

/-- A part of a program that has a scope of its own. -/
inductive Region where
  | program (p : Program)
  | function (f : Function)
  | block (b : Block)

namespace Region

/-- The scope of a region. -/
def scope : Region → Scope
  | program p => p.scope
  | function f => f.body.scope
  | block b => b.scope

/-- The variables that the region itself declares, the parameters of a function among them. -/
def frame : Region → List Variable
  | program p => p.frame
  | function f => f.frame
  | block b => b.frame

/-- The statements that stand in the region and in no region inside of it. -/
def statements : Region → List Statement
  | program _ => []
  | function f => f.body.statements
  | block b => b.statements

/-- A variable has the number of the region that declares it. -/
theorem scope_eq_of_mem_frame {r : Region} {v : Variable} (h : v ∈ r.frame) :
    v.scope = r.scope.id := by
  have hdeclared : ∀ {ds : List Declaration} {id : Nat},
      v ∈ ds.flatMap (Declaration.declared id) → v.scope = id := by
    intro ds id hv
    obtain ⟨d, -, hv⟩ := List.mem_flatMap.1 hv
    exact Declaration.scope_eq hv
  cases r with
  | program p => exact hdeclared h
  | function f =>
    rcases List.mem_append.1 h with h | h
    · obtain ⟨parameter, -, rfl⟩ := List.mem_map.1 h
      rfl
    · exact hdeclared h
  | block b => exact hdeclared h

end Region

/-- The blocks that a statement opens, without those inside of them. -/
def Statement.blocks : Statement → List Block
  | .ifThen _ body => [body]
  | .ifElse _ body alternative => [body, alternative]
  | .loop _ body => [body]
  | _ => []

/-- A region of the program, and the regions around it, the innermost first. -/
inductive Program.Nest (p : Program) : Region → List Region → Prop
  | program : Nest p (.program p) []
  | function {f : Function} (hf : f ∈ p.functions) : Nest p (.function f) [.program p]
  | block {r : Region} {around : List Region} {s : Statement} {b : Block} (h : Nest p r around)
      (hs : s ∈ r.statements) (hb : b ∈ s.blocks) : Nest p (.block b) (r :: around)

theorem Program.Nest.exists_of_mem {p : Program} {r r' : Region} {around : List Region}
    (h : p.Nest r around) (hr : r' ∈ r :: around) : ∃ around', p.Nest r' around' := by
  induction h with
  | program =>
    obtain rfl := List.mem_singleton.1 hr
    exact ⟨[], .program⟩
  | function hf =>
    rcases List.mem_cons.1 hr with rfl | hr
    · exact ⟨_, .function hf⟩
    · obtain rfl := List.mem_singleton.1 hr
      exact ⟨[], .program⟩
  | block h hs hb ih =>
    rcases List.mem_cons.1 hr with rfl | hr
    · exact ⟨_, .block h hs hb⟩
    · exact ih hr

/-! ## Copies of what can be seen -/

namespace Grammar

theorem Stmt.exists_of_mem_trees {scope : Scope} {s : Statement} :
    ∀ {ds : List Stmt} {n : Nat}, s ∈ Stmt.trees scope n ds → ∃ d : Stmt, ∃ n, s = d.tree scope n
  | [], n, h => by cases h
  | d :: ds, n, h => by
    rcases List.mem_cons.1 h with rfl | h
    · exact ⟨d, n, rfl⟩
    · exact exists_of_mem_trees h

/-- The blocks of a statement are opened inside the scope that the statement stands in. -/
theorem Stmt.exists_of_mem_blocks {d : Stmt} {scope : Scope} {n : Nat} {b : Block}
    (h : b ∈ (d.tree scope n).blocks) :
    ∃ body : Body, ∃ n, b = body.tree (scope.nested n) n := by
  cases d with
  | ifThen if_ opening condition closing body endIf =>
    exact ⟨body, _, List.mem_singleton.1 h⟩
  | ifElse if_ opening condition closing body else_ alternative endIf =>
    rcases List.mem_cons.1 h with rfl | h
    · exact ⟨body, _, rfl⟩
    · exact ⟨alternative, _, List.mem_singleton.1 h⟩
  | loop while_ opening condition closing body endWhile =>
    exact ⟨body, _, List.mem_singleton.1 h⟩
  | _ => cases h

theorem Body.over_tree (b : Body) {scope : Scope} {outer : String → Option Variable}
    (h : scope.Over outer) (n : Nat) : (b.tree scope n).scope.Over outer := by
  obtain ⟨decls, stmts⟩ := b
  exact h.add _

theorem Body.statements_tree (b : Body) (scope : Scope) (n : Nat) :
    (b.tree scope n).statements = Stmt.trees (b.tree scope n).scope n b.stmts := by
  obtain ⟨decls, stmts⟩ := b
  rfl

end Grammar

/-- The scope of the region sees the variables of the regions `rs`, and is the one in which the
statements of the region were read. -/
structure Region.Sees (r : Region) (rs : List Region) : Prop where
  names : r.scope.Sees (rs.map Region.frame)
  statements_eq : ∃ (ds : List Stmt) (n : Nat), r.statements = Stmt.trees r.scope n ds

theorem Region.Sees.block {r : Region} {rs : List Region} (h : r.Sees rs) {s : Statement}
    {b : Block} (hs : s ∈ r.statements) (hb : b ∈ s.blocks) :
    (Region.block b).Sees (.block b :: rs) := by
  obtain ⟨ds, n, hds⟩ := h.statements_eq
  rw [hds] at hs
  obtain ⟨d, m, rfl⟩ := Stmt.exists_of_mem_trees hs
  obtain ⟨body, k, rfl⟩ := Stmt.exists_of_mem_blocks hb
  refine ⟨?_, body.stmts, k, body.statements_tree _ _⟩
  have hsees := Scope.Over.sees (body.over_tree (h.names.over_nested k) k)
  rw [body.declared_nested] at hsees
  exact hsees

theorem Grammar.Prog.sees (d : Prog) : (Region.program d.tree).Sees [.program d.tree] :=
  ⟨d.sees_scope, [], 0, rfl⟩

theorem Grammar.Func.sees {d : Prog} {f : Function} (hf : f ∈ d.tree.functions) :
    (Region.function f).Sees [.function f, .program d.tree] := by
  obtain ⟨f, -, n, rfl⟩ := Func.exists_of_mem_trees hf
  refine ⟨?_, f.body.stmts, n + 1, f.body.statements_tree _ _⟩
  have hover := (d.sees_scope.over_nested (n + 1)).add (Param.declared (n + 1) f.parameters.toList)
  have hsees : (f.tree d.scope n).body.scope.Sees
      ((f.tree d.scope n).body.scope.declared :: [d.tree.frame]) :=
    Scope.Over.sees (f.body.over_tree hover (n + 1))
  rw [f.frame_tree] at hsees
  exact hsees

theorem Grammar.Prog.sees_of_nest {d : Prog} {r : Region} {around : List Region}
    (h : d.tree.Nest r around) : r.Sees (r :: around) := by
  induction h with
  | program => exact d.sees
  | function hf => exact Func.sees hf
  | block h hs hb ih => exact ih.block hs hb

/-! ## Numbers of regions -/

mutual

/-- The blocks inside a statement, in the order in which they are opened. -/
def Statement.inner : Statement → List Block
  | .assign .. => []
  | .read _ => []
  | .write _ => []
  | .ifThen _ body => body.inner
  | .ifElse _ body alternative => body.inner ++ alternative.inner
  | .loop _ body => body.inner
  | .return_ _ => []

/-- A block and the blocks inside of it. -/
def Block.inner : Block → List Block
  | ⟨declarations, statements, scope⟩ =>
    ⟨declarations, statements, scope⟩ :: Statement.innerAll statements

/-- The blocks of statements in a row. -/
def Statement.innerAll : List Statement → List Block
  | [] => []
  | s :: ss => s.inner ++ Statement.innerAll ss

end

theorem Block.inner_eq (b : Block) : b.inner = b :: Statement.innerAll b.statements := by
  cases b
  rfl

mutual

theorem Statement.map_scope_inner : ∀ s : Statement, s.inner.map Block.scope = s.scopes
  | .assign .. => rfl
  | .read _ => rfl
  | .write _ => rfl
  | .ifThen _ body => body.map_scope_inner
  | .ifElse _ body alternative => by
    rw [Statement.inner, Statement.scopes, List.map_append, body.map_scope_inner,
      alternative.map_scope_inner]
  | .loop _ body => body.map_scope_inner
  | .return_ _ => rfl

theorem Block.map_scope_inner : ∀ b : Block, b.inner.map Block.scope = b.scopes
  | ⟨declarations, statements, scope⟩ => by
    rw [Block.inner, Block.scopes, List.map_cons, Statement.map_scope_innerAll]

theorem Statement.map_scope_innerAll : ∀ ss : List Statement,
    (Statement.innerAll ss).map Block.scope = Statement.scopesAll ss
  | [] => rfl
  | s :: ss => by
    rw [Statement.innerAll, Statement.scopesAll, List.map_append, s.map_scope_inner,
      Statement.map_scope_innerAll]

end

theorem Statement.inner_subset {s : Statement} {b : Block} (h : b ∈ s.blocks) :
    b.inner ⊆ s.inner := by
  cases s with
  | ifThen condition body =>
    obtain rfl := List.mem_singleton.1 h
    exact List.Subset.refl _
  | ifElse condition body alternative =>
    rcases List.mem_cons.1 h with rfl | h
    · exact List.subset_append_left _ _
    · obtain rfl := List.mem_singleton.1 h
      exact List.subset_append_right _ _
  | loop condition body =>
    obtain rfl := List.mem_singleton.1 h
    exact List.Subset.refl _
  | _ => cases h

theorem Statement.inner_subset_innerAll {s : Statement} : ∀ {ss : List Statement}, s ∈ ss →
    s.inner ⊆ Statement.innerAll ss
  | t :: ss, h => by
    rcases List.mem_cons.1 h with rfl | h
    · exact List.subset_append_left _ _
    · exact List.subset_append_of_subset_right _ (inner_subset_innerAll h)

namespace Program

/-- All the regions of a program, in the order in which their scopes are opened. -/
def regions (p : Program) : List Region :=
  .program p :: p.functions.flatMap fun f =>
    .function f :: (Statement.innerAll f.body.statements).map .block

theorem map_scope_regions (p : Program) : p.regions.map Region.scope = p.scopes := by
  rw [regions, scopes, List.map_cons, List.map_flatMap]
  congr 2
  funext f
  rw [List.map_cons, List.map_map, ← f.body.map_scope_inner, f.body.inner_eq]
  rfl

variable {p : Program} {r r' : Region} {around around' : List Region}

theorem Nest.inner_subset (h : p.Nest r around) :
    r ∈ p.regions ∧ (Statement.innerAll r.statements).map .block ⊆ p.regions := by
  induction h with
  | program => exact ⟨List.mem_cons_self, List.nil_subset _⟩
  | @function f hf =>
    have hsubset : (.function f :: (Statement.innerAll f.body.statements).map .block) ⊆ p.regions :=
      List.subset_cons_of_subset _ fun r hr => List.mem_flatMap.2 ⟨f, hf, hr⟩
    exact List.cons_subset.1 hsubset
  | @block r around s b h hs hb ih =>
    have hinner : b.inner ⊆ Statement.innerAll r.statements :=
      List.Subset.trans (Statement.inner_subset hb) (Statement.inner_subset_innerAll hs)
    have hsubset := List.Subset.trans (List.map_subset Region.block hinner) ih.2
    rw [b.inner_eq, List.map_cons] at hsubset
    exact List.cons_subset.1 hsubset

/-- Regions of a program that have the same number are the same. -/
theorem WellScoped.eq_of_id_eq (hp : p.WellScoped) (h : p.Nest r around) (h' : p.Nest r' around')
    (hid : r.scope.id = r'.scope.id) : r = r' := by
  obtain ⟨n, hn⟩ := hp.map_id
  have hnodup : (p.regions.map fun r => r.scope.id).Nodup := by
    have hmap : p.regions.map (fun r => r.scope.id) = List.range n := by
      rw [← hn, ← map_scope_regions, List.map_map]
      rfl
    rw [hmap]
    exact List.nodup_range
  exact List.inj_on_of_nodup_map hnodup h.inner_subset.1 h'.inner_subset.1 hid

/-- In every region a name means the variable that is found by walking outwards through the regions
around it, if there is one, and no variable of a region that does not stand around it. -/
theorem lookup?_eq_walk {tokens : List (Located Token)} (hp : Program.parse tokens = .ok p)
    (h : p.Nest r around) (name : String) :
    r.scope.lookup? name = Frames.find? ((r :: around).map Region.frame) name ∧
      ∀ r' around', p.Nest r' around' → r' ∉ r :: around →
        ∀ v ∈ r'.frame, r.scope.lookup? name ≠ some v := by
  have hscoped := wellScoped_of_parse hp
  obtain ⟨d, -, -, rfl⟩ := parse_eq_ok_iff.1 hp
  have hwalk := (Prog.sees_of_nest h).names name
  refine ⟨hwalk, fun r' around' h' hr' v hv hfound => hr' ?_⟩
  obtain ⟨frame, hframe, hv'⟩ := List.exists_of_findSome?_eq_some (hwalk.symm.trans hfound)
  obtain ⟨r'', hr'', rfl⟩ := List.mem_map.1 hframe
  obtain ⟨around'', h''⟩ := h.exists_of_mem hr''
  have hid : r''.scope.id = r'.scope.id := by
    rw [← Region.scope_eq_of_mem_frame (List.mem_of_find?_eq_some hv'),
      Region.scope_eq_of_mem_frame hv]
  rw [← hscoped.eq_of_id_eq h'' h' hid]
  exact hr''

/-! ## A program with two blocks side by side -/

/-- `PROGRAM p BEGIN INT x; FUNCTION VOID main() BEGIN IF (x < 1) FLOAT x; READ(x); ELSE WRITE(x);
ENDIF END END` -/
def sideBySide : Prog where
  program := {}
  name := unplaced "p"
  begin_ := {}
  globals := [.numbers (unplaced .int) ⟨unplaced "x", []⟩ {}]
  functions := [{
    function := {}
    returns := unplaced .void
    name := unplaced "main"
    opening := {}
    parameters := .none
    closing := {}
    begin_ := {}
    body := ⟨[], [.ifElse {} {}
      ⟨.var "x", unplaced .less, .int "1"⟩ {}
      ⟨[.numbers (unplaced .float) ⟨unplaced "x", []⟩ {}],
        [.read {} {} ⟨unplaced "x", []⟩ {} {}]⟩ {}
      ⟨[], [.write {} {} ⟨unplaced "x", []⟩ {} {}]⟩ {}]⟩
    end_ := {} }]
  end_ := {}

theorem lookup?_eq_walk_sideBySide :
    ∃ (main : Function) (condition : Condition) (body alternative : Block),
      Program.parse sideBySide.tokens = .ok sideBySide.tree ∧ sideBySide.tree.functions = [main] ∧
      main.body.statements = [.ifElse condition body alternative] ∧
      sideBySide.tree.Nest (.block alternative) [.function main, .program sideBySide.tree] ∧
      alternative.scope.lookup? "x" =
        Frames.find? [alternative.frame, main.frame, sideBySide.tree.frame] "x" ∧
      (body.scope.lookup? "x").map Variable.scope = some 2 ∧
      (alternative.scope.lookup? "x").map Variable.scope = some 0 ∧
      ∀ v ∈ body.frame, alternative.scope.lookup? "x" ≠ some v := by
  have hp : Program.parse sideBySide.tokens = .ok sideBySide.tree :=
    Program.parse_eq_ok_iff.2 ⟨sideBySide, rfl, by decide, rfl⟩
  obtain ⟨main, condition, body, alternative, hmain, hs, hbody, halternative, hid⟩ :
      ∃ (main : Function) (condition : Condition) (body alternative : Block),
        sideBySide.tree.functions = [main] ∧
        main.body.statements = [.ifElse condition body alternative] ∧
        (body.scope.lookup? "x").map Variable.scope = some 2 ∧
        (alternative.scope.lookup? "x").map Variable.scope = some 0 ∧
        body.scope.id ≠ alternative.scope.id :=
    ⟨_, _, _, _, rfl, rfl, rfl, rfl, by decide⟩
  have hblock : ∀ b ∈ [body, alternative],
      sideBySide.tree.Nest (.block b) [.function main, .program sideBySide.tree] := by
    intro b hb
    have hf : main ∈ sideBySide.tree.functions := by simp [hmain]
    have hs : .ifElse condition body alternative ∈ (Region.function main).statements := by
      simp [Region.statements, hs]
    exact .block (.function hf) hs hb
  have hnest := hblock alternative (by simp)
  obtain ⟨hwalk, hapart⟩ := lookup?_eq_walk hp hnest "x"
  refine ⟨main, condition, body, alternative, hp, hmain, hs, hnest, hwalk, hbody, halternative,
    hapart _ _ (hblock body (by simp)) ?_⟩
  intro hmem
  have hb : body = alternative := by simpa using hmem
  exact hid (congrArg (fun b => b.scope.id) hb)

end Program

end LittleTiny
