import LittleTiny.Proofs.Grammar.Program

/-!
# The scopes of a program

In the tree of a derivation, scopes are numbered in the order in which they are opened, without a
gap (`Prog.map_id_scopes`). Each scope holds the variables that are declared in it, under its own
number (`Prog.scope_eq`), and a name once. So no two variables of a program have both the same
number and the same name (`Program.WellScoped.nodup_keys`).
-/

namespace LittleTiny

/-- A scope whose variables have its number and names of their own. -/
structure Scope.WellFormed (s : Scope) : Prop where
  scope_eq : ∀ v ∈ s.declared, v.scope = s.id
  nodup : s.names.Nodup

/-- What tells variables apart: the number of the scope, and the name. -/
def Variable.key (v : Variable) : Nat × String := (v.scope, v.name.value)

theorem Declaration.scope_eq {id : Nat} {d : Declaration} {v : Variable} (h : v ∈ d.declared id) :
    v.scope = id := by
  cases d with
  | text name value =>
    obtain rfl := List.mem_singleton.1 h
    rfl
  | numbers type names =>
    obtain ⟨name, -, rfl⟩ := List.mem_map.1 h
    rfl

namespace Grammar

/-! ## One block -/

section

variable (b : Body) (scope : Scope) (n : Nat)

/-- The scope of a block declares what it held before and the variables of the block. -/
theorem Body.declared_tree :
    (b.tree scope n).scope.declared = scope.declared ++ (b.tree scope n).frame := by
  obtain ⟨decls, stmts⟩ := b
  simp [Body.tree, Block.frame, Decl.declared, List.flatMap_map]

theorem Body.declared_nested :
    (b.tree (scope.nested n) n).scope.declared = (b.tree (scope.nested n) n).frame :=
  b.declared_tree (scope.nested n) n

theorem Body.id_tree : (b.tree scope n).scope.id = scope.id := by
  obtain ⟨decls, stmts⟩ := b
  exact Scope.id_add ..

end

theorem Func.id_tree (f : Func) (outer : Scope) (n : Nat) :
    (f.tree outer n).body.scope.id = n + 1 :=
  (f.body.id_tree _ _).trans (f.id_scope outer (n + 1))

theorem Func.frame_tree (f : Func) (outer : Scope) (n : Nat) :
    (f.tree outer n).body.scope.declared = (f.tree outer n).frame := by
  rw [Function.frame, f.id_tree]
  simp [Func.tree, Body.declared_tree, Param.declared, Function.comp_def]

theorem Prog.frame_tree (p : Prog) : p.tree.scope.declared = p.tree.frame := by
  simp [Prog.tree, Program.frame, Decl.declared, List.flatMap_map]

theorem Prog.sees_scope (p : Prog) : p.scope.Sees [p.tree.frame] := by
  rw [← p.frame_tree]
  exact Scope.Over.sees (Scope.over_global.add _)

theorem Func.exists_of_mem_trees {outer : Scope} {f : Function} :
    ∀ {fs : List Func} {n : Nat}, f ∈ trees outer n fs → ∃ d ∈ fs, ∃ n, f = d.tree outer n
  | [], n, h => by cases h
  | d :: fs, n, h => by
    rcases List.mem_cons.1 h with rfl | h
    · exact ⟨d, List.mem_cons_self, n, rfl⟩
    · obtain ⟨d', hd', n', hf⟩ := exists_of_mem_trees h
      exact ⟨d', List.mem_cons_of_mem d hd', n', hf⟩

/-! ## Numbers -/

mutual

theorem Stmt.map_id_scopes : ∀ (d : Stmt) (scope : Scope) (n : Nat),
    (d.tree scope n).scopes.map Scope.id = List.range' (n + 1) d.openings
  | .assign .., scope, n => rfl
  | .read .., scope, n => rfl
  | .write .., scope, n => rfl
  | .ifThen _ _ _ _ body _, scope, n => body.map_id_scopes (scope.nested (n + 1)) (n + 1) rfl
  | .ifElse _ _ _ _ body _ alternative _, scope, n => by
    have hbody := body.map_id_scopes (scope.nested (n + 1)) (n + 1) rfl
    have halternative := alternative.map_id_scopes (scope.nested (n + 1 + body.openings + 1))
      (n + 1 + body.openings + 1) rfl
    have hplace : n + 1 + body.openings + 1 = n + 1 + (1 + body.openings) := by omega
    rw [Stmt.tree, Statement.scopes, List.map_append, hbody, halternative, hplace,
      List.range'_append_1, Stmt.openings]
  | .loop _ _ _ _ body _, scope, n => body.map_id_scopes (scope.nested (n + 1)) (n + 1) rfl
  | .return_ .., scope, n => rfl

theorem Body.map_id_scopes : ∀ (b : Body) (scope : Scope) (n : Nat), scope.id = n →
    (b.tree scope n).scopes.map Scope.id = List.range' n (1 + b.openings)
  | ⟨decls, stmts⟩, scope, n, hid => by
    rw [Body.tree, Block.scopes, List.map_cons, Stmt.map_id_scopesAll, Scope.id_add,
      Nat.add_comm 1, List.range'_succ, ← hid]
    rfl

theorem Stmt.map_id_scopesAll : ∀ (ds : List Stmt) (scope : Scope) (n : Nat),
    (Statement.scopesAll (Stmt.trees scope n ds)).map Scope.id =
      List.range' (n + 1) (Stmt.openingsAll ds)
  | [], scope, n => rfl
  | d :: ds, scope, n => by
    rw [Stmt.trees, Statement.scopesAll, List.map_append, d.map_id_scopes, Stmt.map_id_scopesAll,
      Stmt.openingsAll, ← List.range'_append_1, Nat.add_right_comm]

end

theorem Func.map_id_scopes (f : Func) (outer : Scope) (n : Nat) :
    (f.tree outer n).body.scopes.map Scope.id = List.range' (n + 1) f.openings :=
  f.body.map_id_scopes (f.scope outer (n + 1)) (n + 1) (f.id_scope ..)

theorem Func.map_id_scopesAll (outer : Scope) : ∀ (fs : List Func) (n : Nat),
    ((trees outer n fs).flatMap fun f => f.body.scopes).map Scope.id =
      List.range' (n + 1) (openingsAll fs)
  | [], n => rfl
  | f :: fs, n => by
    rw [trees, List.flatMap_cons, List.map_append, f.map_id_scopes, Func.map_id_scopesAll,
      openingsAll, ← List.range'_append_1, Nat.add_right_comm]

/-- Scopes are numbered in the order in which they are opened, the outermost one with 0. -/
theorem Prog.map_id_scopes (p : Prog) :
    p.tree.scopes.map Scope.id = List.range (1 + Func.openingsAll p.functions) := by
  have hid : p.tree.scope.id = 0 := p.id_scope
  rw [Program.scopes, List.map_cons, hid, List.range_eq_range', Nat.add_comm, List.range'_succ]
  exact congrArg (0 :: ·) (Func.map_id_scopesAll p.scope p.functions 0)

/-! ## Variables -/

mutual

theorem Stmt.map_names_scopes : ∀ (d : Stmt) (scope : Scope) (n : Nat),
    (d.tree scope n).scopes.map Scope.names = d.scopes
  | .assign .., scope, n => rfl
  | .read .., scope, n => rfl
  | .write .., scope, n => rfl
  | .ifThen _ _ _ _ body _, scope, n => body.map_names_scopes (scope.nested (n + 1)) (n + 1)
  | .ifElse _ _ _ _ body _ alternative _, scope, n => by
    rw [Stmt.tree, Statement.scopes, List.map_append, body.map_names_scopes,
      alternative.map_names_scopes]
    rfl
  | .loop _ _ _ _ body _, scope, n => body.map_names_scopes (scope.nested (n + 1)) (n + 1)
  | .return_ .., scope, n => rfl

theorem Body.map_names_scopes : ∀ (b : Body) (scope : Scope) (n : Nat),
    (b.tree scope n).scopes.map Scope.names = b.scopes scope.names
  | ⟨decls, stmts⟩, scope, n => by
    rw [Body.tree, Block.scopes, List.map_cons, Stmt.map_names_scopesAll, Scope.names_add,
      Decl.map_name_declared, Body.scopes]

theorem Stmt.map_names_scopesAll : ∀ (ds : List Stmt) (scope : Scope) (n : Nat),
    (Statement.scopesAll (Stmt.trees scope n ds)).map Scope.names = Stmt.scopesAll ds
  | [], scope, n => rfl
  | d :: ds, scope, n => by
    rw [Stmt.trees, Statement.scopesAll, List.map_append, d.map_names_scopes,
      Stmt.map_names_scopesAll, Stmt.scopesAll]

end

theorem Func.map_names_scopes (f : Func) (outer : Scope) (n : Nat) :
    (f.tree outer n).body.scopes.map Scope.names = f.scopes := by
  have hnames := Param.names_add_all (outer.nested (n + 1)) f.parameters.toList
  have hscope : (f.scope outer (n + 1)).names = f.parameters.toList.map fun p => p.name.value :=
    hnames
  rw [Func.scopes, ← hscope]
  exact f.body.map_names_scopes (f.scope outer (n + 1)) (n + 1)

theorem Func.map_names_scopesAll (outer : Scope) : ∀ (fs : List Func) (n : Nat),
    ((trees outer n fs).flatMap fun f => f.body.scopes).map Scope.names = fs.flatMap Func.scopes
  | [], n => rfl
  | f :: fs, n => by
    rw [trees, List.flatMap_cons, List.map_append, f.map_names_scopes, Func.map_names_scopesAll,
      List.flatMap_cons]

/-- The scopes of the tree declare the names that the derivation lists. -/
theorem Prog.map_names_scopes (p : Prog) : p.tree.scopes.map Scope.names = p.scopes := by
  have hnames := Scope.names_add Scope.global (Decl.declared 0 p.globals)
  rw [Decl.map_name_declared] at hnames
  have hglobals : p.scope.names = p.globals.flatMap Decl.names := hnames
  rw [Program.scopes, List.map_cons, Prog.scopes, ← hglobals]
  exact congrArg (p.scope.names :: ·) (Func.map_names_scopesAll p.scope p.functions 0)

theorem Decl.scope_eq {id : Nat} {ds : List Decl} {v : Variable} (h : v ∈ Decl.declared id ds) :
    v.scope = id := by
  obtain ⟨d, -, hv⟩ := List.mem_flatMap.1 h
  exact Declaration.scope_eq hv

mutual

theorem Stmt.scope_eq : ∀ {d : Stmt} {scope : Scope} {n : Nat},
    ∀ s ∈ (d.tree scope n).scopes, ∀ v ∈ s.declared, v.scope = s.id
  | .assign .., scope, n, s, hs => by cases hs
  | .read .., scope, n, s, hs => by cases hs
  | .write .., scope, n, s, hs => by cases hs
  | .ifThen _ _ _ _ body _, scope, n, s, hs =>
    body.scope_eq (scope.nested (n + 1)) (fun v hv => nomatch hv) s hs
  | .ifElse _ _ _ _ body _ alternative _, scope, n, s, hs => by
    rw [Stmt.tree, Statement.scopes, List.mem_append] at hs
    rcases hs with hs | hs
    · exact body.scope_eq (scope.nested (n + 1)) (fun v hv => nomatch hv) s hs
    · exact alternative.scope_eq (scope.nested (n + 1 + body.openings + 1))
        (fun v hv => nomatch hv) s hs
  | .loop _ _ _ _ body _, scope, n, s, hs =>
    body.scope_eq (scope.nested (n + 1)) (fun v hv => nomatch hv) s hs
  | .return_ .., scope, n, s, hs => by cases hs

theorem Body.scope_eq : ∀ (b : Body) (scope : Scope) {n : Nat},
    (∀ v ∈ scope.declared, v.scope = scope.id) →
    ∀ s ∈ (b.tree scope n).scopes, ∀ v ∈ s.declared, v.scope = s.id
  | ⟨decls, stmts⟩, scope, n, hscope, s, hs => by
    rw [Body.tree, Block.scopes, List.mem_cons] at hs
    rcases hs with rfl | hs
    · intro v hv
      rw [Scope.id_add]
      rw [Scope.declared_add] at hv
      rcases List.mem_append.1 hv with hv | hv
      · exact hscope v hv
      · exact Decl.scope_eq hv
    · exact Stmt.scope_eqAll s hs

theorem Stmt.scope_eqAll : ∀ {ds : List Stmt} {scope : Scope} {n : Nat},
    ∀ s ∈ Statement.scopesAll (Stmt.trees scope n ds), ∀ v ∈ s.declared, v.scope = s.id
  | [], scope, n, s, hs => by cases hs
  | d :: ds, scope, n, s, hs => by
    rw [Stmt.trees, Statement.scopesAll, List.mem_append] at hs
    rcases hs with hs | hs
    · exact Stmt.scope_eq s hs
    · exact Stmt.scope_eqAll s hs

end

theorem Func.scope_eq {f : Func} {outer : Scope} {n : Nat} :
    ∀ s ∈ (f.tree outer n).body.scopes, ∀ v ∈ s.declared, v.scope = s.id := by
  refine f.body.scope_eq (f.scope outer (n + 1)) fun v hv => ?_
  rw [declared_scope] at hv
  rw [id_scope]
  obtain ⟨p, -, rfl⟩ := List.mem_map.1 hv
  rfl

/-- The variables of a scope have its number. -/
theorem Prog.scope_eq {p : Prog} : ∀ s ∈ p.tree.scopes, ∀ v ∈ s.declared, v.scope = s.id := by
  intro s hs
  rcases List.mem_cons.1 hs with rfl | hs
  · intro v hv
    rw [Prog.tree, declared_scope] at hv
    rw [Prog.tree, id_scope]
    exact Decl.scope_eq hv
  · obtain ⟨f, hf, hs⟩ := List.mem_flatMap.1 hs
    obtain ⟨d, -, n, rfl⟩ := Func.exists_of_mem_trees hf
    exact Func.scope_eq s hs

mutual

theorem Stmt.cells_eq : ∀ (d : Stmt) (scope : Scope) (n : Nat),
    (d.tree scope n).cells = (d.tree scope n).scopes.flatMap Scope.declared
  | .assign .., scope, n => rfl
  | .read .., scope, n => rfl
  | .write .., scope, n => rfl
  | .ifThen _ _ _ _ body _, scope, n => body.cells_eq (scope.nested (n + 1)) (n + 1)
  | .ifElse _ _ _ _ body _ alternative _, scope, n => by
    rw [Stmt.tree, Statement.cells, Statement.scopes, List.flatMap_append, ← body.cells_eq,
      ← alternative.cells_eq]
    rfl
  | .loop _ _ _ _ body _, scope, n => body.cells_eq (scope.nested (n + 1)) (n + 1)
  | .return_ .., scope, n => rfl

theorem Body.cells_eq : ∀ (b : Body) (scope : Scope) (n : Nat),
    scope.declared ++ (b.tree scope n).cells = (b.tree scope n).scopes.flatMap Scope.declared
  | ⟨decls, stmts⟩, scope, n => by
    have hframe := Body.declared_tree ⟨decls, stmts⟩ scope n
    rw [Body.tree] at hframe ⊢
    rw [Block.cells, Block.scopes, List.flatMap_cons, hframe, List.append_assoc,
      Stmt.cellsAll_eq]

theorem Stmt.cellsAll_eq : ∀ (ds : List Stmt) (scope : Scope) (n : Nat),
    Statement.cellsAll (Stmt.trees scope n ds) =
      (Statement.scopesAll (Stmt.trees scope n ds)).flatMap Scope.declared
  | [], scope, n => rfl
  | d :: ds, scope, n => by
    rw [Stmt.trees, Statement.cellsAll, Statement.scopesAll, List.flatMap_append, d.cells_eq,
      Stmt.cellsAll_eq]

end

theorem Func.cells_eq (f : Func) (outer : Scope) (n : Nat) :
    (f.tree outer n).cells = (f.tree outer n).body.scopes.flatMap Scope.declared := by
  rw [Function.cells, f.id_tree]
  have hcells := f.body.cells_eq (f.scope outer (n + 1)) (n + 1)
  rw [Func.tree, ← hcells]
  simp [Param.declared, Function.comp_def]

theorem Func.cellsAll_eq (outer : Scope) : ∀ (fs : List Func) (n : Nat),
    (trees outer n fs).flatMap Function.cells =
      ((trees outer n fs).flatMap fun f => f.body.scopes).flatMap Scope.declared
  | [], n => rfl
  | f :: fs, n => by
    rw [trees, List.flatMap_cons, List.flatMap_cons, List.flatMap_append, f.cells_eq,
      Func.cellsAll_eq]

end Grammar

open Grammar

/-- A program whose scopes are numbered from 0 on, and hold its variables. -/
structure Program.WellScoped (p : Program) : Prop where
  map_id : ∃ n, p.scopes.map Scope.id = List.range n
  wellFormed : ∀ s ∈ p.scopes, s.WellFormed
  cells_eq : p.cells = p.scopes.flatMap Scope.declared

theorem Grammar.Prog.cells_eq (p : Prog) : p.tree.cells = p.tree.scopes.flatMap Scope.declared := by
  rw [Program.cells, Program.scopes, List.flatMap_cons, p.frame_tree]
  exact congrArg (p.tree.frame ++ ·) (Func.cellsAll_eq p.scope p.functions 0)

theorem Program.wellScoped_of_parse {tokens : List (Located Token)} {p : Program}
    (h : Program.parse tokens = .ok p) : p.WellScoped := by
  obtain ⟨d, -, hd, rfl⟩ := Program.parse_eq_ok_iff.1 h
  refine ⟨⟨_, d.map_id_scopes⟩, fun s hs => ⟨Prog.scope_eq s hs, ?_⟩, d.cells_eq⟩
  apply hd
  rw [← d.map_names_scopes]
  exact List.mem_map_of_mem hs

/-- Variables of scopes with different numbers have different keys. -/
theorem nodup_keys_flatMap {scopes : List Scope} (hids : (scopes.map Scope.id).Nodup)
    (hwf : ∀ s ∈ scopes, s.WellFormed) :
    ((scopes.flatMap Scope.declared).map Variable.key).Nodup := by
  induction scopes with
  | nil => exact List.nodup_nil
  | cons s scopes ih =>
    obtain ⟨hs, hscopes⟩ := List.forall_mem_cons.1 hwf
    rw [List.map_cons, List.nodup_cons] at hids
    rw [List.flatMap_cons, List.map_append, List.nodup_append]
    refine ⟨?_, ih hids.2 hscopes, ?_⟩
    · have hnames : (s.declared.map Variable.key).map Prod.snd = s.names := by
        rw [List.map_map]
        rfl
      exact List.Nodup.of_map _ (hnames ▸ hs.nodup)
    · rintro x hx y hy rfl
      obtain ⟨v, hv, rfl⟩ := List.mem_map.1 hx
      obtain ⟨v', hv', hkey⟩ := List.mem_map.1 hy
      obtain ⟨s', hs', hv'⟩ := List.mem_flatMap.1 hv'
      refine hids.1 (List.mem_map.2 ⟨s', hs', ?_⟩)
      rw [← (hscopes s' hs').scope_eq v' hv', ← hs.scope_eq v hv]
      exact congrArg Prod.fst hkey

/-- No two variables of a program have the same number of their scope and the same name. -/
theorem Program.WellScoped.nodup_keys {p : Program} (h : p.WellScoped) :
    (p.cells.map Variable.key).Nodup := by
  obtain ⟨n, hn⟩ := h.map_id
  rw [h.cells_eq]
  exact nodup_keys_flatMap (hn ▸ List.nodup_range) h.wellFormed

theorem Program.WellScoped.nodup_cells {p : Program} (h : p.WellScoped) : p.cells.Nodup :=
  h.nodup_keys.of_map

end LittleTiny
