import LittleTiny.Proofs.Regions

/-!
# Symbol tables and tokens

The symbol tables of a program can be read off its tokens without parsing them. A word FUNCTION, IF,
ELSE or WHILE opens the next scope, and since declarations stand at the start of a block, a variable
belongs to the scope that was opened last. `Survey` walks along the tokens, counts these words and
lists the variables; what it lists for a number is the table of the scope with that number
(`Program.tables_mirror_tokens`).
-/

namespace LittleTiny

open Grammar

/-- Whether the token opens a scope. -/
def Token.opens : Token → Bool
  | .keyword .function => true
  | .keyword .if_ => true
  | .keyword .else_ => true
  | .keyword .while_ => true
  | _ => false

/-! ## Walking along the tokens -/

/-- What the tokens read so far say about the next one. -/
inductive Survey.Mode where
  | idle
  /-- The type that a function returns comes next. -/
  | returns
  /-- Names of numbers come next. -/
  | numbers (of : NumClass)
  /-- The name of a text comes next. -/
  | text
  /-- The text of that name comes next. -/
  | content (name : Located String)

/-- The state of a walk: the mode, and the number of scopes that have been opened. -/
structure Survey where
  mode : Survey.Mode := .idle
  opened : Nat := 0

namespace Survey

/-- The state behind a reserved word. -/
def enter (s : Survey) : Keyword → Survey
  | .int => ⟨.numbers .int, s.opened⟩
  | .float => ⟨.numbers .float, s.opened⟩
  | .string => ⟨.text, s.opened⟩
  | .function => ⟨.returns, s.opened + 1⟩
  | .if_ => ⟨.idle, s.opened + 1⟩
  | .else_ => ⟨.idle, s.opened + 1⟩
  | .while_ => ⟨.idle, s.opened + 1⟩
  | _ => ⟨.idle, s.opened⟩

/-- The state behind a token. -/
def next (s : Survey) (t : Located Token) : Survey :=
  match s.mode, t.value with
  | .returns, _ => ⟨.idle, s.opened⟩
  | .text, .identifier name => ⟨.content ⟨name, t.location⟩, s.opened⟩
  | .content _, .operator .assign => s
  | .numbers _, .identifier _ => s
  | .numbers _, .operator .comma => s
  | _, .keyword k => s.enter k
  | _, _ => ⟨.idle, s.opened⟩

/-- The variable that the token completes, if there is one. -/
def gain (s : Survey) (t : Located Token) : List Variable :=
  match s.mode, t.value with
  | .numbers of, .identifier name => [⟨⟨name, t.location⟩, .number of, none, s.opened⟩]
  | .content name, .stringLiteral content => [⟨name, .string, some content, s.opened⟩]
  | _, _ => []

/-- The variables that tokens declare, in their order. -/
def declared (s : Survey) : Tokens → List Variable
  | [] => []
  | t :: ts => s.gain t ++ (s.next t).declared ts

/-- Walking along `ts` leads from `s` to `s'`, opens the scopes of `openers` and finds `vs`. -/
structure Walks (s : Survey) (ts openers : Tokens) (vs : List Variable) (s' : Survey) : Prop where
  filter_eq : ts.filter (fun t => t.value.opens) = openers
  declared_eq : s.declared ts = vs
  foldl_eq : ts.foldl next s = s'

variable {s s' s'' : Survey} {t : Located Token} {ts ts' openers openers' : Tokens} {v : Variable}
  {vs vs' : List Variable} {n : Nat}

theorem declared_append (s : Survey) (ts ts' : Tokens) :
    s.declared (ts ++ ts') = s.declared ts ++ (ts.foldl next s).declared ts' := by
  induction ts generalizing s with
  | nil => rfl
  | cons t ts ih =>
    rw [List.cons_append, declared, ih, declared, List.append_assoc]
    rfl

namespace Walks

theorem nil (s : Survey) : Walks s [] [] [] s := ⟨rfl, rfl, rfl⟩

theorem append (h : Walks s ts openers vs s') (h' : Walks s' ts' openers' vs' s'') :
    Walks s (ts ++ ts') (openers ++ openers') (vs ++ vs') s'' where
  filter_eq := by rw [List.filter_append, h.filter_eq, h'.filter_eq]
  declared_eq := by rw [declared_append, h.foldl_eq, h.declared_eq, h'.declared_eq]
  foldl_eq := by rw [List.foldl_append, h.foldl_eq, h'.foldl_eq]

/-- What a single token adds. -/
theorem step (h : Walks (s.next t) ts openers vs s') :
    Walks s (t :: ts) ([t].filter (fun t => t.value.opens) ++ openers) (s.gain t ++ vs) s' where
  filter_eq := by rw [← List.singleton_append, List.filter_append, h.filter_eq]
  declared_eq := by rw [declared, h.declared_eq]
  foldl_eq := h.foldl_eq

/-- A token that opens no scope and completes no variable. -/
theorem cons (ht : t.value.opens = false) (hgain : s.gain t = [])
    (h : Walks (s.next t) ts openers vs s') : Walks s (t :: ts) openers vs s' := by
  simpa [ht, hgain] using h.step

theorem opening (ht : t.value.opens = true) (hgain : s.gain t = [])
    (h : Walks (s.next t) ts openers vs s') : Walks s (t :: ts) (t :: openers) vs s' := by
  simpa [ht, hgain] using h.step

theorem gaining (ht : t.value.opens = false) (hgain : s.gain t = [v])
    (h : Walks (s.next t) ts openers vs s') : Walks s (t :: ts) openers (v :: vs) s' := by
  simpa [ht, hgain] using h.step

theorem snoc (h : Walks s ts openers vs s') (ht : t.value.opens = false) (hgain : s'.gain t = []) :
    Walks s (ts ++ [t]) openers vs (s'.next t) := by
  have hlast := h.append (cons ht hgain (nil (s'.next t)))
  rwa [List.append_nil, List.append_nil] at hlast

end Walks

end Survey

/-! ## Expressions -/

namespace Grammar

open Survey

/-- Tokens without a reserved word. -/
def Quiet (ts : Tokens) : Prop := ∀ t ∈ ts, (t.value.kind == .keyword) = false

section Quiet

variable {t : Located Token} {ts ts' : Tokens}

theorem Quiet.nil : Quiet [] := List.forall_mem_nil _

theorem Quiet.cons (ht : (t.value.kind == .keyword) = false) (h : Quiet ts) : Quiet (t :: ts) :=
  List.forall_mem_cons.2 ⟨ht, h⟩

theorem Quiet.append (h : Quiet ts) (h' : Quiet ts') : Quiet (ts ++ ts') :=
  List.forall_mem_append.2 ⟨h, h'⟩

theorem Quiet.snoc (h : Quiet ts) (ht : (t.value.kind == .keyword) = false) : Quiet (ts ++ [t]) :=
  h.append (.cons ht .nil)

theorem Quiet.walks (h : Quiet ts) (n : Nat) : Walks ⟨.idle, n⟩ ts [] [] ⟨.idle, n⟩ := by
  induction ts with
  | nil => exact .nil _
  | cons t ts ih =>
    obtain ⟨ht, hts⟩ := List.forall_mem_cons.1 h
    obtain ⟨value, location⟩ := t
    cases value with
    | keyword k => cases ht
    | _ => exact .cons rfl rfl (ih hts)

theorem Quiet.walks_append {n : Nat} {openers : Tokens} {vs : List Variable} {s : Survey}
    (h : Quiet ts) (h' : Walks ⟨.idle, n⟩ ts' openers vs s) :
    Walks ⟨.idle, n⟩ (ts ++ ts') openers vs s :=
  (h.walks n).append h'

end Quiet

mutual

theorem Sum.quiet : ∀ d : Sum, Quiet d.tokens
  | .mk first rest => by
    rw [Sum.tokens]
    exact first.quiet.append rest.quiet

theorem Terms.quiet : ∀ d : Terms, Quiet d.tokens
  | .nil => .nil
  | .cons op operand rest => by
    rw [Terms.tokens]
    exact .cons rfl (operand.quiet.append rest.quiet)

theorem Product.quiet : ∀ d : Product, Quiet d.tokens
  | .mk first rest => by
    rw [Product.tokens]
    exact first.quiet.append rest.quiet

theorem Factors.quiet : ∀ d : Factors, Quiet d.tokens
  | .nil => .nil
  | .cons op operand rest => by
    rw [Factors.tokens]
    exact .cons rfl (operand.quiet.append rest.quiet)

theorem Atom.quiet : ∀ d : Atom, Quiet d.tokens
  | .call function opening arguments closing => by
    rw [Atom.tokens]
    exact .cons rfl (.cons rfl (arguments.quiet.snoc rfl))
  | .paren opening inner closing => by
    rw [Atom.tokens]
    exact .cons rfl (inner.quiet.snoc rfl)
  | .var name => .cons rfl .nil
  | .int digits => .cons rfl .nil
  | .float digits => .cons rfl .nil

theorem Arguments.quiet : ∀ d : Arguments, Quiet d.tokens
  | .none => .nil
  | .some first rest => by
    rw [Arguments.tokens]
    exact first.quiet.append rest.quiet

theorem MoreArguments.quiet : ∀ d : MoreArguments, Quiet d.tokens
  | .nil => .nil
  | .cons comma argument rest => by
    rw [MoreArguments.tokens]
    exact .cons rfl (argument.quiet.append rest.quiet)

end

theorem quiet_head (opening : Location) (c : Cond) (closing : Location) :
    Quiet (headTokens opening c closing) :=
  .cons rfl ((c.lhs.quiet.append (.cons rfl c.rhs.quiet)).snoc rfl)

theorem quiet_list (opening : Location) (names : Separated (Located String))
    (closing semicolon : Location) : Quiet (listTokens opening names closing semicolon) := by
  have hrest : Quiet (Separated.restTokens (fun name => [identifier name]) names.rest) := by
    intro t ht
    obtain ⟨⟨comma, name⟩, -, ht⟩ := List.mem_flatMap.1 ht
    have hitem : Quiet [sign .comma comma, identifier name] := .cons rfl (.cons rfl .nil)
    exact hitem t ht
  have hnames : Quiet (names.tokens fun name => [identifier name]) := .cons rfl hrest
  exact .cons rfl (hnames.append (.cons rfl (.cons rfl .nil)))

/-! ## Declarations -/

section Declarations

variable {ts openers : Tokens} {vs : List Variable} {s : Survey} {n : Nat}

/-- Names of numbers are listed until a token ends them. -/
theorem walks_names {of : NumClass} (names : Separated (Located String))
    (h : Walks ⟨.numbers of, n⟩ ts openers vs s) :
    Walks ⟨.numbers of, n⟩ (names.tokens (fun name => [identifier name]) ++ ts) openers
      (names.toList.map (fun name => ⟨name, .number of, none, n⟩) ++ vs) s := by
  have hrest : ∀ rest : List (Location × Located String),
      Walks ⟨.numbers of, n⟩ (Separated.restTokens (fun name => [identifier name]) rest ++ ts)
        openers ((rest.map Prod.snd).map (fun name => ⟨name, .number of, none, n⟩) ++ vs) s := by
    intro rest
    induction rest with
    | nil => exact h
    | cons item rest ih => exact .cons rfl rfl (.gaining rfl rfl ih)
  exact .gaining rfl rfl (hrest names.rest)

theorem Decl.walks (d : Decl) (h : Walks ⟨.idle, n⟩ ts openers vs s) :
    Walks ⟨.idle, n⟩ (d.tokens ++ ts) openers (d.tree.declared n ++ vs) s := by
  cases d with
  | text string name becomes value semicolon =>
    exact .cons rfl rfl (.cons rfl rfl (.cons rfl rfl (.gaining rfl rfl (.cons rfl rfl h))))
  | numbers type names semicolon =>
    obtain ⟨of, location⟩ := type
    have hclose : Walks ⟨.numbers of, n⟩ (sign .semicolon semicolon :: ts) openers vs s :=
      .cons rfl rfl h
    have hnames := walks_names names hclose
    rw [Decl.tokens, List.cons_append, List.append_assoc]
    cases of with
    | int => exact .cons rfl rfl hnames
    | float => exact .cons rfl rfl hnames

theorem Decl.walksAll (ds : List Decl) (h : Walks ⟨.idle, n⟩ ts openers vs s) :
    Walks ⟨.idle, n⟩ (ds.flatMap Decl.tokens ++ ts) openers (Decl.declared n ds ++ vs) s := by
  induction ds with
  | nil => exact h
  | cons d ds ih =>
    rw [List.flatMap_cons, List.append_assoc, Decl.declared, List.flatMap_cons, List.append_assoc]
    exact d.walks ih

/-- The type of a parameter may follow the parameter before it. -/
theorem Param.walks {mode : Mode} (hmode : mode = .idle ∨ ∃ of, mode = .numbers of) (p : Param)
    (h : Walks ⟨.numbers p.type.value, n⟩ ts openers vs s) :
    Walks ⟨mode, n⟩ (p.tokens ++ ts) openers (p.tree.variable n :: vs) s := by
  obtain ⟨⟨type, location⟩, name⟩ := p
  rcases hmode with rfl | ⟨of, rfl⟩ <;> cases type <;>
    exact .cons rfl rfl (.gaining rfl rfl h)

theorem Params.walks (ps : Params) (closing : Location) (h : Walks ⟨.idle, n⟩ ts openers vs s) :
    Walks ⟨.idle, n⟩ (ps.tokens ++ sign .closeParen closing :: ts) openers
      (Param.declared n ps.toList ++ vs) s := by
  cases ps with
  | none => exact .cons rfl rfl h
  | some list =>
    have hrest : ∀ (rest : List (Location × Param)) (of : NumClass),
        Walks ⟨.numbers of, n⟩
          (Separated.restTokens Param.tokens rest ++ sign .closeParen closing :: ts) openers
          (Param.declared n (rest.map Prod.snd) ++ vs) s := by
      intro rest
      induction rest with
      | nil => exact fun of => .cons rfl rfl h
      | cons item rest ih =>
        intro of
        exact .cons rfl rfl (item.2.walks (.inr ⟨of, rfl⟩) (ih item.2.type.value))
    have hfirst := list.first.walks (.inl rfl) (hrest list.rest list.first.type.value)
    rw [Params.tokens, Separated.tokens, List.append_assoc]
    exact hfirst

end Declarations

/-! ## Openers -/

mutual

/-- The tokens that open the blocks inside a statement, each with its block. -/
def Stmt.openers (scope : Scope) (n : Nat) : Stmt → List (Located Token × Region)
  | .assign .. => []
  | .read .. => []
  | .write .. => []
  | .ifThen if_ _ _ _ body _ =>
    (word .if_ if_, .block (body.tree (scope.nested (n + 1)) (n + 1))) ::
      body.openers (scope.nested (n + 1)) (n + 1)
  | .ifElse if_ _ _ _ body else_ alternative _ =>
    (word .if_ if_, .block (body.tree (scope.nested (n + 1)) (n + 1))) ::
      (body.openers (scope.nested (n + 1)) (n + 1) ++
        (word .else_ else_, .block (alternative.tree (scope.nested (n + 1 + body.openings + 1))
          (n + 1 + body.openings + 1))) ::
        alternative.openers (scope.nested (n + 1 + body.openings + 1))
          (n + 1 + body.openings + 1))
  | .loop while_ _ _ _ body _ =>
    (word .while_ while_, .block (body.tree (scope.nested (n + 1)) (n + 1))) ::
      body.openers (scope.nested (n + 1)) (n + 1)
  | .return_ .. => []

/-- The tokens that open the blocks inside a block. -/
def Body.openers (scope : Scope) (n : Nat) : Body → List (Located Token × Region)
  | ⟨decls, stmts⟩ => Stmt.openersAll (scope.add (Decl.declared scope.id decls)) n stmts

/-- The tokens that open the blocks inside statements in a row. -/
def Stmt.openersAll (scope : Scope) (n : Nat) : List Stmt → List (Located Token × Region)
  | [] => []
  | s :: ss => s.openers scope n ++ Stmt.openersAll scope (n + s.openings) ss

end

/-- The tokens that open the scopes of a function, of which the first is that of the function. -/
def Func.openers (outer : Scope) (n : Nat) (f : Func) : List (Located Token × Region) :=
  (word .function f.function, .function (f.tree outer n)) ::
    f.body.openers (f.scope outer (n + 1)) (n + 1)

/-- The tokens that open the scopes of functions in a row. -/
def Func.openersAll (outer : Scope) (n : Nat) : List Func → List (Located Token × Region)
  | [] => []
  | f :: fs => f.openers outer n ++ openersAll outer (n + f.openings) fs

/-- The tokens that open the regions inside a program, each with its region. -/
def Prog.openers (d : Prog) : List (Located Token × Region) := Func.openersAll d.scope 0 d.functions

-- The declarations of a block stand before its statements, so they are met while the block is still
-- the one that was opened last, and the number of scopes opened is its own number.
mutual

theorem Stmt.walks : ∀ (d : Stmt) (scope : Scope) (n : Nat),
    Walks ⟨.idle, n⟩ d.tokens ((d.openers scope n).map Prod.fst) (d.tree scope n).cells
      ⟨.idle, n + d.openings⟩
  | .assign target becomes value semicolon, scope, n => by
    rw [Stmt.tokens]
    exact .cons rfl rfl (.cons rfl rfl ((value.quiet.walks n).snoc rfl rfl))
  | .read start opening names closing semicolon, scope, n => by
    rw [Stmt.tokens]
    exact .cons rfl rfl ((quiet_list opening names closing semicolon).walks n)
  | .write start opening names closing semicolon, scope, n => by
    rw [Stmt.tokens]
    exact .cons rfl rfl ((quiet_list opening names closing semicolon).walks n)
  | .ifThen if_ opening condition closing body endIf, scope, n => by
    have hbody := body.walks (scope.nested (n + 1)) (n + 1) rfl
    rw [Stmt.tokens, Stmt.openings, ← Nat.add_assoc]
    have hinside := (quiet_head opening condition closing).walks_append hbody
    exact .opening rfl rfl (hinside.snoc rfl rfl)
  | .ifElse if_ opening condition closing body else_ alternative endIf, scope, n => by
    have hbody := body.walks (scope.nested (n + 1)) (n + 1) rfl
    have halternative := alternative.walks (scope.nested (n + 1 + body.openings + 1))
      (n + 1 + body.openings + 1) rfl
    have hplace : n + (1 + body.openings + (1 + alternative.openings)) =
        n + 1 + body.openings + 1 + alternative.openings := by omega
    rw [Stmt.tokens, Stmt.openings, hplace, Stmt.openers, List.map_cons, List.map_append]
    have hinside := (quiet_head opening condition closing).walks_append hbody
    exact .opening rfl rfl (hinside.append (.opening rfl rfl (halternative.snoc rfl rfl)))
  | .loop while_ opening condition closing body endWhile, scope, n => by
    have hbody := body.walks (scope.nested (n + 1)) (n + 1) rfl
    rw [Stmt.tokens, Stmt.openings, ← Nat.add_assoc]
    have hinside := (quiet_head opening condition closing).walks_append hbody
    exact .opening rfl rfl (hinside.snoc rfl rfl)
  | .return_ start value semicolon, scope, n => by
    rw [Stmt.tokens]
    exact .cons rfl rfl ((value.quiet.walks n).snoc rfl rfl)

theorem Body.walks : ∀ (b : Body) (scope : Scope) (n : Nat), scope.id = n →
    Walks ⟨.idle, n⟩ b.tokens ((b.openers scope n).map Prod.fst) (b.tree scope n).cells
      ⟨.idle, n + b.openings⟩
  | ⟨decls, stmts⟩, scope, n, hid => by
    have hstmts := Stmt.walksAll stmts (scope.add (Decl.declared scope.id decls)) n
    have hframe : (Body.tree scope n ⟨decls, stmts⟩).frame = Decl.declared n decls := by
      rw [Block.frame, Body.id_tree, Body.tree, List.flatMap_map, ← hid]
      rfl
    rw [Body.tokens, Body.tree, Block.cells]
    rw [Body.tree] at hframe
    rw [hframe]
    exact Decl.walksAll decls hstmts

theorem Stmt.walksAll : ∀ (ds : List Stmt) (scope : Scope) (n : Nat),
    Walks ⟨.idle, n⟩ (Stmt.tokensAll ds) ((Stmt.openersAll scope n ds).map Prod.fst)
      (Statement.cellsAll (Stmt.trees scope n ds)) ⟨.idle, n + Stmt.openingsAll ds⟩
  | [], scope, n => .nil _
  | d :: ds, scope, n => by
    rw [Stmt.tokensAll, Stmt.openersAll, List.map_append, Stmt.trees, Statement.cellsAll,
      Stmt.openingsAll, ← Nat.add_assoc]
    exact (d.walks scope n).append (Stmt.walksAll ds scope (n + d.openings))

end

theorem Func.walks (f : Func) (outer : Scope) (n : Nat) :
    Walks ⟨.idle, n⟩ f.tokens ((f.openers outer n).map Prod.fst) (f.tree outer n).cells
      ⟨.idle, n + f.openings⟩ := by
  have hparameters : (f.tree outer n).parameters.map (Parameter.variable (n + 1)) =
      Param.declared (n + 1) f.parameters.toList := List.map_map
  have hbody := (f.body.walks (f.scope outer (n + 1)) (n + 1) (f.id_scope ..)).snoc
    (t := word .end_ f.end_) rfl rfl
  have hreturns : (Token.keyword f.returns.value.keyword).opens = false := by
    cases f.returns.value with
    | number of => cases of <;> rfl
    | void => rfl
  rw [Function.cells, f.id_tree, hparameters, Func.openings, ← Nat.add_assoc]
  exact .opening rfl rfl (.cons hreturns rfl (.cons rfl rfl (.cons rfl rfl
    (f.parameters.walks f.closing (.cons rfl rfl hbody)))))

theorem Func.walksAll (outer : Scope) : ∀ (fs : List Func) (n : Nat),
    Walks ⟨.idle, n⟩ (fs.flatMap Func.tokens) ((Func.openersAll outer n fs).map Prod.fst)
      ((trees outer n fs).flatMap Function.cells) ⟨.idle, n + openingsAll fs⟩
  | [], n => .nil _
  | f :: fs, n => by
    rw [List.flatMap_cons, openersAll, List.map_append, trees, List.flatMap_cons, openingsAll,
      ← Nat.add_assoc]
    exact (f.walks outer n).append (walksAll outer fs (n + f.openings))

/-- Walking along the tokens of a program finds its variables, and the tokens that open its
regions. -/
theorem Prog.walks (d : Prog) :
    Walks {} d.tokens (d.openers.map Prod.fst) d.tree.cells
      ⟨.idle, 0 + Func.openingsAll d.functions⟩ := by
  have hframe : d.tree.frame = Decl.declared 0 d.globals := d.frame_tree ▸ d.declared_scope
  have hfunctions := (Func.walksAll d.scope d.functions 0).snoc (t := word .end_ d.end_) rfl rfl
  rw [Program.cells, hframe, Prog.tokens, List.append_assoc]
  exact .cons rfl rfl (.cons rfl rfl (.cons rfl rfl (Decl.walksAll d.globals hfunctions)))

/-! ## Regions -/

mutual

theorem Stmt.map_snd_openers : ∀ (d : Stmt) (scope : Scope) (n : Nat),
    (d.openers scope n).map Prod.snd = (d.tree scope n).inner.map .block
  | .assign .., scope, n => rfl
  | .read .., scope, n => rfl
  | .write .., scope, n => rfl
  | .ifThen _ _ _ _ body _, scope, n => by
    rw [Stmt.openers, List.map_cons, body.map_snd_openers, Stmt.tree, Statement.inner,
      Block.inner_eq, List.map_cons]
  | .ifElse _ _ _ _ body _ alternative _, scope, n => by
    rw [Stmt.openers, List.map_cons, List.map_append, List.map_cons, body.map_snd_openers,
      alternative.map_snd_openers, Stmt.tree, Statement.inner, Block.inner_eq, Block.inner_eq,
      List.map_append, List.map_cons, List.map_cons, List.cons_append]
  | .loop _ _ _ _ body _, scope, n => by
    rw [Stmt.openers, List.map_cons, body.map_snd_openers, Stmt.tree, Statement.inner,
      Block.inner_eq, List.map_cons]
  | .return_ .., scope, n => rfl

theorem Body.map_snd_openers : ∀ (b : Body) (scope : Scope) (n : Nat),
    (b.openers scope n).map Prod.snd =
      (Statement.innerAll (b.tree scope n).statements).map .block
  | ⟨_, stmts⟩, _, n => Stmt.map_snd_openersAll stmts _ n

theorem Stmt.map_snd_openersAll : ∀ (ds : List Stmt) (scope : Scope) (n : Nat),
    (Stmt.openersAll scope n ds).map Prod.snd =
      (Statement.innerAll (Stmt.trees scope n ds)).map .block
  | [], scope, n => rfl
  | d :: ds, scope, n => by
    rw [Stmt.openersAll, List.map_append, d.map_snd_openers, Stmt.map_snd_openersAll, Stmt.trees,
      Statement.innerAll, List.map_append]

end

theorem Func.map_snd_openersAll (outer : Scope) : ∀ (fs : List Func) (n : Nat),
    (openersAll outer n fs).map Prod.snd = (trees outer n fs).flatMap fun f =>
      .function f :: (Statement.innerAll f.body.statements).map .block
  | [], n => rfl
  | f :: fs, n => by
    rw [openersAll, List.map_append, map_snd_openersAll, trees, List.flatMap_cons, Func.openers,
      List.map_cons, f.body.map_snd_openers]
    rfl

/-- Every region but the outermost has a token that opens it. -/
theorem Prog.regions_eq (d : Prog) :
    d.tree.regions = .program d.tree :: d.openers.map Prod.snd :=
  congrArg (Region.program d.tree :: ·) (Func.map_snd_openersAll d.scope d.functions 0).symm

mutual

theorem Stmt.declared_eq_frame : ∀ (d : Stmt) (scope : Scope) (n : Nat),
    ∀ b ∈ (d.tree scope n).inner, b.scope.declared = b.frame
  | .assign .., scope, n => List.forall_mem_nil _
  | .read .., scope, n => List.forall_mem_nil _
  | .write .., scope, n => List.forall_mem_nil _
  | .ifThen _ _ _ _ body _, scope, n => body.declared_eq_frame scope (n + 1)
  | .ifElse _ _ _ _ body _ alternative _, scope, n => by
    rw [Stmt.tree, Statement.inner, List.forall_mem_append]
    exact ⟨body.declared_eq_frame scope _, alternative.declared_eq_frame scope _⟩
  | .loop _ _ _ _ body _, scope, n => body.declared_eq_frame scope (n + 1)
  | .return_ .., scope, n => List.forall_mem_nil _

theorem Body.declared_eq_frame : ∀ (b : Body) (scope : Scope) (n : Nat),
    ∀ b' ∈ (b.tree (scope.nested n) n).inner, b'.scope.declared = b'.frame
  | ⟨decls, stmts⟩, scope, n => by
    rw [Block.inner_eq, List.forall_mem_cons]
    exact ⟨Body.declared_nested _ _ _, Stmt.declared_eq_frameAll stmts _ n⟩

theorem Stmt.declared_eq_frameAll : ∀ (ds : List Stmt) (scope : Scope) (n : Nat),
    ∀ b ∈ Statement.innerAll (Stmt.trees scope n ds), b.scope.declared = b.frame
  | [], scope, n => List.forall_mem_nil _
  | d :: ds, scope, n => by
    rw [Stmt.trees, Statement.innerAll, List.forall_mem_append]
    exact ⟨d.declared_eq_frame scope n, Stmt.declared_eq_frameAll ds scope (n + d.openings)⟩

end

/-- The scope of a region declares what the declarations of the region say. -/
theorem Prog.declared_eq_frame (d : Prog) : ∀ r ∈ d.tree.regions, r.scope.declared = r.frame := by
  intro r hr
  rcases List.mem_cons.1 hr with rfl | hr
  · exact d.frame_tree
  · obtain ⟨f, hf, hr⟩ := List.mem_flatMap.1 hr
    obtain ⟨f, -, n, rfl⟩ := Func.exists_of_mem_trees hf
    rcases List.mem_cons.1 hr with rfl | hr
    · exact f.frame_tree _ _
    · obtain ⟨b, hb, rfl⟩ := List.mem_map.1 hr
      rw [Func.tree, f.body.statements_tree] at hb
      exact Stmt.declared_eq_frameAll _ _ _ b hb

/-- The regions inside a program have the numbers from 1 on, in the order of their tokens. -/
theorem Prog.map_id_openers (d : Prog) :
    d.openers.map (fun o => o.2.scope.id) =
      List.range' 1 (d.tokens.countP fun t => t.value.opens) := by
  have hids := d.map_id_scopes
  rw [← d.tree.map_scope_regions, d.regions_eq, List.range_eq_range', Nat.add_comm,
    List.range'_succ, List.map_cons, List.map_cons, List.map_map, List.map_map] at hids
  have htail : d.openers.map (fun o => o.2.scope.id) =
      List.range' 1 (Func.openingsAll d.functions) := (List.cons.inj hids).2
  have hlength : d.openers.length = Func.openingsAll d.functions := by
    simpa using congrArg List.length htail
  rw [htail, List.countP_eq_length_filter, d.walks.filter_eq, List.length_map, hlength]

end Grammar

/-- Among the variables of scopes with different numbers, those with one number are the variables of
one scope. -/
theorem filter_flatMap_declared {scopes : List Scope} {s : Scope}
    (hids : (scopes.map Scope.id).Nodup) (hwf : ∀ s ∈ scopes, s.WellFormed) (hs : s ∈ scopes) :
    (scopes.flatMap Scope.declared).filter (fun v => v.scope = s.id) = s.declared := by
  have hself : ∀ s' : Scope, s'.WellFormed → s'.id = s.id →
      s'.declared.filter (fun v => v.scope = s.id) = s'.declared := by
    intro s' hwf' hid
    refine List.filter_eq_self.2 fun v hv => decide_eq_true ?_
    rw [hwf'.scope_eq v hv, hid]
  have hother : ∀ s' : Scope, s'.WellFormed → s'.id ≠ s.id →
      s'.declared.filter (fun v => v.scope = s.id) = [] := by
    intro s' hwf' hid
    refine List.filter_eq_nil_iff.2 fun v hv => ?_
    rw [hwf'.scope_eq v hv]
    simpa using hid
  induction scopes with
  | nil => cases hs
  | cons s' scopes ih =>
    obtain ⟨hwf', hscopes⟩ := List.forall_mem_cons.1 hwf
    rw [List.map_cons, List.nodup_cons] at hids
    rw [List.flatMap_cons, List.filter_append]
    rcases List.mem_cons.1 hs with rfl | hs
    · have hrest : (scopes.flatMap Scope.declared).filter (fun v => v.scope = s.id) = [] := by
        rw [List.filter_flatMap, List.flatMap_eq_nil_iff]
        intro s' hs'
        refine hother s' (hscopes s' hs') fun hid => hids.1 ?_
        rw [← hid]
        exact List.mem_map_of_mem hs'
      rw [hself s hwf' rfl, hrest, List.append_nil]
    · have hid : s'.id ≠ s.id := fun hid => hids.1 (hid ▸ List.mem_map_of_mem hs)
      rw [hother s' hwf' hid, ih hids.2 hscopes hs, List.nil_append]

/-- The symbol tables of a program mirror the tokens that it was read from. -/
structure Program.Tabulated (p : Program) (tokens : Tokens) : Prop where
  outermost : p.scope.id = 0
  /-- The tokens that open scopes, each with the region that it opens. -/
  numbered : ∃ d : Prog, d.tokens = tokens ∧ d.tree = p ∧
    p.regions = .program p :: d.openers.map Prod.snd ∧
    d.openers.map Prod.fst = tokens.filter (fun t => t.value.opens) ∧
    d.openers.map (fun o => o.2.scope.id) = List.range' 1 (tokens.countP fun t => t.value.opens)
  declared : ∀ r ∈ p.regions, r.scope.declared = r.frame ∧
    r.scope.declared = (Survey.declared {} tokens).filter (fun v => v.scope = r.scope.id)

/-- The outermost scope has the number 0, and the tokens that open scopes number them from 1 on.
The table of a scope holds the variables of its region, in the order, with the types, the values and
the places that they have in the tokens. -/
theorem Program.tables_mirror_tokens {tokens : List (Located Token)} {p : Program}
    (hp : Program.parse tokens = .ok p) : p.Tabulated tokens := by
  have hscoped := wellScoped_of_parse hp
  obtain ⟨d, rfl, -, rfl⟩ := parse_eq_ok_iff.1 hp
  refine ⟨d.id_scope, ⟨d, rfl, rfl, d.regions_eq, d.walks.filter_eq.symm, d.map_id_openers⟩, ?_⟩
  intro r hr
  refine ⟨d.declared_eq_frame r hr, ?_⟩
  obtain ⟨n, hn⟩ := hscoped.map_id
  have hmem : r.scope ∈ d.tree.scopes := by
    rw [← d.tree.map_scope_regions]
    exact List.mem_map_of_mem hr
  rw [d.walks.declared_eq, hscoped.cells_eq,
    filter_flatMap_declared (hn ▸ List.nodup_range) hscoped.wellFormed hmem]

/-! ## A program with a function that has blocks -/

/-- The condition `a < b`. -/
private def aLessB : Cond := ⟨.var "a", unplaced .less, .var "b"⟩

/-- `PROGRAM p BEGIN STRING s := "t"; FUNCTION INT f(INT a, FLOAT b) BEGIN FLOAT c; WHILE (a < b)
INT a; IF (a < b) ELSE INT d, e; ENDIF ENDWHILE END END` -/
def loopWithElse : Prog where
  program := {}
  name := unplaced "p"
  begin_ := {}
  globals := [.text {} (unplaced "s") {} (unplaced "t") {}]
  functions := [{
    function := {}
    returns := unplaced (.number .int)
    name := unplaced "f"
    opening := {}
    parameters := .some ⟨⟨unplaced .int, unplaced "a"⟩, [({}, ⟨unplaced .float, unplaced "b"⟩)]⟩
    closing := {}
    begin_ := {}
    body := ⟨[.numbers (unplaced .float) ⟨unplaced "c", []⟩ {}],
      [.loop {} {} aLessB {}
        ⟨[.numbers (unplaced .int) ⟨unplaced "a", []⟩ {}],
          [.ifElse {} {} aLessB {} ⟨[], []⟩ {}
            ⟨[.numbers (unplaced .int) ⟨unplaced "d", [({}, unplaced "e")]⟩ {}], []⟩ {}]⟩ {}]⟩
    end_ := {} }]
  end_ := {}

theorem Program.tables_mirror_tokens_loopWithElse :
    Program.parse loopWithElse.tokens = .ok loopWithElse.tree ∧
      loopWithElse.tree.regions.map (fun r => (r.scope.id, r.scope.names)) =
        [(0, ["s"]), (1, ["a", "b", "c"]), (2, ["a"]), (3, []), (4, ["d", "e"])] ∧
      loopWithElse.tree.Tabulated loopWithElse.tokens := by
  have hp : Program.parse loopWithElse.tokens = .ok loopWithElse.tree :=
    Program.parse_eq_ok_iff.2 ⟨loopWithElse, rfl, by decide, rfl⟩
  exact ⟨hp, rfl, Program.tables_mirror_tokens hp⟩

end LittleTiny
