import LittleTiny.Proofs.Nodes
import LittleTiny.Proofs.Unparsing.Expression

/-!
# Reading programs that have been unparsed

`Program.unparse` writes a program tree as tokens, with parentheses only where they are needed, and
`Program.Writes` allows more of them. In both cases the reader makes the tree again, whatever the
locations of the tokens are. Both are said by the nodes of the program, so that they differ in how
an expression is written only.
-/

namespace LittleTiny

open Grammar

namespace Node

/-- The tokens of a node. -/
def unparse : Node → List Token
  | plain t => [t]
  | kept t => [t.value]
  | expr e => e.unparse 0

/-- The tokens, wherever they are, write the node. -/
def Writes : Node → Tokens → Prop
  | plain t, ts => ∃ place, ts = [⟨t, place⟩]
  | kept t, ts => ∃ place, ts = [⟨t.value, place⟩]
  | expr e, ts => e.Writes 0 ts

/-- The tokens, wherever they are, write the nodes. -/
inductive Written : List Node → Tokens → Prop
  | nil : Written [] []
  | cons {x : Node} {xs : List Node} {ts ts' : Tokens} (h : x.Writes ts) (hs : Written xs ts') :
      Written (x :: xs) (ts ++ ts')

end Node

namespace Program

/-- The tokens of a program, with parentheses only where they are needed. -/
def unparse (p : Program) : List Token := p.nodes.flatMap Node.unparse

/-- The tokens, wherever they are, write the program. Parentheses may stand around any
expression. -/
def Writes (p : Program) (tokens : Tokens) : Prop := Node.Written p.nodes tokens

end Program

/-! ## Taking nodes apart -/

namespace Node

variable {xs ys : List Node} {ts : Tokens}

@[simp]
theorem written_nil_iff : Written [] ts ↔ ts = [] := by
  constructor
  · rintro ⟨⟩
    rfl
  · rintro rfl
    exact .nil

theorem written_cons_iff {x : Node} : Written (x :: xs) ts ↔
    ∃ ts₁ ts₂, ts = ts₁ ++ ts₂ ∧ x.Writes ts₁ ∧ Written xs ts₂ := by
  constructor
  · rintro ⟨⟩
    exact ⟨_, _, rfl, ‹_›, ‹_›⟩
  · rintro ⟨ts₁, ts₂, rfl, h, hs⟩
    exact .cons h hs

theorem written_token_iff {x : Node} {t : Token}
    (hx : ∀ {ts}, x.Writes ts ↔ ∃ place, ts = [⟨t, place⟩]) :
    Written (x :: xs) ts ↔ ∃ place ts', ts = ⟨t, place⟩ :: ts' ∧ Written xs ts' := by
  rw [written_cons_iff]
  constructor
  · rintro ⟨ts₁, ts₂, rfl, h, hs⟩
    obtain ⟨place, rfl⟩ := hx.1 h
    exact ⟨place, ts₂, rfl, hs⟩
  · rintro ⟨place, ts', rfl, hs⟩
    exact ⟨[⟨t, place⟩], ts', rfl, hx.2 ⟨place, rfl⟩, hs⟩

@[simp]
theorem written_plain_iff {t : Token} :
    Written (plain t :: xs) ts ↔ ∃ place ts', ts = ⟨t, place⟩ :: ts' ∧ Written xs ts' :=
  written_token_iff .rfl

@[simp]
theorem written_kept_iff {t : Located Token} :
    Written (kept t :: xs) ts ↔ ∃ place ts', ts = ⟨t.value, place⟩ :: ts' ∧ Written xs ts' :=
  written_token_iff .rfl

@[simp]
theorem written_expr_iff {e : Expr} : Written (expr e :: xs) ts ↔
    ∃ ts₁ ts₂, ts = ts₁ ++ ts₂ ∧ e.Writes 0 ts₁ ∧ Written xs ts₂ :=
  written_cons_iff

@[simp]
theorem written_append_iff : Written (xs ++ ys) ts ↔
    ∃ ts₁ ts₂, ts = ts₁ ++ ts₂ ∧ Written xs ts₁ ∧ Written ys ts₂ := by
  induction xs generalizing ts with
  | nil => simp
  | cons x xs ih =>
    rw [List.cons_append, written_cons_iff]
    constructor
    · rintro ⟨first, rest, rfl, hx, hrest⟩
      obtain ⟨ts₁, ts₂, rfl, h₁, h₂⟩ := ih.1 hrest
      exact ⟨first ++ ts₁, ts₂, (List.append_assoc ..).symm, .cons hx h₁, h₂⟩
    · rintro ⟨_, ts₂, rfl, h₁, h₂⟩
      obtain ⟨first, ts₁, rfl, hx, h₁⟩ := written_cons_iff.1 h₁
      exact ⟨first, ts₁ ++ ts₂, List.append_assoc .., hx, ih.2 ⟨ts₁, ts₂, rfl, h₁, h₂⟩⟩

theorem writes_of_unparse {x : Node} (h : ts.map Located.value = x.unparse) : x.Writes ts := by
  cases x with
  | plain t =>
    obtain ⟨⟨_, place⟩, rfl, rfl⟩ := List.map_eq_singleton_iff.1 h
    exact ⟨place, rfl⟩
  | kept t =>
    obtain ⟨⟨_, place⟩, rfl, hvalue⟩ := List.map_eq_singleton_iff.1 h
    obtain rfl : _ = t.value := hvalue
    exact ⟨place, rfl⟩
  | expr e => exact Expr.writes_of_unparse 0 e ts h

theorem written_of_unparse (h : ts.map Located.value = xs.flatMap unparse) : Written xs ts := by
  induction xs generalizing ts with
  | nil => simpa using h
  | cons x xs ih =>
    obtain ⟨first, rest, rfl, hfirst, hrest⟩ := List.map_eq_append_iff.1 h
    exact .cons (writes_of_unparse hfirst) (ih hrest)

theorem Writes.length_le {x : Node} (h : x.Writes ts) : x.unparse.length ≤ ts.length := by
  cases x with
  | plain t =>
    obtain ⟨place, rfl⟩ := h
    exact Nat.le_refl 1
  | kept t =>
    obtain ⟨place, rfl⟩ := h
    exact Nat.le_refl 1
  | expr e => exact Expr.Writes.length_le h

theorem Written.length_le (h : Written xs ts) : (xs.flatMap unparse).length ≤ ts.length := by
  induction h with
  | nil => simp
  | cons h hs ih =>
    rw [List.flatMap_cons, List.length_append, List.length_append]
    exact Nat.add_le_add h.length_le ih

section

variable {α β γ : Type} {write : α → List Node} {tokens : β → Tokens} {f : β → γ} {g : α → γ}

/-- Derivations of the items of a list make one of the list. -/
theorem Written.exists_list : ∀ {as : List α} {ts : Tokens},
    (∀ a ∈ as, ∀ ts, Written (write a) ts → ∃ d, tokens d = ts ∧ f d = g a) →
    Written (as.flatMap write) ts → ∃ ds : List β, ds.flatMap tokens = ts ∧ ds.map f = as.map g
  | [], ts, _, h => ⟨[], (written_nil_iff.1 h).symm, rfl⟩
  | a :: as, ts, hd, h => by
    obtain ⟨first, rest, rfl, ha, has⟩ := written_append_iff.1 h
    obtain ⟨d, rfl, hfd⟩ := hd a (by simp) first ha
    obtain ⟨ds, rfl, hfds⟩ := Written.exists_list (fun a' h' => hd a' (by simp [h'])) has
    exact ⟨d :: ds, rfl, by simp [hfd, hfds]⟩

theorem Written.exists_separated {as : List α} (hne : as ≠ [])
    (hd : ∀ a ts, Written (write a) ts → ∃ d, tokens d = ts ∧ f d = g a)
    (h : Written (commas write as) ts) :
    ∃ x : Separated β, x.tokens tokens = ts ∧ x.toList.map f = as.map g := by
  cases as with
  | nil => exact absurd rfl hne
  | cons a as =>
    obtain ⟨first, rest, rfl, ha, has⟩ := written_append_iff.1 h
    obtain ⟨d, rfl, hfd⟩ := hd a first ha
    have hcomma : ∀ a ∈ as, ∀ ts, Written (sign .comma :: write a) ts → ∃ x : Location × β,
        Grammar.sign .comma x.1 :: tokens x.2 = ts ∧ f x.2 = g a := by
      intro a _ ts hcomma
      obtain ⟨comma, ts', rfl, ha⟩ := written_plain_iff.1 hcomma
      obtain ⟨d, rfl, hfd⟩ := hd a ts' ha
      exact ⟨(comma, d), rfl, hfd⟩
    obtain ⟨ds, rfl, hfds⟩ := Written.exists_list hcomma has
    exact ⟨⟨d, ds⟩, rfl, by simpa [Separated.toList, hfd, Function.comp_def] using hfds⟩

end

theorem Written.exists_names {names : List (Located String)} (hne : names ≠ [])
    (h : Written (commas (fun n => [name n]) names) ts) :
    ∃ x : Separated (Located String), x.tokens (fun n => [identifier n]) = ts ∧
      x.toList.map Located.erase = names.map Located.erase := by
  refine h.exists_separated hne ?_
  intro n ts h
  simp only [written_kept_iff, written_nil_iff] at h
  obtain ⟨place, _, rfl, rfl⟩ := h
  exact ⟨⟨n.value, place⟩, rfl, rfl⟩

end Node

/-! ## Derivations of written programs -/

/-- Numbers of one type are declared for at least one name. -/
def Declaration.Named : Declaration → Prop
  | text .. => True
  | numbers _ names => names ≠ []

mutual

/-- Every declaration, READ and WRITE inside names something. -/
def Statement.Named : Statement → Prop
  | .assign .. => True
  | .read names => names ≠ []
  | .write names => names ≠ []
  | .ifThen _ body => body.Named
  | .ifElse _ body alternative => body.Named ∧ alternative.Named
  | .loop _ body => body.Named
  | .return_ _ => True

/-- Every declaration, READ and WRITE of the block names something. -/
def Block.Named : Block → Prop
  | ⟨declarations, statements, _⟩ =>
    (∀ d ∈ declarations, d.Named) ∧ Statement.NamedAll statements

/-- Every declaration, READ and WRITE inside the statements names something. -/
def Statement.NamedAll : List Statement → Prop
  | [] => True
  | s :: ss => s.Named ∧ Statement.NamedAll ss

end

theorem Declaration.exists_decl {d : Declaration} (hd : d.Named) {ts : Tokens}
    (h : Node.Written d.nodes ts) : ∃ x : Decl, x.tokens = ts ∧ x.tree.erase = d.erase := by
  cases d with
  | text name value =>
    simp only [nodes, Node.written_plain_iff, Node.written_kept_iff, Node.written_nil_iff] at h
    obtain ⟨string, _, rfl, place, _, rfl, becomes, _, rfl, place', _, rfl, semicolon, _, rfl,
      rfl⟩ := h
    exact ⟨.text string ⟨name.value, place⟩ becomes ⟨value.value, place'⟩ semicolon, rfl, rfl⟩
  | numbers type names =>
    simp only [nodes, Node.written_plain_iff, Node.written_kept_iff, Node.written_append_iff,
      Node.written_nil_iff] at h
    obtain ⟨place, _, rfl, _, _, rfl, hnames, semicolon, _, rfl, rfl⟩ := h
    obtain ⟨list, rfl, hlist⟩ := hnames.exists_names hd
    refine ⟨.numbers ⟨type.value, place⟩ list semicolon, rfl, ?_⟩
    simp only [Decl.tree, erase, hlist]
    rfl

theorem Condition.exists_cond {c : Condition} {ts : Tokens} (h : Node.Written c.nodes ts) :
    ∃ opening x closing, headTokens opening x closing = ts ∧ x.tree.erase = c.erase := by
  simp only [nodes, Node.written_plain_iff, Node.written_expr_iff, Node.written_nil_iff] at h
  obtain ⟨opening, _, rfl, _, _, rfl, hl, place, _, rfl, _, _, rfl, hr, closing, _, rfl, rfl⟩ := h
  obtain ⟨lhs, rfl, hlhs⟩ := hl.derives
  obtain ⟨rhs, rfl, hrhs⟩ := hr.derives
  refine ⟨opening, ⟨lhs, ⟨c.op, place⟩, rhs⟩, closing, ?_, ?_⟩
  · simp [headTokens, Cond.tokens]
  · simp only [Cond.tree, erase, hlhs, hrhs]

theorem Statement.exists_list {names : List (Located String)} (hne : names ≠ []) {ts : Tokens}
    (h : Node.Written (nameNodes names) ts) :
    ∃ opening list closing semicolon, listTokens opening list closing semicolon = ts ∧
      list.toList.map Located.erase = names.map Located.erase := by
  simp only [nameNodes, Node.written_plain_iff, Node.written_append_iff,
    Node.written_nil_iff] at h
  obtain ⟨opening, _, rfl, _, _, rfl, hnames, closing, _, rfl, semicolon, _, rfl, rfl⟩ := h
  obtain ⟨list, rfl, hlist⟩ := hnames.exists_names hne
  exact ⟨opening, list, closing, semicolon, rfl, hlist⟩

mutual

theorem Statement.exists_stmt : ∀ (s : Statement) {ts : Tokens}, s.Named →
    Node.Written s.nodes ts → ∃ d : Stmt, d.tokens = ts ∧
      ∀ scope n, (d.tree scope n).outline Scope.forget = s.outline Scope.forget
  | .assign target value, ts, _, h => by
    simp only [Statement.nodes, Node.written_plain_iff, Node.written_kept_iff,
      Node.written_expr_iff, Node.written_nil_iff] at h
    obtain ⟨place, _, rfl, becomes, _, rfl, _, _, rfl, hvalue, semicolon, _, rfl, rfl⟩ := h
    obtain ⟨d, rfl, hd⟩ := hvalue.derives
    refine ⟨.assign ⟨target.value, place⟩ becomes d semicolon, rfl, fun scope n => ?_⟩
    simp only [Stmt.tree, Statement.outline, hd]
    rfl
  | .read names, ts, hnamed, h => by
    simp only [Statement.nodes, Node.written_plain_iff] at h
    obtain ⟨place, _, rfl, hnames⟩ := h
    obtain ⟨opening, list, closing, semicolon, rfl, hlist⟩ := Statement.exists_list hnamed hnames
    refine ⟨.read place opening list closing semicolon, rfl, fun scope n => ?_⟩
    simp only [Stmt.tree, Statement.outline, hlist]
  | .write names, ts, hnamed, h => by
    simp only [Statement.nodes, Node.written_plain_iff] at h
    obtain ⟨place, _, rfl, hnames⟩ := h
    obtain ⟨opening, list, closing, semicolon, rfl, hlist⟩ := Statement.exists_list hnamed hnames
    refine ⟨.write place opening list closing semicolon, rfl, fun scope n => ?_⟩
    simp only [Stmt.tree, Statement.outline, hlist]
  | .ifThen condition body, ts, hnamed, h => by
    simp only [Statement.nodes, Node.written_plain_iff, Node.written_append_iff,
      Node.written_nil_iff] at h
    obtain ⟨if_, _, rfl, _, _, rfl, ⟨_, _, rfl, hcondition, hbody⟩, endIf, _, rfl, rfl⟩ := h
    obtain ⟨opening, c, closing, rfl, hc⟩ := Condition.exists_cond hcondition
    obtain ⟨b, rfl, hb⟩ := body.exists_body hnamed hbody
    refine ⟨.ifThen if_ opening c closing b endIf, rfl, fun scope n => ?_⟩
    simp only [Stmt.tree, Statement.outline, hc, hb]
  | .ifElse condition body alternative, ts, hnamed, h => by
    simp only [Statement.nodes, Node.written_plain_iff, Node.written_append_iff,
      Node.written_nil_iff] at h
    obtain ⟨if_, _, rfl, _, _, rfl, ⟨_, _, rfl, hcondition, hbody⟩, else_, _, rfl, _, _, rfl,
      halternative, endIf, _, rfl, rfl⟩ := h
    obtain ⟨opening, c, closing, rfl, hc⟩ := Condition.exists_cond hcondition
    obtain ⟨b, rfl, hb⟩ := body.exists_body hnamed.1 hbody
    obtain ⟨b', rfl, hb'⟩ := alternative.exists_body hnamed.2 halternative
    refine ⟨.ifElse if_ opening c closing b else_ b' endIf, rfl, fun scope n => ?_⟩
    simp only [Stmt.tree, Statement.outline, hc, hb, hb']
  | .loop condition body, ts, hnamed, h => by
    simp only [Statement.nodes, Node.written_plain_iff, Node.written_append_iff,
      Node.written_nil_iff] at h
    obtain ⟨while_, _, rfl, _, _, rfl, ⟨_, _, rfl, hcondition, hbody⟩, endWhile, _, rfl, rfl⟩ := h
    obtain ⟨opening, c, closing, rfl, hc⟩ := Condition.exists_cond hcondition
    obtain ⟨b, rfl, hb⟩ := body.exists_body hnamed hbody
    refine ⟨.loop while_ opening c closing b endWhile, rfl, fun scope n => ?_⟩
    simp only [Stmt.tree, Statement.outline, hc, hb]
  | .return_ value, ts, _, h => by
    simp only [Statement.nodes, Node.written_plain_iff, Node.written_expr_iff,
      Node.written_nil_iff] at h
    obtain ⟨place, _, rfl, _, _, rfl, hvalue, semicolon, _, rfl, rfl⟩ := h
    obtain ⟨d, rfl, hd⟩ := hvalue.derives
    refine ⟨.return_ place d semicolon, rfl, fun scope n => ?_⟩
    simp only [Stmt.tree, Statement.outline, hd]

theorem Block.exists_body : ∀ (b : Block) {ts : Tokens}, b.Named → Node.Written b.nodes ts →
    ∃ d : Body, d.tokens = ts ∧
      ∀ scope n, (d.tree scope n).outline Scope.forget = b.outline Scope.forget
  | ⟨declarations, statements, _⟩, ts, hnamed, h => by
    obtain ⟨_, _, rfl, h₁, h₂⟩ := Node.written_append_iff.1 h
    obtain ⟨decls, rfl, hdecls⟩ :=
      h₁.exists_list fun d hd ts => Declaration.exists_decl (hnamed.1 d hd)
    obtain ⟨stmts, rfl, hstmts⟩ := Statement.exists_stmts statements hnamed.2 h₂
    refine ⟨⟨decls, stmts⟩, rfl, fun scope n => ?_⟩
    simp only [Body.tree, Block.outline, List.map_map, Function.comp_def, hdecls, hstmts]
    rfl

theorem Statement.exists_stmts : ∀ (ss : List Statement) {ts : Tokens}, Statement.NamedAll ss →
    Node.Written (Statement.nodesAll ss) ts → ∃ ds : List Stmt, Stmt.tokensAll ds = ts ∧
      ∀ scope n, Statement.outlineAll Scope.forget (Stmt.trees scope n ds) =
        Statement.outlineAll Scope.forget ss
  | [], ts, _, h => ⟨[], (Node.written_nil_iff.1 h).symm, fun _ _ => rfl⟩
  | s :: ss, ts, hnamed, h => by
    obtain ⟨_, _, rfl, hs, hss⟩ := Node.written_append_iff.1 h
    obtain ⟨d, rfl, hd⟩ := s.exists_stmt hnamed.1 hs
    obtain ⟨ds, rfl, hds⟩ := Statement.exists_stmts ss hnamed.2 hss
    refine ⟨d :: ds, rfl, fun scope n => ?_⟩
    rw [Stmt.trees, Statement.outlineAll, Statement.outlineAll, hd, hds]

end

theorem Parameter.exists_param (p : Parameter) {ts : Tokens} (h : Node.Written p.nodes ts) :
    ∃ x : Param, x.tokens = ts ∧ x.tree.erase = p.erase := by
  simp only [nodes, Node.written_kept_iff, Node.written_nil_iff] at h
  obtain ⟨place, _, rfl, place', _, rfl, rfl⟩ := h
  exact ⟨⟨⟨p.type.value, place⟩, ⟨p.name.value, place'⟩⟩, rfl, rfl⟩

theorem Parameter.exists_params {ps : List Parameter} {ts : Tokens}
    (h : Node.Written (Node.commas nodes ps) ts) :
    ∃ x : Params, x.tokens = ts ∧ x.toList.map (fun p => p.tree.erase) = ps.map erase := by
  by_cases hne : ps = []
  · subst hne
    exact ⟨.none, (Node.written_nil_iff.1 h).symm, rfl⟩
  · obtain ⟨list, rfl, hlist⟩ := h.exists_separated hne fun p ts => p.exists_param
    exact ⟨.some list, rfl, hlist⟩

theorem Function.exists_func {f : Function} (hf : f.body.Named) {ts : Tokens}
    (h : Node.Written f.nodes ts) : ∃ d : Func, d.tokens = ts ∧
      (fun outer n => (d.tree outer n).outline Scope.forget) =
        fun _ _ => f.outline Scope.forget := by
  simp only [nodes, Node.written_plain_iff, Node.written_kept_iff, Node.written_append_iff,
    Node.written_nil_iff] at h
  obtain ⟨function, _, rfl, returns, _, rfl, name, _, rfl, opening, _, rfl, _, _, rfl, h₁, closing,
    _, rfl, begin_, _, rfl, _, _, rfl, h₂, end_, _, rfl, rfl⟩ := h
  obtain ⟨parameters, rfl, hparameters⟩ := Parameter.exists_params h₁
  obtain ⟨body, rfl, hbody⟩ := f.body.exists_body hf h₂
  refine ⟨⟨function, ⟨f.returns.value, returns⟩, ⟨f.name.value, name⟩, opening, parameters, closing,
    begin_, body, end_⟩, rfl, ?_⟩
  funext outer n
  simp only [Func.tree, outline, List.map_map, Function.comp_def, hparameters, hbody]
  rfl

/-- The functions that are derived, whatever the numbers of their scopes. -/
theorem Grammar.Func.map_outline_trees (outer : Scope) :
    ∀ {ds : List Func} {fs : List Function} (n : Nat),
      ds.map (fun d outer n => (d.tree outer n).outline Scope.forget) =
        fs.map (fun f _ _ => f.outline Scope.forget) →
      (trees outer n ds).map (Function.outline Scope.forget) =
        fs.map (Function.outline Scope.forget)
  | [], [], n, _ => rfl
  | d :: ds, f :: fs, n, h => by
    simp only [List.map_cons, List.cons.injEq] at h
    rw [trees, List.map_cons, List.map_cons, Func.map_outline_trees outer _ h.2]
    exact congrArg (· :: _) (congrFun (congrFun h.1 outer) n)
  | [], _ :: _, _, h => by simp at h
  | _ :: _, [], _, h => by simp at h

namespace Program

/-- Every declaration, READ and WRITE of the program names something. -/
def Named (p : Program) : Prop := (∀ d ∈ p.globals, d.Named) ∧ ∀ f ∈ p.functions, f.body.Named

theorem exists_prog {p : Program} (hp : p.Named) {tokens : Tokens} (h : p.Writes tokens) :
    ∃ d : Prog, d.tokens = tokens ∧ d.tree.outline Scope.forget = p.outline Scope.forget := by
  simp only [Writes, nodes, Node.written_plain_iff, Node.written_kept_iff, Node.written_append_iff,
    Node.written_nil_iff] at h
  obtain ⟨program, _, rfl, name, _, rfl, begin_, _, rfl, _, _, rfl, ⟨_, _, rfl, h₁, h₂⟩, end_, _,
    rfl, rfl⟩ := h
  obtain ⟨globals, rfl, hglobals⟩ :=
    h₁.exists_list fun d hd ts => Declaration.exists_decl (hp.1 d hd)
  obtain ⟨functions, rfl, hfunctions⟩ :=
    h₂.exists_list fun f hf ts => Function.exists_func (hp.2 f hf)
  refine ⟨⟨program, ⟨p.name.value, name⟩, begin_, globals, functions, end_⟩, rfl, ?_⟩
  simp only [Prog.tree, outline, List.map_map, Function.comp_def, hglobals,
    Func.map_outline_trees _ 0 hfunctions]
  rfl

/-- A tree that a program can have: every declaration, READ and WRITE names something, the blocks
have the scopes that their declarations make, and no scope declares a name twice. -/
structure Proper (p : Program) : Prop where
  named : p.Named
  scopes : p.outline Scope.erase = p.rescope
  distinct : ∀ s ∈ p.scopes, s.names.Nodup

end Program

/-! ## Trees that have been read -/

namespace Grammar

theorem Separated.toList_ne_nil {α : Type} (x : Separated α) : x.toList ≠ [] := by
  simp [Separated.toList]

theorem Decl.named_tree (d : Decl) : d.tree.Named := by
  cases d with
  | text => trivial
  | numbers _ names _ => exact names.toList_ne_nil

theorem Decl.named_trees (ds : List Decl) : ∀ d ∈ ds.map Decl.tree, d.Named := by
  simp only [List.forall_mem_map]
  exact fun d _ => d.named_tree

mutual

theorem Stmt.named_tree : ∀ (d : Stmt) (scope : Scope) (n : Nat), (d.tree scope n).Named
  | .assign .., _, _ => trivial
  | .read _ _ names _ _, _, _ => names.toList_ne_nil
  | .write _ _ names _ _, _, _ => names.toList_ne_nil
  | .ifThen _ _ _ _ body _, _, _ => body.named_tree _ _
  | .ifElse _ _ _ _ body _ alternative _, _, _ =>
    ⟨body.named_tree _ _, alternative.named_tree _ _⟩
  | .loop _ _ _ _ body _, _, _ => body.named_tree _ _
  | .return_ .., _, _ => trivial

theorem Body.named_tree : ∀ (b : Body) (scope : Scope) (n : Nat), (b.tree scope n).Named
  | ⟨decls, stmts⟩, _, _ => ⟨Decl.named_trees decls, Stmt.named_trees stmts _ _⟩

theorem Stmt.named_trees : ∀ (ds : List Stmt) (scope : Scope) (n : Nat),
    Statement.NamedAll (Stmt.trees scope n ds)
  | [], _, _ => trivial
  | d :: ds, _, _ => ⟨d.named_tree _ _, Stmt.named_trees ds _ _⟩

end

end Grammar

namespace Program

theorem Proper.of_parse {tokens : Tokens} {p : Program} (h : parse tokens = .ok p) : p.Proper := by
  refine ⟨?_, outline_of_parse h, fun s hs => ((wellScoped_of_parse h).wellFormed s hs).2⟩
  obtain ⟨d, -, -, rfl⟩ := parse_eq_ok_iff.1 h
  refine ⟨Decl.named_trees d.globals, fun f hf => ?_⟩
  obtain ⟨x, -, n, rfl⟩ := Func.exists_of_mem_trees hf
  exact x.body.named_tree _ _

/-- The reader makes a tree again from any tokens that write it. -/
theorem Proper.exists_parse {p : Program} (hp : p.Proper) {tokens : Tokens} (h : p.Writes tokens) :
    ∃ q, parse tokens = .ok q ∧ q.outline Scope.erase = p.outline Scope.erase := by
  obtain ⟨d, rfl, hd⟩ := exists_prog hp.named h
  -- The scopes are made by the declarations alone, and these are the same in both trees.
  have houtline : d.tree.outline Scope.erase = p.outline Scope.erase := by
    rw [d.outline_tree, ← rescope_outline Scope.forget, hd, rescope_outline, hp.scopes]
  have hscopes : d.tree.scopes.map Scope.names = p.scopes.map Scope.names := by
    rw [← map_names_outline, houtline, map_names_outline]
  have hdistinct : d.Distinct := by
    rw [Prog.Distinct, ← d.map_names_scopes, hscopes]
    simpa using hp.distinct
  exact ⟨d.tree, parse_eq_ok_iff.2 ⟨d, rfl, hdistinct, rfl⟩, houtline⟩

/-- The trees that the reader makes are proper. From the tokens of a proper tree it makes the same
tree, up to locations, and so it does from tokens with more parentheses around expressions. -/
theorem parse_undoes_unparsing (p : Program) :
    (∀ tokens, parse tokens = .ok p → p.Proper) ∧
    (p.Proper →
      (∀ tokens : Tokens, tokens.map Located.value = p.unparse →
        ∃ q, parse tokens = .ok q ∧ q.outline Scope.erase = p.outline Scope.erase) ∧
      ∀ tokens, p.Writes tokens → p.unparse.length ≤ tokens.length ∧
        ∃ q, parse tokens = .ok q ∧ q.outline Scope.erase = p.outline Scope.erase) := by
  refine ⟨fun tokens => Proper.of_parse, fun hp => ⟨?_, ?_⟩⟩
  · intro tokens h
    exact hp.exists_parse (Node.written_of_unparse h)
  · intro tokens h
    exact ⟨h.length_le, hp.exists_parse h⟩

/-- `a := a - (b - a) * f(a, 2)` in a function, and an IF whose block has a variable of its own. -/
theorem parse_undoes_unparsing_nested :
    ∃ p : Program, p.Proper ∧
      p.unparse = [.keyword .program, .identifier "p", .keyword .begin_, .keyword .int,
        .identifier "a", .operator .comma, .identifier "b", .operator .semicolon,
        .keyword .function, .keyword .void, .identifier "main", .operator .openParen,
        .operator .closeParen, .keyword .begin_,
        .identifier "a", .operator .assign, .identifier "a", .operator .minus, .operator .openParen,
        .identifier "b", .operator .minus, .identifier "a", .operator .closeParen, .operator .times,
        .identifier "f", .operator .openParen, .identifier "a", .operator .comma, .intLiteral "2",
        .operator .closeParen, .operator .semicolon,
        .keyword .if_, .operator .openParen, .identifier "a", .operator .less, .identifier "b",
        .operator .closeParen, .keyword .int, .identifier "b", .operator .semicolon, .keyword .read,
        .operator .openParen, .identifier "b", .operator .closeParen, .operator .semicolon,
        .keyword .endIf, .keyword .end_, .keyword .end_] ∧
      ∀ tokens : Tokens, tokens.map Located.value = p.unparse →
        ∃ q, parse tokens = .ok q ∧ q.outline Scope.erase = p.outline Scope.erase := by
  let a : Expr := .var "a" {}
  let b : Expr := .var "b" {}
  let product : Expr := .binary .mul (.binary .sub b a {}) (.call ⟨"f", {}⟩ [a, .int "2" {}] {}) {}
  let inner : Block := ⟨[.numbers ⟨.int, {}⟩ [⟨"b", {}⟩]], [.read [⟨"b", {}⟩]], .global⟩
  let body : Block := ⟨[], [.assign ⟨"a", {}⟩ (.binary .sub a product {}),
    .ifThen ⟨.less, a, b⟩ inner], .global⟩
  let p : Program := ⟨⟨"p", {}⟩, [.numbers ⟨.int, {}⟩ [⟨"a", {}⟩, ⟨"b", {}⟩]], .global,
    [⟨⟨.void, {}⟩, ⟨"main", {}⟩, [], body⟩], {}⟩
  have hp : p.rescope.Proper := by
    refine ⟨?_, rfl, by decide⟩
    simp [p, body, inner, Named, rescope, Function.rescopeAll, Function.rescope, Block.rescope,
      Statement.rescopeAll, Statement.rescope, Declaration.erase, Declaration.Named, Block.Named,
      Statement.NamedAll, Statement.Named]
  exact ⟨p.rescope, hp, by decide, ((parse_undoes_unparsing p.rescope).2 hp).1⟩

end Program

end LittleTiny
