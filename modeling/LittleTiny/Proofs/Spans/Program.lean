import LittleTiny.Proofs.Spans

/-!
# Ranges of whole programs

The tokens of a program are those of its nodes, one after the other, so that every node of a program
that has been read has a range of tokens, and every location in the tree is that of its range
(`Program.locations_cover_tokens`).
-/

namespace LittleTiny

namespace Grammar

theorem standAll_names (names : Separated (Located String)) :
    StandAll (Node.commas (fun name => [.name name]) names.toList)
      (names.tokens fun name => [identifier name]) := by
  have hnames := StandAll.commas (fun name => [.name name]) id
    (fun name => .kept (t := identifier name) .nil) names
  rwa [List.map_id] at hnames

theorem Decl.standAll (d : Decl) : StandAll d.tree.nodes d.tokens := by
  cases d with
  | text string name becomes value semicolon =>
    exact .plain (.kept (.plain (.kept (.plain .nil))))
  | numbers type names semicolon =>
    exact .kept ((standAll_names names).append (.plain .nil))

theorem Param.standAll (p : Param) : StandAll p.tree.nodes p.tokens := .kept (.kept .nil)

theorem Params.standAll (ps : Params) :
    StandAll (Node.commas Parameter.nodes (ps.toList.map Param.tree)) ps.tokens := by
  cases ps with
  | none => exact .nil
  | some list => exact .commas Parameter.nodes Param.tree Param.standAll list

theorem Cond.standAll_head (opening : Location) (c : Cond) (closing : Location) :
    StandAll c.tree.nodes (headTokens opening c closing) := by
  rw [headTokens, Cond.tokens, List.append_assoc]
  exact .plain (.cons c.lhs.stands (.plain (.cons c.rhs.stands (.plain .nil))))

theorem standAll_list (opening : Location) (names : Separated (Located String))
    (closing semicolon : Location) :
    StandAll (Statement.nameNodes names.toList) (listTokens opening names closing semicolon) :=
  .plain ((standAll_names names).append (.plain (.plain .nil)))

mutual

theorem Stmt.standAll : ∀ (d : Stmt) (scope : Scope) (n : Nat),
    StandAll (d.tree scope n).nodes d.tokens
  | .assign target becomes value semicolon, scope, n => by
    rw [Stmt.tokens, Stmt.tree, Statement.nodes]
    exact .kept (.plain (.cons value.stands (.plain .nil)))
  | .read start opening names closing semicolon, scope, n => by
    rw [Stmt.tokens, Stmt.tree, Statement.nodes]
    exact .plain (standAll_list opening names closing semicolon)
  | .write start opening names closing semicolon, scope, n => by
    rw [Stmt.tokens, Stmt.tree, Statement.nodes]
    exact .plain (standAll_list opening names closing semicolon)
  | .ifThen if_ opening condition closing body endIf, scope, n => by
    rw [Stmt.tokens, Stmt.tree, Statement.nodes]
    have hhead := condition.standAll_head opening closing
    exact .plain ((hhead.append (body.standAll _ _)).append (.plain .nil))
  | .ifElse if_ opening condition closing body else_ alternative endIf, scope, n => by
    rw [Stmt.tokens, Stmt.tree, Statement.nodes]
    have hhead := condition.standAll_head opening closing
    exact .plain ((hhead.append (body.standAll _ _)).append
      (.plain ((alternative.standAll _ _).append (.plain .nil))))
  | .loop while_ opening condition closing body endWhile, scope, n => by
    rw [Stmt.tokens, Stmt.tree, Statement.nodes]
    have hhead := condition.standAll_head opening closing
    exact .plain ((hhead.append (body.standAll _ _)).append (.plain .nil))
  | .return_ start value semicolon, scope, n => by
    rw [Stmt.tokens, Stmt.tree, Statement.nodes]
    exact .plain (.cons value.stands (.plain .nil))

theorem Body.standAll : ∀ (b : Body) (scope : Scope) (n : Nat),
    StandAll (b.tree scope n).nodes b.tokens
  | ⟨decls, stmts⟩, scope, n => by
    rw [Body.tokens, Body.tree, Block.nodes]
    have hdecls := StandAll.flatMap Declaration.nodes Decl.tree Decl.standAll decls
    exact hdecls.append (Stmt.standAllAll stmts _ n)

theorem Stmt.standAllAll : ∀ (ds : List Stmt) (scope : Scope) (n : Nat),
    StandAll (Statement.nodesAll (Stmt.trees scope n ds)) (Stmt.tokensAll ds)
  | [], scope, n => .nil
  | d :: ds, scope, n => by
    rw [Stmt.tokensAll, Stmt.trees, Statement.nodesAll]
    exact (d.standAll scope n).append (Stmt.standAllAll ds scope (n + d.openings))

end

theorem Func.standAll (f : Func) (outer : Scope) (n : Nat) :
    StandAll (f.tree outer n).nodes f.tokens := by
  have hbody := (f.body.standAll (f.scope outer (n + 1)) (n + 1)).append
    (.plain (t := .keyword .end_) (l := f.end_) .nil)
  exact .plain (.kept (.kept (.plain (f.parameters.standAll.append (.plain (.plain hbody))))))

theorem Func.standAllAll (outer : Scope) : ∀ (fs : List Func) (n : Nat),
    StandAll ((trees outer n fs).flatMap Function.nodes) (fs.flatMap Func.tokens)
  | [], _ => .nil
  | f :: fs, n => (f.standAll outer n).append (standAllAll outer fs (n + f.openings))

/-- The tokens of a program are those of its nodes. -/
theorem Prog.standAll (d : Prog) : StandAll d.tree.nodes d.tokens := by
  have hglobals := StandAll.flatMap Declaration.nodes Decl.tree Decl.standAll d.globals
  have hfunctions := Func.standAllAll d.scope d.functions 0
  exact .plain (.kept (.plain ((hglobals.append hfunctions).append (.plain .nil))))

end Grammar

open Grammar

/-- Ranges for the nodes of a program and for all that stands in them. They follow each other from
the first token to the last one. -/
structure Program.Ranges (p : Program) (tokens : Tokens) (ss : List Spread) : Prop where
  nodes_eq : ss.map Spread.node = p.nodes
  tiles : Tiles ss 0 tokens.length
  ordered : ss.Pairwise fun s s' => s.stop ≤ s'.start
  fits : ∀ s ∈ ss, ∀ x : Spread, x.Within s → x.Fits tokens
  eof_eq : tokens.getLast?.map Located.location = some p.eof

theorem Grammar.Prog.location_getLast? (d : Prog) :
    d.tokens.getLast?.map Located.location = some d.tree.eof := by
  rw [Prog.tokens, ← List.cons_append, ← List.cons_append, ← List.cons_append,
    List.getLast?_concat]
  rfl

/-- Every node of a program that has been read has a range of tokens. An expression is what is read
from the tokens of its range, the parentheses around it among them, and its location goes from the
start of the first of these tokens to the end of the last one; names, types and texts have the
locations of their tokens. The ranges inside a range follow each other. -/
theorem Program.locations_cover_tokens {tokens : List (Located Token)} {p : Program}
    (hp : Program.parse tokens = .ok p) : ∃ ss : List Spread, p.Ranges tokens ss := by
  obtain ⟨d, rfl, -, rfl⟩ := parse_eq_ok_iff.1 hp
  have hat : TokensAt d.tokens 0 d.tokens := List.prefix_refl d.tokens
  obtain ⟨ss, hnodes, htiles, hfits⟩ := d.standAll.spreadsAll hat
  rw [Nat.zero_add] at htiles
  have hlt : ∀ s ∈ ss, s.start < s.stop := fun s hs => (hfits s hs s .refl).lt
  exact ⟨ss, hnodes, htiles, htiles.pairwise hlt, hfits, d.location_getLast?⟩

/-! ## A program with parentheses in parentheses -/

/-- The place of one character in the first line. -/
private def column (k : UInt32) : Location := ⟨⟨1, k⟩, ⟨1, k⟩⟩

/-- A value at the place. -/
private def inColumn {α : Type} (k : UInt32) (a : α) : Located α := ⟨a, column k⟩

/-- `PROGRAM p BEGIN INT a; FUNCTION VOID main() BEGIN a := ((1 + f(a)) * 2); END END`, each token
in the column of its number. -/
def parenthesised : Prog where
  program := column 0
  name := inColumn 1 "p"
  begin_ := column 2
  globals := [.numbers (inColumn 3 .int) ⟨inColumn 4 "a", []⟩ (column 5)]
  functions := [{
    function := column 6
    returns := inColumn 7 .void
    name := inColumn 8 "main"
    opening := column 9
    parameters := .none
    closing := column 10
    begin_ := column 11
    body := ⟨[], [.assign (inColumn 12 "a") (column 13)
      (.mk (.mk (.paren (column 14)
        (.mk (.mk (.paren (column 15)
            (.mk (.mk (.int (inColumn 16 "1")) .nil) (.cons (inColumn 17 .plus)
              (.mk (.call (inColumn 18 "f") (column 19)
                (.some (.mk (.mk (.var (inColumn 20 "a")) .nil) .nil) .nil) (column 21)) .nil)
              .nil))
            (column 22))
          (.cons (inColumn 23 .times) (.int (inColumn 24 "2")) .nil)) .nil)
        (column 25)) .nil) .nil)
      (column 26)]⟩
    end_ := column 27 }]
  end_ := column 28

theorem Program.locations_cover_tokens_parenthesised :
    Program.parse parenthesised.tokens = .ok parenthesised.tree ∧
      (parenthesised.tree.functions.map fun f => f.body.statements) =
        [[.assign ⟨"a", ⟨⟨1, 12⟩, ⟨1, 12⟩⟩⟩ (.binary .mul
          (.binary .add (.int "1" ⟨⟨1, 16⟩, ⟨1, 16⟩⟩)
            (.call ⟨"f", ⟨⟨1, 18⟩, ⟨1, 18⟩⟩⟩ [.var "a" ⟨⟨1, 20⟩, ⟨1, 20⟩⟩] ⟨⟨1, 18⟩, ⟨1, 21⟩⟩)
            ⟨⟨1, 15⟩, ⟨1, 22⟩⟩)
          (.int "2" ⟨⟨1, 24⟩, ⟨1, 24⟩⟩) ⟨⟨1, 14⟩, ⟨1, 25⟩⟩)]] ∧
      ∃ ss : List Spread, parenthesised.tree.Ranges parenthesised.tokens ss := by
  have hp : Program.parse parenthesised.tokens = .ok parenthesised.tree :=
    Program.parse_eq_ok_iff.2 ⟨parenthesised, rfl, by decide, rfl⟩
  exact ⟨hp, rfl, Program.locations_cover_tokens hp⟩

end LittleTiny
