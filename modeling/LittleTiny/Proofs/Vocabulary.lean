import LittleTiny.Code.Lowering
import LittleTiny.Proofs.Scopes
import LittleTiny.Proofs.Spelling

/-!
# The names and numerals of a program

What stands in the tree of a derivation stands in its tokens: the variables have the names of
identifiers (`Prog.isWord_of_mem_cells`), and the literals are numerals (`Prog.numerals`). For a
program that was scanned they are spelled in the way of these tokens.
-/

namespace LittleTiny

/-! ## Literals -/

mutual

/-- The literals of an expression, from left to right. -/
def Expr.literals : Expr → List String
  | .int digits _ => [digits]
  | .float digits _ => [digits]
  | .var _ _ => []
  | .binary _ lhs rhs _ => lhs.literals ++ rhs.literals
  | .call _ arguments _ => Expr.literalsAll arguments

/-- The literals of expressions in a row. -/
def Expr.literalsAll : List Expr → List String
  | [] => []
  | e :: es => e.literals ++ Expr.literalsAll es

end

/-- The literals of a condition. -/
def Condition.literals (c : Condition) : List String := c.lhs.literals ++ c.rhs.literals

mutual

/-- The literals of a statement, from left to right. -/
def Statement.literals : Statement → List String
  | .assign _ value => value.literals
  | .read _ => []
  | .write _ => []
  | .ifThen condition body => condition.literals ++ body.literals
  | .ifElse condition body alternative =>
    condition.literals ++ (body.literals ++ alternative.literals)
  | .loop condition body => condition.literals ++ body.literals
  | .return_ value => value.literals

/-- The literals of a block. -/
def Block.literals : Block → List String
  | ⟨_, statements, _⟩ => Statement.literalsAll statements

/-- The literals of statements in a row. -/
def Statement.literalsAll : List Statement → List String
  | [] => []
  | s :: ss => s.literals ++ Statement.literalsAll ss

end

theorem Expr.literals_relocate (l : Location) (e : Expr) :
    (e.relocate l).literals = e.literals := by
  cases e <;> rfl

/-- All the literals are numerals. -/
def Numerals (literals : List String) : Prop := ∀ digits ∈ literals, IsNumeral digits.toList

/-- All the names are words. -/
def Words (names : List String) : Prop := ∀ name ∈ names, IsWord name.toList

theorem Words.nil : Words [] := fun _ h => nomatch h

namespace Numerals

theorem nil : Numerals [] := fun _ h => nomatch h

theorem append {xs ys : List String} (hx : Numerals xs) (hy : Numerals ys) : Numerals (xs ++ ys) :=
  List.forall_mem_append.2 ⟨hx, hy⟩

end Numerals

namespace Grammar

/-- All the tokens are spelled as tokens of their classes are. -/
def AllSpelled (ts : Tokens) : Prop := ∀ t ∈ ts, t.value.Spelled

theorem allSpelled_append {ts us : Tokens} :
    AllSpelled (ts ++ us) ↔ AllSpelled ts ∧ AllSpelled us :=
  List.forall_mem_append

theorem allSpelled_cons {t : Located Token} {ts : Tokens} :
    AllSpelled (t :: ts) ↔ t.value.Spelled ∧ AllSpelled ts :=
  List.forall_mem_cons

theorem AllSpelled.of_mem_flatMap {α : Type} {write : α → Tokens} {xs : List α}
    (h : AllSpelled (xs.flatMap write)) {x : α} (hx : x ∈ xs) : AllSpelled (write x) :=
  fun t ht => h t (List.mem_flatMap.2 ⟨x, hx, ht⟩)

mutual

theorem Sum.numerals : ∀ {d : Sum}, AllSpelled d.tokens → Numerals d.tree.literals
  | .mk first rest, h => by
    rw [Sum.tokens, allSpelled_append] at h
    exact rest.numerals (first.numerals h.1) h.2

theorem Terms.numerals : ∀ {d : Terms} {lhs : Expr}, Numerals lhs.literals →
    AllSpelled d.tokens → Numerals (d.tree lhs).literals
  | .nil, lhs, hlhs, h => hlhs
  | .cons op operand rest, lhs, hlhs, h => by
    rw [Terms.tokens, allSpelled_cons, allSpelled_append] at h
    exact rest.numerals (hlhs.append (operand.numerals h.2.1)) h.2.2

theorem Product.numerals : ∀ {d : Product}, AllSpelled d.tokens → Numerals d.tree.literals
  | .mk first rest, h => by
    rw [Product.tokens, allSpelled_append] at h
    exact rest.numerals (first.numerals h.1) h.2

theorem Factors.numerals : ∀ {d : Factors} {lhs : Expr}, Numerals lhs.literals →
    AllSpelled d.tokens → Numerals (d.tree lhs).literals
  | .nil, lhs, hlhs, h => hlhs
  | .cons op operand rest, lhs, hlhs, h => by
    rw [Factors.tokens, allSpelled_cons, allSpelled_append] at h
    exact rest.numerals (hlhs.append (operand.numerals h.2.1)) h.2.2

theorem Atom.numerals : ∀ {d : Atom}, AllSpelled d.tokens → Numerals d.tree.literals
  | .call function opening arguments closing, h => by
    rw [Atom.tokens, allSpelled_cons, allSpelled_cons, allSpelled_append] at h
    exact arguments.numerals h.2.2.1
  | .paren opening inner closing, h => by
    rw [Atom.tokens, allSpelled_cons, allSpelled_append] at h
    rw [Atom.tree, enclosed_eq_relocate, Expr.literals_relocate]
    exact inner.numerals h.2.1
  | .var name, h => Numerals.nil
  | .int digits, h => by
    have hdigits : IsWhole digits.value.toList := (allSpelled_cons.1 h).1
    rintro x (_ | ⟨_, ⟨⟩⟩)
    exact .inl hdigits
  | .float digits, h => by
    have hdigits : IsDecimal digits.value.toList := (allSpelled_cons.1 h).1
    rintro x (_ | ⟨_, ⟨⟩⟩)
    exact .inr hdigits

theorem Arguments.numerals : ∀ {d : Arguments}, AllSpelled d.tokens →
    Numerals (Expr.literalsAll d.trees)
  | .none, h => Numerals.nil
  | .some first rest, h => by
    rw [Arguments.tokens, allSpelled_append] at h
    exact (first.numerals h.1).append (rest.numerals h.2)

theorem MoreArguments.numerals : ∀ {d : MoreArguments}, AllSpelled d.tokens →
    Numerals (Expr.literalsAll d.trees)
  | .nil, h => Numerals.nil
  | .cons comma argument rest, h => by
    rw [MoreArguments.tokens, allSpelled_cons, allSpelled_append] at h
    exact (argument.numerals h.2.1).append (rest.numerals h.2.2)

end

theorem Cond.numerals {d : Cond} (h : AllSpelled d.tokens) : Numerals d.tree.literals := by
  rw [Cond.tokens, allSpelled_append, allSpelled_cons] at h
  exact (d.lhs.numerals h.1).append (d.rhs.numerals h.2.2)

theorem numerals_of_headTokens {opening closing : Location} {d : Cond}
    (h : AllSpelled (headTokens opening d closing)) : Numerals d.tree.literals := by
  rw [headTokens, allSpelled_cons, allSpelled_append] at h
  exact Cond.numerals h.2.1

mutual

theorem Stmt.numerals : ∀ {d : Stmt} {scope : Scope} {n : Nat}, AllSpelled d.tokens →
    Numerals (d.tree scope n).literals
  | .assign target becomes value semicolon, scope, n, h => by
    rw [Stmt.tokens, allSpelled_cons, allSpelled_cons, allSpelled_append] at h
    exact value.numerals h.2.2.1
  | .read .., scope, n, h => Numerals.nil
  | .write .., scope, n, h => Numerals.nil
  | .ifThen if_ opening condition closing body endIf, scope, n, h => by
    rw [Stmt.tokens, allSpelled_cons, allSpelled_append, allSpelled_append] at h
    exact (numerals_of_headTokens h.2.1.1).append (body.numerals h.2.1.2)
  | .ifElse if_ opening condition closing body else_ alternative endIf, scope, n, h => by
    rw [Stmt.tokens, allSpelled_cons, allSpelled_append, allSpelled_append, allSpelled_cons,
      allSpelled_append] at h
    exact (numerals_of_headTokens h.2.1.1).append
      ((body.numerals h.2.1.2).append (alternative.numerals h.2.2.2.1))
  | .loop while_ opening condition closing body endWhile, scope, n, h => by
    rw [Stmt.tokens, allSpelled_cons, allSpelled_append, allSpelled_append] at h
    exact (numerals_of_headTokens h.2.1.1).append (body.numerals h.2.1.2)
  | .return_ start value semicolon, scope, n, h => by
    rw [Stmt.tokens, allSpelled_cons, allSpelled_append] at h
    exact value.numerals h.2.1

theorem Body.numerals : ∀ {b : Body} {scope : Scope} {n : Nat}, AllSpelled b.tokens →
    Numerals (b.tree scope n).literals
  | ⟨decls, stmts⟩, scope, n, h => by
    rw [Body.tokens, allSpelled_append] at h
    exact Stmt.numeralsAll h.2

theorem Stmt.numeralsAll : ∀ {ds : List Stmt} {scope : Scope} {n : Nat},
    AllSpelled (Stmt.tokensAll ds) → Numerals (Statement.literalsAll (Stmt.trees scope n ds))
  | [], scope, n, h => Numerals.nil
  | d :: ds, scope, n, h => by
    rw [Stmt.tokensAll, allSpelled_append] at h
    exact (d.numerals h.1).append (Stmt.numeralsAll h.2)

end

/-! ## Names -/

theorem Separated.allSpelled_of_mem {α : Type} {write : α → Tokens} {x : Separated α}
    (h : AllSpelled (x.tokens write)) {a : α} (ha : a ∈ x.toList) : AllSpelled (write a) := by
  rw [Separated.tokens, allSpelled_append] at h
  rcases List.mem_cons.1 ha with rfl | ha
  · exact h.1
  · obtain ⟨⟨comma, a⟩, hpair, rfl⟩ := List.mem_map.1 ha
    exact (allSpelled_cons.1 (h.2.of_mem_flatMap hpair)).2

theorem isWord_of_identifier {name : Located String} {ts : Tokens}
    (h : AllSpelled (identifier name :: ts)) : IsWord name.value.toList := by
  have hname : IsWord name.value.toList ∧ _ := (allSpelled_cons.1 h).1
  exact hname.1

theorem Decl.words {d : Decl} (h : AllSpelled d.tokens) : Words d.names := by
  cases d with
  | text string name becomes value semicolon =>
    rintro x (_ | ⟨_, ⟨⟩⟩)
    exact isWord_of_identifier (allSpelled_cons.1 h).2
  | numbers type names semicolon =>
    rw [Decl.tokens, allSpelled_cons, allSpelled_append] at h
    intro x hx
    obtain ⟨name, hname, rfl⟩ := List.mem_map.1 hx
    exact isWord_of_identifier (Separated.allSpelled_of_mem h.2.1 hname)

theorem Decl.wordsAll {ds : List Decl} (h : AllSpelled (ds.flatMap Decl.tokens)) :
    Words (ds.flatMap Decl.names) := by
  intro x hx
  obtain ⟨d, hd, hx⟩ := List.mem_flatMap.1 hx
  exact Decl.words (h.of_mem_flatMap hd) x hx

theorem Params.words {ps : Params} (h : AllSpelled ps.tokens) :
    Words (ps.toList.map fun p => p.name.value) := by
  cases ps with
  | none => exact Words.nil
  | some list =>
    intro x hx
    obtain ⟨p, hp, rfl⟩ := List.mem_map.1 hx
    have htokens : AllSpelled p.tokens := Separated.allSpelled_of_mem h hp
    exact isWord_of_identifier (allSpelled_cons.1 htokens).2

mutual

theorem Stmt.words : ∀ {d : Stmt}, AllSpelled d.tokens → ∀ names ∈ d.scopes, Words names
  | .assign .., h, names, hn => nomatch hn
  | .read .., h, names, hn => nomatch hn
  | .write .., h, names, hn => nomatch hn
  | .ifThen if_ opening condition closing body endIf, h, names, hn => by
    rw [Stmt.tokens, allSpelled_cons, allSpelled_append, allSpelled_append] at h
    exact Body.words Words.nil h.2.1.2 names hn
  | .ifElse if_ opening condition closing body else_ alternative endIf, h, names, hn => by
    rw [Stmt.tokens, allSpelled_cons, allSpelled_append, allSpelled_append, allSpelled_cons,
      allSpelled_append] at h
    rw [Stmt.scopes, List.mem_append] at hn
    rcases hn with hn | hn
    · exact Body.words Words.nil h.2.1.2 names hn
    · exact Body.words Words.nil h.2.2.2.1 names hn
  | .loop while_ opening condition closing body endWhile, h, names, hn => by
    rw [Stmt.tokens, allSpelled_cons, allSpelled_append, allSpelled_append] at h
    exact Body.words Words.nil h.2.1.2 names hn
  | .return_ .., h, names, hn => nomatch hn

theorem Body.words : ∀ {b : Body} {parameters : List String}, Words parameters →
    AllSpelled b.tokens → ∀ names ∈ b.scopes parameters, Words names
  | ⟨decls, stmts⟩, parameters, hp, h, names, hn => by
    rw [Body.tokens, allSpelled_append] at h
    rw [Body.scopes, List.mem_cons] at hn
    rcases hn with rfl | hn
    · exact List.forall_mem_append.2 ⟨hp, Decl.wordsAll h.1⟩
    · exact Stmt.wordsAll h.2 names hn

theorem Stmt.wordsAll : ∀ {ds : List Stmt}, AllSpelled (Stmt.tokensAll ds) →
    ∀ names ∈ Stmt.scopesAll ds, Words names
  | [], h, names, hn => nomatch hn
  | d :: ds, h, names, hn => by
    rw [Stmt.tokensAll, allSpelled_append] at h
    rw [Stmt.scopesAll, List.mem_append] at hn
    rcases hn with hn | hn
    · exact Stmt.words h.1 names hn
    · exact Stmt.wordsAll h.2 names hn

end

/-! ## Programs -/

theorem Func.allSpelled_parts {f : Func} (h : AllSpelled f.tokens) :
    AllSpelled f.parameters.tokens ∧ AllSpelled f.body.tokens := by
  simp only [Func.tokens, allSpelled_cons, allSpelled_append] at h
  obtain ⟨-, -, -, -, hparameters, -, -, hbody, -⟩ := h
  exact ⟨hparameters, hbody⟩

theorem Prog.allSpelled_parts {p : Prog} (h : AllSpelled p.tokens) :
    AllSpelled (p.globals.flatMap Decl.tokens) ∧ ∀ f ∈ p.functions, AllSpelled f.tokens := by
  simp only [Prog.tokens, allSpelled_cons, allSpelled_append] at h
  obtain ⟨-, -, -, ⟨hglobals, hfunctions⟩, -⟩ := h
  exact ⟨hglobals, fun f hf => hfunctions.of_mem_flatMap hf⟩

/-- The functions of a program have numerals for literals. -/
theorem Prog.numerals {p : Prog} (h : AllSpelled p.tokens) :
    ∀ f ∈ p.tree.functions, Numerals f.body.literals := by
  intro f hf
  obtain ⟨d, hd, n, rfl⟩ := Func.exists_of_mem_trees hf
  exact Body.numerals (Func.allSpelled_parts ((Prog.allSpelled_parts h).2 d hd)).2

theorem Prog.words {p : Prog} (h : AllSpelled p.tokens) : ∀ names ∈ p.scopes, Words names := by
  obtain ⟨hglobals, hfunctions⟩ := Prog.allSpelled_parts h
  intro names hn
  rcases List.mem_cons.1 hn with rfl | hn
  · exact Decl.wordsAll hglobals
  · obtain ⟨f, hf, hn⟩ := List.mem_flatMap.1 hn
    obtain ⟨hparameters, hbody⟩ := Func.allSpelled_parts (hfunctions f hf)
    exact Body.words (Params.words hparameters) hbody names hn

/-- The variables of a program have words for names. -/
theorem Prog.isWord_of_mem_cells {p : Prog} (h : AllSpelled p.tokens) :
    ∀ v ∈ p.tree.cells, IsWord v.name.value.toList := by
  intro v hv
  rw [p.cells_eq] at hv
  obtain ⟨s, hs, hv⟩ := List.mem_flatMap.1 hv
  have hmem : s.names ∈ p.tree.scopes.map Scope.names := List.mem_map_of_mem hs
  rw [p.map_names_scopes] at hmem
  exact Prog.words h s.names hmem v.name.value (List.mem_map.2 ⟨v, hv, rfl⟩)

end Grammar

open Grammar in
/-- The literals of the function `main` of a program that was scanned are numerals. -/
theorem Program.numerals_main {cs : List (Char × Position)} {tokens : List (Located Token)}
    {p : Program} {main : Function} (hs : Scan.scan cs = .ok tokens)
    (hp : Program.parse tokens = .ok p) (hmain : p.main? = some main) :
    Numerals main.body.literals := by
  obtain ⟨d, rfl, -, rfl⟩ := Program.parse_eq_ok_iff.1 hp
  exact Prog.numerals (Scan.spelled_of_scan hs) main (List.mem_of_find?_eq_some hmain)

end LittleTiny
