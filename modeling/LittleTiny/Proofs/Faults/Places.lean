import LittleTiny.Proofs.Faults

/-!
# Where faults lie

A fault starts where a token of its program starts, although it may reach over several of them: over
the parentheses around a name, or over the value of a RETURN. What is shown of the starts of the
tokens of a derivation (`StartAt`) therefore holds of the starts of its faults.
-/

namespace LittleTiny.Grammar

variable {P : Position → Prop}

/-- All the tokens start at positions with the property. -/
def StartAt (P : Position → Prop) (ts : Tokens) : Prop := ∀ t ∈ ts, P t.location.first

theorem startAt_append {ts us : Tokens} : StartAt P (ts ++ us) ↔ StartAt P ts ∧ StartAt P us :=
  List.forall_mem_append

theorem startAt_cons {t : Located Token} {ts : Tokens} :
    StartAt P (t :: ts) ↔ P t.location.first ∧ StartAt P ts :=
  List.forall_mem_cons

theorem StartAt.of_mem_flatMap {α : Type} {write : α → Tokens} {xs : List α}
    (h : StartAt P (xs.flatMap write)) {x : α} (hx : x ∈ xs) : StartAt P (write x) :=
  fun t ht => h t (List.mem_flatMap.2 ⟨x, hx, ht⟩)

/-- All the faults start at positions with the property. -/
def FaultAt (P : Position → Prop) (marked : Marked) : Prop :=
  ∀ x ∈ marked, ∀ fault ∈ x.2, P fault.location.first

namespace FaultAt

theorem nil : FaultAt P [] := fun _ h => nomatch h

theorem plain (ts : Tokens) : FaultAt P (plain ts) := by
  intro x hx fault hfault
  obtain ⟨t, -, rfl⟩ := List.mem_map.1 hx
  cases hfault

theorem append {a b : Marked} (ha : FaultAt P a) (hb : FaultAt P b) : FaultAt P (a ++ b) :=
  List.forall_mem_append.2 ⟨ha, hb⟩

theorem cons {t : Located Token} {fault? : Option Fault} {marked : Marked}
    (hfault : ∀ fault ∈ fault?, P fault.location.first) (h : FaultAt P marked) :
    FaultAt P ((t, fault?) :: marked) :=
  List.forall_mem_cons.2 ⟨hfault, h⟩

theorem cons_none {t : Located Token} {marked : Marked} (h : FaultAt P marked) :
    FaultAt P ((t, none) :: marked) :=
  cons nofun h

end FaultAt

/-- Whatever is wrong with a name is reported where the name is. -/
theorem Typing.first_of_undeclared? {env : Typing} {name : String} {l : Location} (hl : P l.first) :
    ∀ fault ∈ env.undeclared? name l, P fault.location.first := by
  unfold Typing.undeclared?
  split
  · nofun
  · rintro fault ⟨⟩
    exact hl

theorem Typing.first_of_notNumber? {env : Typing} {name : String} {l : Location} (hl : P l.first) :
    ∀ fault ∈ env.notNumber? name l, P fault.location.first := by
  unfold Typing.notNumber?
  split
  · nofun
  · rintro fault ⟨⟩
    exact hl
  · rintro fault ⟨⟩
    exact hl

/-! ## Expressions -/

theorem location_relocate (e : Expr) (l : Location) : (e.relocate l).location = l := by
  cases e <;> rfl

-- A location that is built up from the left keeps its first position.
theorem Factors.first_tree : ∀ (d : Factors) (lhs : Expr),
    (d.tree lhs).location.first = lhs.location.first
  | .nil, lhs => rfl
  | .cons op operand rest, lhs => by
    rw [Factors.tree, Factors.first_tree rest]
    rfl

theorem Terms.first_tree : ∀ (d : Terms) (lhs : Expr),
    (d.tree lhs).location.first = lhs.location.first
  | .nil, lhs => rfl
  | .cons op operand rest, lhs => by
    rw [Terms.tree, Terms.first_tree rest]
    rfl

theorem Atom.startAt_tree (d : Atom) (h : StartAt P d.tokens) : P d.tree.location.first := by
  cases d with
  | call function opening arguments closing => exact (startAt_cons.1 h).1
  | paren opening inner closing =>
    rw [Atom.tree, enclosed_eq_relocate, location_relocate]
    exact (startAt_cons.1 h).1
  | var name => exact (startAt_cons.1 h).1
  | int digits => exact (startAt_cons.1 h).1
  | float digits => exact (startAt_cons.1 h).1

theorem Sum.startAt_tree (d : Sum) (h : StartAt P d.tokens) : P d.tree.location.first := by
  obtain ⟨⟨first, factors⟩, terms⟩ := d
  rw [Sum.tokens, startAt_append, Product.tokens, startAt_append] at h
  rw [Sum.tree, Terms.first_tree, Product.tree, Factors.first_tree]
  exact first.startAt_tree h.1.1

theorem Terms.within_eq {around : Option Location} {l : Location} {d : Terms}
    (h : l ∈ d.within around) : l ∈ around := by
  cases d with
  | nil => exact h
  | cons => cases h

theorem Factors.within_eq {around : Option Location} {l : Location} {d : Factors}
    (h : l ∈ d.within around) : l ∈ around := by
  cases d with
  | nil => exact h
  | cons => cases h

theorem first_none : ∀ l ∈ (none : Option Location), P l.first := nofun

theorem first_getD {around : Option Location} (haround : ∀ l ∈ around, P l.first) {l : Location}
    (hl : P l.first) : P (around.getD l).first := by
  cases around with
  | none => exact hl
  | some l' => exact haround l' rfl

mutual

theorem Sum.faultAt (env : Typing) : ∀ {around : Option Location} (_ : ∀ l ∈ around, P l.first)
    (d : Sum), StartAt P d.tokens → FaultAt P (d.marked env around)
  | around, haround, .mk first rest, h => by
    rw [Sum.tokens, startAt_append] at h
    exact (first.faultAt env (fun l hl => haround l (Terms.within_eq hl)) h.1).append
      (rest.faultAt env h.2)

theorem Terms.faultAt (env : Typing) : ∀ d : Terms, StartAt P d.tokens → FaultAt P (d.marked env)
  | .nil, h => .nil
  | .cons op operand rest, h => by
    rw [Terms.tokens, startAt_cons, startAt_append] at h
    exact .cons_none ((operand.faultAt env first_none h.2.1).append (rest.faultAt env h.2.2))

theorem Product.faultAt (env : Typing) : ∀ {around : Option Location}
    (_ : ∀ l ∈ around, P l.first) (d : Product), StartAt P d.tokens →
      FaultAt P (d.marked env around)
  | around, haround, .mk first rest, h => by
    rw [Product.tokens, startAt_append] at h
    exact (first.faultAt env (fun l hl => haround l (Factors.within_eq hl)) h.1).append
      (rest.faultAt env h.2)

theorem Factors.faultAt (env : Typing) : ∀ d : Factors, StartAt P d.tokens →
    FaultAt P (d.marked env)
  | .nil, h => .nil
  | .cons op operand rest, h => by
    rw [Factors.tokens, startAt_cons, startAt_append] at h
    exact .cons_none ((operand.faultAt env first_none h.2.1).append (rest.faultAt env h.2.2))

theorem Atom.faultAt (env : Typing) : ∀ {around : Option Location} (_ : ∀ l ∈ around, P l.first)
    (d : Atom), StartAt P d.tokens → FaultAt P (d.marked env around)
  | around, haround, .call function opening arguments closing, h => by
    rw [Atom.tokens, startAt_cons, startAt_cons, startAt_append] at h
    refine .cons ?_ (.cons_none ((arguments.faultAt env h.2.2.1).append (.plain _)))
    rintro fault ⟨⟩
    exact h.1
  | around, haround, .paren opening inner closing, h => by
    rw [Atom.tokens, startAt_cons, startAt_append] at h
    refine .cons_none ((inner.faultAt env ?_ h.2.1).append (.plain _))
    rintro l ⟨⟩
    exact first_getD haround h.1
  | around, haround, .var name, h =>
    .cons (Typing.first_of_notNumber? (first_getD haround (startAt_cons.1 h).1)) .nil
  | around, haround, .int digits, h => .plain _
  | around, haround, .float digits, h => .plain _

theorem Arguments.faultAt (env : Typing) : ∀ d : Arguments, StartAt P d.tokens →
    FaultAt P (d.marked env)
  | .none, h => .nil
  | .some first rest, h => by
    rw [Arguments.tokens, startAt_append] at h
    exact (first.faultAt env first_none h.1).append (rest.faultAt env h.2)

theorem MoreArguments.faultAt (env : Typing) : ∀ d : MoreArguments, StartAt P d.tokens →
    FaultAt P (d.marked env)
  | .nil, h => .nil
  | .cons comma argument rest, h => by
    rw [MoreArguments.tokens, startAt_cons, startAt_append] at h
    exact .cons_none ((argument.faultAt env first_none h.2.1).append (rest.faultAt env h.2.2))

end

/-! ## Statements -/

theorem faultAt_headMarked {env : Typing} {opening closing : Location} {d : Cond}
    (h : StartAt P (headTokens opening d closing)) :
    FaultAt P (headMarked env opening d closing) := by
  rw [headTokens, startAt_cons, startAt_append, Cond.tokens, startAt_append, startAt_cons] at h
  obtain ⟨-, ⟨hlhs, -, hrhs⟩, -⟩ := h
  refine .cons_none (.append ?_ (.plain _))
  exact (d.lhs.faultAt env first_none hlhs).append
    (.cons_none (d.rhs.faultAt env first_none hrhs))

theorem faultAt_listMarked {fault? : String → Location → Option Fault}
    (hfault : ∀ name l, P l.first → ∀ fault ∈ fault? name l, P fault.location.first)
    {opening closing semicolon : Location} {names : Separated (Located String)}
    (h : StartAt P (listTokens opening names closing semicolon)) :
    FaultAt P (listMarked fault? opening names closing semicolon) := by
  rw [listTokens, startAt_cons, startAt_append, Separated.tokens, startAt_append] at h
  obtain ⟨-, ⟨hfirst, hrest⟩, -⟩ := h
  refine .cons_none (.append (.cons (hfault _ _ (startAt_cons.1 hfirst).1) ?_) (.plain _))
  intro x hx
  obtain ⟨name, hname, hx⟩ := List.mem_flatMap.1 hx
  have htokens := startAt_cons.1 (hrest.of_mem_flatMap hname)
  exact FaultAt.cons_none (.cons (hfault _ _ (startAt_cons.1 htokens.2).1) .nil) x hx

mutual

theorem Stmt.faultAt : ∀ (env : Typing) (d : Stmt), StartAt P d.tokens → FaultAt P (d.marked env)
  | env, .assign target becomes value semicolon, h => by
    rw [Stmt.tokens, startAt_cons, startAt_cons, startAt_append] at h
    exact .cons (Typing.first_of_notNumber? h.1)
      (.cons_none ((value.faultAt env first_none h.2.2.1).append (.plain _)))
  | env, .read read opening names closing semicolon, h =>
    .cons_none (faultAt_listMarked (fun _ _ => Typing.first_of_notNumber?) (startAt_cons.1 h).2)
  | env, .write write opening names closing semicolon, h =>
    .cons_none (faultAt_listMarked (fun _ _ => Typing.first_of_undeclared?) (startAt_cons.1 h).2)
  | env, .ifThen if_ opening condition closing body endIf, h => by
    rw [Stmt.tokens, startAt_cons, startAt_append, startAt_append] at h
    exact .cons_none (((faultAt_headMarked h.2.1.1).append
      (body.faultAt env [] h.2.1.2)).append (.plain _))
  | env, .ifElse if_ opening condition closing body else_ alternative endIf, h => by
    rw [Stmt.tokens, startAt_cons, startAt_append, startAt_append, startAt_cons,
      startAt_append] at h
    exact .cons_none (((faultAt_headMarked h.2.1.1).append (body.faultAt env [] h.2.1.2)).append
      (.cons_none ((alternative.faultAt env [] h.2.2.2.1).append (.plain _))))
  | env, .loop while_ opening condition closing body endWhile, h => by
    rw [Stmt.tokens, startAt_cons, startAt_append, startAt_append] at h
    exact .cons_none (((faultAt_headMarked h.2.1.1).append
      (body.faultAt env [] h.2.1.2)).append (.plain _))
  | env, .return_ return_ value semicolon, h => by
    rw [Stmt.tokens, startAt_cons, startAt_append] at h
    refine .cons ?_ ((value.faultAt env first_none h.2.1).append (.plain _))
    rintro fault ⟨⟩
    exact value.startAt_tree h.2.1

theorem Body.faultAt : ∀ (env : Typing) (parameters : List (String × VarType)) (d : Body),
    StartAt P d.tokens → FaultAt P (d.marked env parameters)
  | env, parameters, ⟨decls, stmts⟩, h => by
    rw [Body.tokens, startAt_append] at h
    exact .append (.plain _) (Stmt.faultAtAll _ stmts h.2)

theorem Stmt.faultAtAll : ∀ (env : Typing) (ds : List Stmt), StartAt P (Stmt.tokensAll ds) →
    FaultAt P (Stmt.markedAll env ds)
  | env, [], h => .nil
  | env, d :: ds, h => by
    rw [Stmt.tokensAll, startAt_append] at h
    exact (d.faultAt env h.1).append (Stmt.faultAtAll env ds h.2)

end

/-! ## Programs -/

theorem Func.faultAt (env : Typing) (d : Func) (h : StartAt P d.tokens) :
    FaultAt P (d.marked env) := by
  simp only [Func.tokens, startAt_cons, startAt_append] at h
  obtain ⟨-, -, -, -, -, -, -, hbody, -⟩ := h
  exact .append (.plain _) (.append (d.body.faultAt env _ hbody) (.plain _))

theorem Func.faultAt_markedMain (env : Typing) {ds : List Func}
    (h : StartAt P (ds.flatMap Func.tokens)) : FaultAt P (Func.markedMain env ds) := by
  induction ds with
  | nil => exact .nil
  | cons d ds ih =>
    rw [List.flatMap_cons, startAt_append] at h
    rw [Func.markedMain]
    split
    · exact (d.faultAt env h.1).append (.plain _)
    · exact .append (.plain _) (ih h.2)

/-- A fault of a program starts where one of its tokens does. -/
theorem Prog.faultAt (d : Prog) (h : StartAt P d.tokens) : FaultAt P d.marked := by
  simp only [Prog.tokens, startAt_cons, startAt_append] at h
  obtain ⟨-, -, -, ⟨-, hfunctions⟩, -⟩ := h
  exact .append (.plain _) (.append (Func.faultAt_markedMain _ hfunctions) (.plain _))

end LittleTiny.Grammar
