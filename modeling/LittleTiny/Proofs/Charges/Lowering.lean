import LittleTiny.Proofs.Charges
import LittleTiny.Proofs.Faults.Lowering
import LittleTiny.Proofs.Layout

/-!
# Temporaries and labels are paid for with tokens

Lowering takes a temporary for every operation and every operand, and a label or two for every IF
and WHILE. `demand` counts them on the tree, without the arguments of calls; what lowering takes is
at most that, whether it succeeds or fails (`Lower.CostAtMost`). In the tokens an operation has its
operator, an operand a token of its own, and an IF or a WHILE its word and its parentheses, so that
the demand of a tree is at most the number of its tokens. Together with the scopes, all the numbers
that a compilation gives out are then bounded by the number of tokens, and for fewer than `2 ^ 32`
tokens they stay what they are when they are counted in 32 bits
(`Program.numbers_bounded_by_tokens`).
-/

namespace LittleTiny

open Grammar

/-! ## Generic rules -/

namespace Lower

variable {α β : Type} {k m n : Nat}

/-- The supply that is left, whether lowering succeeds or fails. -/
def left (x : Lower α) (s : Supply) : Supply :=
  match x s with
  | .ok _ s' => s'
  | .error _ s' => s'

/-- Lowering takes at most `n` numbers, whether it succeeds or fails. -/
def CostAtMost (x : Lower α) (n : Nat) : Prop :=
  ∀ s, (x.left s).temps + (x.left s).labels ≤ s.temps + s.labels + n

theorem costAtMost_pure (a : α) : CostAtMost (pure a) 0 := fun _ => Nat.le_refl _

theorem costAtMost_fail (e : SemanticError) (l : Location) :
    CostAtMost (fail e l : Lower α) 0 :=
  fun _ => Nat.le_refl _

theorem costAtMost_freshTemp : CostAtMost freshTemp 1 :=
  fun _ => Nat.le_of_eq (Nat.add_right_comm _ _ _)

theorem costAtMost_freshLabel : CostAtMost freshLabel 1 := fun _ => Nat.le_refl _

theorem CostAtMost.mono {x : Lower α} (h : x.CostAtMost m) (hmn : m ≤ n) : x.CostAtMost n :=
  fun s => Nat.le_trans (h s) (Nat.add_le_add_left hmn _)

theorem CostAtMost.bind {x : Lower α} {f : α → Lower β} (hx : x.CostAtMost m)
    (hf : ∀ a, (f a).CostAtMost n) : (x >>= f).CostAtMost (m + n) := by
  intro s
  have hfirst := hx s
  cases hs : x s with
  | error e s₁ =>
    have hleft : x.left s = s₁ := by rw [left, hs]
    have hbind : (x >>= f).left s = s₁ := by rw [left, bind_eq, EStateM.bind, hs]
    rw [hleft] at hfirst
    rw [hbind]
    omega
  | ok a s₁ =>
    have hleft : x.left s = s₁ := by rw [left, hs]
    have hbind : (x >>= f).left s = (f a).left s₁ := by
      rw [left, bind_eq, EStateM.bind, hs]
      rfl
    have hsecond := hf a s₁
    rw [hleft] at hfirst
    rw [hbind]
    omega

theorem CostAtMost.bind_le {x : Lower α} {f : α → Lower β} (hx : x.CostAtMost m)
    (hf : ∀ a, (f a).CostAtMost n) (h : m + n ≤ k) : (x >>= f).CostAtMost k :=
  (hx.bind hf).mono h

theorem CostAtMost.bind_pure {x : Lower α} (hx : x.CostAtMost n) (f : α → β) :
    (x >>= fun a => pure (f a)).CostAtMost n :=
  hx.bind fun a => costAtMost_pure (f a)

end Lower

open Lower

namespace Scope

theorem costAtMost_resolve (scope : Scope) (name : String) (l : Location) :
    (scope.resolve name l).CostAtMost 0 := by
  unfold resolve
  split
  · exact costAtMost_pure _
  · exact costAtMost_fail _ _

theorem costAtMost_numeric (scope : Scope) (name : String) (l : Location) :
    (scope.numeric name l).CostAtMost 0 := by
  refine (scope.costAtMost_resolve name l).bind_le (n := 0) (fun v => ?_) (Nat.le_refl 0)
  split
  · exact costAtMost_pure _
  · exact costAtMost_fail _ _

end Scope

/-! ## The demand of trees -/

/-- A temporary for every operation, name, numeral and call; the arguments of a call are not looked
at. -/
def Expr.demand : Expr → Nat
  | int _ _ => 1
  | float _ _ => 1
  | var _ _ => 1
  | binary _ lhs rhs _ => 1 + lhs.demand + rhs.demand
  | call _ _ _ => 1

/-- The temporaries that a condition takes. -/
def Condition.demand (c : Condition) : Nat := c.lhs.demand + c.rhs.demand

mutual

/-- The temporaries of the expressions in a statement, and the labels of its blocks. -/
def Statement.demand : Statement → Nat
  | .assign _ value => value.demand
  | .read _ => 0
  | .write _ => 0
  | .ifThen condition body => 1 + condition.demand + body.demand
  | .ifElse condition body alternative =>
    2 + condition.demand + body.demand + alternative.demand
  | .loop condition body => 2 + condition.demand + body.demand
  | .return_ _ => 0

/-- What the statements of a block take. -/
def Block.demand : Block → Nat
  | ⟨_, statements, _⟩ => Statement.demandAll statements

/-- What statements in a row take. -/
def Statement.demandAll : List Statement → Nat
  | [] => 0
  | s :: ss => s.demand + Statement.demandAll ss

end

theorem Expr.costAtMost_lower : ∀ (scope : Scope) (e : Expr), (e.lower scope).CostAtMost e.demand
  | _, int _ _ => costAtMost_freshTemp.bind_pure _
  | _, float _ _ => costAtMost_freshTemp.bind_pure _
  | scope, var name l =>
    costAtMost_freshTemp.bind fun _ => (scope.costAtMost_numeric name l).bind_pure _
  | scope, binary _ lhs rhs _ => by
    refine costAtMost_freshTemp.bind_le (fun _ => (costAtMost_lower scope lhs).bind fun _ =>
      (costAtMost_lower scope rhs).bind_pure _) ?_
    exact Nat.le_of_eq (Nat.add_assoc _ _ _).symm
  | _, call _ _ _ => costAtMost_freshTemp.bind fun _ => costAtMost_fail _ _

theorem Condition.costAtMost_lower (scope : Scope) (c : Condition) (target : Label) :
    (c.lower scope target).CostAtMost c.demand :=
  (Expr.costAtMost_lower scope c.lhs).bind fun _ => (Expr.costAtMost_lower scope c.rhs).bind_pure _

namespace Statement

theorem costAtMost_lowerReads (scope : Scope) (names : List (Located String)) :
    (lowerReads scope names).CostAtMost 0 := by
  induction names with
  | nil => exact costAtMost_pure _
  | cons name names ih =>
    exact (scope.costAtMost_numeric name.value name.location).bind fun _ => ih.bind_pure _

theorem costAtMost_lowerWrites (scope : Scope) (names : List (Located String)) :
    (lowerWrites scope names).CostAtMost 0 := by
  induction names with
  | nil => exact costAtMost_pure _
  | cons name names ih =>
    exact (scope.costAtMost_resolve name.value name.location).bind fun _ => ih.bind_pure _

end Statement

mutual

theorem Statement.costAtMost_lower : ∀ (scope : Scope) (s : Statement),
    (s.lower scope).CostAtMost s.demand
  | scope, .assign target value =>
    (scope.costAtMost_numeric target.value target.location).bind_le
      (fun _ => (value.costAtMost_lower scope).bind_pure _) (Nat.le_of_eq (Nat.zero_add _))
  | scope, .read names => Statement.costAtMost_lowerReads scope names
  | scope, .write names => Statement.costAtMost_lowerWrites scope names
  | scope, .ifThen condition body => by
    refine costAtMost_freshLabel.bind_le (fun exit => (condition.costAtMost_lower scope exit).bind
      fun _ => body.costAtMost_lower.bind_pure _) ?_
    rw [Statement.demand]
    omega
  | scope, .ifElse condition body alternative => by
    refine costAtMost_freshLabel.bind_le (fun other => costAtMost_freshLabel.bind fun exit =>
      (condition.costAtMost_lower scope other).bind fun _ => body.costAtMost_lower.bind fun _ =>
        alternative.costAtMost_lower.bind_pure _) ?_
    rw [Statement.demand]
    omega
  | scope, .loop condition body => by
    refine costAtMost_freshLabel.bind_le (fun _ => costAtMost_freshLabel.bind fun exit =>
      (condition.costAtMost_lower scope exit).bind fun _ => body.costAtMost_lower.bind_pure _) ?_
    rw [Statement.demand]
    omega
  | _, .return_ _ => costAtMost_fail _ _

theorem Block.costAtMost_lower : ∀ b : Block, b.lower.CostAtMost b.demand
  | ⟨_, statements, scope⟩ => (Statement.costAtMost_lowerAll scope statements).bind_pure _

theorem Statement.costAtMost_lowerAll : ∀ (scope : Scope) (ss : List Statement),
    (Statement.lowerAll scope ss).CostAtMost (Statement.demandAll ss)
  | _, [] => costAtMost_pure _
  | scope, s :: ss =>
    (Statement.costAtMost_lower scope s).bind fun _ =>
      (Statement.costAtMost_lowerAll scope ss).bind_pure _

end

/-- Only the first function named `main` is paid for. -/
theorem Program.costAtMost_lowerMain (p : Program) :
    p.lowerMain.CostAtMost (p.main?.elim 0 fun f => f.body.demand) := by
  unfold lowerMain
  split
  · next main hmain =>
    rw [hmain]
    exact main.body.costAtMost_lower.bind_pure _
  · exact (costAtMost_fail _ _).mono (Nat.zero_le _)

/-! ## The demand of derivations -/

theorem Expr.demand_relocate (e : Expr) (l : Location) : (e.relocate l).demand = e.demand := by
  cases e <;> rfl

namespace Grammar

mutual

theorem Sum.demand_le : ∀ d : Sum, d.tree.demand ≤ d.tokens.length
  | .mk first rest => by
    have hfirst := first.demand_le
    have hrest := rest.demand_le first.tree
    rw [Sum.tree, Sum.tokens, List.length_append]
    omega

/-- Each term has its operator in addition to its operand. -/
theorem Terms.demand_le : ∀ (d : Terms) (lhs : Expr),
    (d.tree lhs).demand ≤ lhs.demand + d.tokens.length
  | .nil, lhs => Nat.le_refl _
  | .cons op operand rest, lhs => by
    have hoperand := operand.demand_le
    have hrest := rest.demand_le (.binary op.value.op lhs operand.tree
      ⟨lhs.location.first, operand.tree.location.last⟩)
    -- The operation that is built takes a temporary in addition to those of its operands.
    rw [Expr.demand] at hrest
    rw [Terms.tree, Terms.tokens, List.length_cons, List.length_append]
    exact Nat.le_trans hrest (by omega)

theorem Product.demand_le : ∀ d : Product, d.tree.demand ≤ d.tokens.length
  | .mk first rest => by
    have hfirst := first.demand_le
    have hrest := rest.demand_le first.tree
    rw [Product.tree, Product.tokens, List.length_append]
    omega

theorem Factors.demand_le : ∀ (d : Factors) (lhs : Expr),
    (d.tree lhs).demand ≤ lhs.demand + d.tokens.length
  | .nil, lhs => Nat.le_refl _
  | .cons op operand rest, lhs => by
    have hoperand := operand.demand_le
    have hrest := rest.demand_le (.binary op.value.op lhs operand.tree
      ⟨lhs.location.first, operand.tree.location.last⟩)
    rw [Expr.demand] at hrest
    rw [Factors.tree, Factors.tokens, List.length_cons, List.length_append]
    exact Nat.le_trans hrest (by omega)

theorem Atom.demand_le : ∀ d : Atom, d.tree.demand ≤ d.tokens.length
  | .call function opening arguments closing => Nat.le_add_left 1 _
  | .paren opening inner closing => by
    have hinner := inner.demand_le
    rw [Atom.tree, enclosed_eq_relocate, Expr.demand_relocate, Atom.tokens, List.length_cons,
      List.length_append]
    omega
  | .var name => Nat.le_refl 1
  | .int digits => Nat.le_refl 1
  | .float digits => Nat.le_refl 1

end

/-- The parentheses and the comparison are left over. -/
theorem length_headTokens (opening : Location) (c : Cond) (closing : Location) :
    c.tree.demand + 3 ≤ (headTokens opening c closing).length := by
  have hlhs := c.lhs.demand_le
  have hrhs := c.rhs.demand_le
  simp only [Condition.demand, Cond.tree, headTokens, Cond.tokens, List.length_cons,
    List.length_append, List.length_nil]
  omega

mutual

theorem Stmt.demand_le : ∀ (d : Stmt) (scope : Scope) (n : Nat),
    (d.tree scope n).demand ≤ d.tokens.length
  | .assign target becomes value semicolon, scope, n => by
    have hvalue := value.demand_le
    rw [Stmt.tree, Statement.demand, Stmt.tokens, List.length_cons, List.length_cons,
      List.length_append]
    omega
  | .read .., scope, n => Nat.zero_le _
  | .write .., scope, n => Nat.zero_le _
  | .ifThen if_ opening condition closing body endIf, scope, n => by
    have hhead := length_headTokens opening condition closing
    have hbody := body.demand_le (scope.nested (n + 1)) (n + 1)
    simp only [Stmt.tree, Statement.demand, Stmt.tokens, List.length_cons, List.length_append]
    omega
  | .ifElse if_ opening condition closing body else_ alternative endIf, scope, n => by
    -- The two labels are paid for by what the condition leaves over.
    have hhead := length_headTokens opening condition closing
    have hbody := body.demand_le (scope.nested (n + 1)) (n + 1)
    have halternative := alternative.demand_le (scope.nested (n + 1 + body.openings + 1))
      (n + 1 + body.openings + 1)
    simp only [Stmt.tree, Statement.demand, Stmt.tokens, List.length_cons, List.length_append]
    omega
  | .loop while_ opening condition closing body endWhile, scope, n => by
    have hhead := length_headTokens opening condition closing
    have hbody := body.demand_le (scope.nested (n + 1)) (n + 1)
    simp only [Stmt.tree, Statement.demand, Stmt.tokens, List.length_cons, List.length_append]
    omega
  | .return_ .., scope, n => Nat.zero_le _

theorem Body.demand_le : ∀ (b : Body) (scope : Scope) (n : Nat),
    (b.tree scope n).demand ≤ b.tokens.length
  | ⟨decls, stmts⟩, scope, n => by
    have hstmts := Stmt.demandAll_le stmts (scope.add (Decl.declared scope.id decls)) n
    rw [Body.tree, Block.demand, Body.tokens, List.length_append]
    exact Nat.le_trans hstmts (Nat.le_add_left _ _)

theorem Stmt.demandAll_le : ∀ (ds : List Stmt) (scope : Scope) (n : Nat),
    Statement.demandAll (Stmt.trees scope n ds) ≤ (Stmt.tokensAll ds).length
  | [], scope, n => Nat.le_refl 0
  | d :: ds, scope, n => by
    rw [Stmt.trees, Statement.demandAll, Stmt.tokensAll, List.length_append]
    exact Nat.add_le_add (d.demand_le scope n) (Stmt.demandAll_le ds scope (n + d.openings))

end

theorem Func.demand_le (f : Func) (outer : Scope) (n : Nat) :
    (f.tree outer n).body.demand ≤ f.tokens.length := by
  have hbody := f.body.demand_le (f.scope outer (n + 1)) (n + 1)
  simp only [Func.tree, Func.tokens, List.length_cons, List.length_append]
  omega

/-- The tokens of `main` are among those of the program. -/
theorem Prog.demand_main_le (d : Prog) :
    (d.tree.main?.elim 0 fun f => f.body.demand) ≤ d.tokens.length := by
  cases hmain : d.tree.main? with
  | none => exact Nat.zero_le _
  | some main =>
    obtain ⟨f, hf, n, rfl⟩ := Func.exists_of_mem_trees (List.mem_of_find?_eq_some hmain)
    have hmember : f.tokens.length ≤ (d.functions.flatMap Func.tokens).length :=
      (List.sublist_flatten_of_mem (List.mem_map_of_mem hf)).length_le
    have hdemand := f.demand_le d.scope n
    simp only [Option.elim_some, Prog.tokens, List.length_cons, List.length_append]
    omega

end Grammar

/-! ## Programs -/

/-- The temporaries and labels that are taken for a program, up to its end or to the first fault. -/
def Program.taken (p : Program) : Supply := p.lowerMain.left {}

theorem Program.taken_eq_of_makes {p : Program} {code : Code} {s : Supply}
    (h : Makes p.lowerMain {} code s) : p.taken = s := by
  have hrun : p.lowerMain {} = .ok code s := h
  rw [taken, left, hrun]

theorem Program.taken_le_length {tokens : List (Located Token)} {p : Program}
    (h : parse tokens = .ok p) : p.taken.temps + p.taken.labels ≤ tokens.length := by
  obtain ⟨d, rfl, -, rfl⟩ := parse_eq_ok_iff.1 h
  have hcost : _ ≤ 0 + 0 + _ := d.tree.costAtMost_lowerMain {}
  rw [Nat.zero_add] at hcost
  exact Nat.le_trans hcost d.demand_main_le

/-- The numbers that are taken are those in the code, each once. -/
theorem Program.perm_numbers {tokens : List (Located Token)} {p : Program} {code : Code}
    (hp : parse tokens = .ok p) (hcode : p.lower = .ok code) :
    (code.flatMap Instruction.sets).Perm (List.range p.taken.temps) ∧
      (code.flatMap Instruction.marks).Perm (List.range p.taken.labels) := by
  obtain ⟨s, hrun⟩ := lower_eq_ok_iff.1 hcode
  obtain ⟨main, body, h⟩ := exists_loweredTo_of_makes hp hrun
  have hsets := h.lowered.covers_sets.perm
  have hmarks := h.lowered.covers_marks.perm
  rw [← h.flatMap_eq fun _ => rfl, ← taken_eq_of_makes hrun] at hsets hmarks
  have hrange : ∀ n, List.Ico 0 n = List.range n := List.Ico.zero_bot
  exact ⟨hrange _ ▸ hsets, hrange _ ▸ hmarks⟩

/-! ## Counting in 32 bits -/

/-- A counter of 32 bits that has been increased `n` times. -/
def counted : Nat → UInt32
  | 0 => 0
  | n + 1 => counted n + 1

theorem toNat_counted (n : Nat) : (counted n).toNat = n % UInt32.size := by
  induction n with
  | zero => rfl
  | succ n ih =>
    rw [counted, UInt32.toNat_add, ih, UInt32.toNat_one]
    exact Nat.mod_add_mod n UInt32.size 1

/-- A counter of 32 bits that is increased `n` times does not wrap. -/
def Unwrapped (n : Nat) : Prop := ∀ k ≤ n, (counted k).toNat = k

theorem unwrapped_of_lt {n : Nat} (h : n < UInt32.size) : Unwrapped n := by
  intro k hk
  rw [toNat_counted, Nat.mod_eq_of_lt (Nat.lt_of_le_of_lt hk h)]

/-- Different numbers stay different as long as the counter has not wrapped. -/
theorem Unwrapped.nodup_map {m n : Nat} {ns : List Nat} (h : Unwrapped n) (hmn : m ≤ n + 1)
    (hns : ns.Perm (List.range m)) : (ns.map counted).Nodup := by
  have hle : ∀ k ∈ ns, k ≤ n := by
    intro k hk
    have hlt := List.mem_range.1 (hns.mem_iff.1 hk)
    omega
  refine (hns.nodup_iff.2 List.nodup_range).map_on fun j hj k hk heq => ?_
  rw [← h j (hle j hj), ← h k (hle k hk), heq]

/-- The numbers that a compilation gives out are never more than there are tokens: the scopes, read
to the end or not, and the temporaries and labels together, lowered to the end or not. They are the
numbers of the scopes in the tree and of the temporaries and labels in the code. So for fewer than
`2 ^ 32` tokens no counter of 32 bits wraps, and counted in 32 bits these are different. -/
theorem Program.numbers_bounded_by_tokens (tokens : List (Located Token)) :
    opened tokens ≤ tokens.length ∧
      (∀ p, parse tokens = .ok p →
        p.scopes.map Scope.id = List.range (opened tokens + 1) ∧
          p.taken.temps + p.taken.labels ≤ tokens.length ∧
          ∀ code, p.lower = .ok code →
            (code.flatMap Instruction.sets).Perm (List.range p.taken.temps) ∧
              (code.flatMap Instruction.marks).Perm (List.range p.taken.labels)) ∧
      (tokens.length < UInt32.size →
        Unwrapped (opened tokens) ∧
          ∀ p, parse tokens = .ok p →
            ((p.scopes.map Scope.id).map counted).Nodup ∧
              Unwrapped p.taken.temps ∧ Unwrapped p.taken.labels ∧
              ∀ code, p.lower = .ok code →
                ((code.flatMap Instruction.sets).map counted).Nodup ∧
                  ((code.flatMap Instruction.marks).map counted).Nodup) := by
  refine ⟨opened_le_length tokens, fun p hp =>
    ⟨map_id_scopes_of_parse hp, taken_le_length hp, fun code => perm_numbers hp⟩, fun hlt => ?_⟩
  have hopened := unwrapped_of_lt (Nat.lt_of_le_of_lt (opened_le_length tokens) hlt)
  refine ⟨hopened, fun p hp => ?_⟩
  have htaken := taken_le_length hp
  have htemps : Unwrapped p.taken.temps := unwrapped_of_lt (by omega)
  have hlabels : Unwrapped p.taken.labels := unwrapped_of_lt (by omega)
  refine ⟨hopened.nodup_map (Nat.le_refl _) (.of_eq (map_id_scopes_of_parse hp)), htemps, hlabels,
    fun code hcode => ?_⟩
  obtain ⟨hsets, hmarks⟩ := perm_numbers hp hcode
  exact ⟨htemps.nodup_map (Nat.le_succ _) hsets, hlabels.nodup_map (Nat.le_succ _) hmarks⟩

theorem Program.numbers_bounded_by_tokens_descent :
    ∃ code, parse descent.tokens = .ok descent.tree ∧ descent.tree.lower = .ok code ∧
      descent.tokens.length = 41 ∧ opened descent.tokens = 4 ∧ descent.tree.taken = ⟨10, 4⟩ ∧
      (([0, 1, 2, 3, 4] : List Nat).map counted).Nodup ∧
      ((code.flatMap Instruction.sets).map counted).Nodup ∧
      ((code.flatMap Instruction.marks).map counted).Nodup := by
  have hp : parse descent.tokens = .ok descent.tree :=
    parse_eq_ok_iff.2 ⟨descent, rfl, by decide, rfl⟩
  obtain ⟨-, hnumbers, hwords⟩ := numbers_bounded_by_tokens descent.tokens
  have hlength := congrArg List.length (hnumbers descent.tree hp).1
  rw [List.length_range] at hlength
  obtain ⟨-, hdistinct⟩ := hwords (by decide)
  obtain ⟨hscopes, -, -, hcode⟩ := hdistinct descent.tree hp
  obtain ⟨hsets, hmarks⟩ := hcode _ rfl
  exact ⟨_, hp, rfl, rfl, (Nat.succ.inj hlength).symm, rfl, hscopes, hsets, hmarks⟩

end LittleTiny
