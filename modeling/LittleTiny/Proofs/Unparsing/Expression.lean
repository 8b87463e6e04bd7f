import LittleTiny.Proofs.Outline.Rescope

/-!
# Reading expressions that have been unparsed

`Expr.unparse` writes an expression as tokens. An operand stands in parentheses if it is an
operation that binds less tightly than its place asks for: a sum in a product, and on the right also
an operation of the same level. `Expr.Writes` allows more parentheses, around any expression and any
number of them; none of its ways has fewer tokens (`Expr.Writes.length_le`). All of them have
derivations that stand for the expression (`Expr.Writes.derives`).
-/

namespace LittleTiny

open Grammar

namespace ArithOp

/-- How tightly an operation binds: sums less than products. -/
def level : ArithOp → Nat
  | add => 0
  | sub => 0
  | mul => 1
  | div => 1

end ArithOp

/-- The tokens in parentheses. -/
def inParens (ts : List Token) : List Token :=
  .operator .openParen :: (ts ++ [.operator .closeParen])

namespace Expr

mutual

/-- The tokens of an expression at a place for operations of the given level and tighter ones. -/
def unparse (level : Nat) : Expr → List Token
  | int digits _ => [.intLiteral digits]
  | float digits _ => [.floatLiteral digits]
  | var name _ => [.identifier name]
  | binary op lhs rhs _ =>
    let tokens := unparse op.level lhs ++ .operator op.operator :: unparse (op.level + 1) rhs
    if level ≤ op.level then tokens else inParens tokens
  | call function arguments _ => .identifier function.value :: inParens (unparseAll arguments)

/-- The tokens of arguments with commas between them. -/
def unparseAll : List Expr → List Token
  | [] => []
  | e :: es => unparse 0 e ++ unparseMore es

/-- The tokens of the arguments behind the first. -/
def unparseMore : List Expr → List Token
  | [] => []
  | e :: es => .operator .comma :: (unparse 0 e ++ unparseMore es)

end

mutual

/-- The tokens, wherever they are, write the expression at a place for operations of the given level
and tighter ones. Parentheses may stand around any expression. -/
inductive Writes : Nat → Expr → Tokens → Prop
  | int {k : Nat} {digits : String} {l : Location} (place : Location) :
      Writes k (int digits l) [⟨.intLiteral digits, place⟩]
  | float {k : Nat} {digits : String} {l : Location} (place : Location) :
      Writes k (float digits l) [⟨.floatLiteral digits, place⟩]
  | var {k : Nat} {name : String} {l : Location} (place : Location) :
      Writes k (var name l) [⟨.identifier name, place⟩]
  | binary {k : Nat} {op : ArithOp} {lhs rhs : Expr} {l : Location} {ts ts' : Tokens}
      (place : Location) (hk : k ≤ op.level) (hl : Writes op.level lhs ts)
      (hr : Writes (op.level + 1) rhs ts') :
      Writes k (binary op lhs rhs l) (ts ++ sign op.operator place :: ts')
  | call {k : Nat} {function : Located String} {arguments : List Expr} {l : Location} {ts : Tokens}
      (place opening closing : Location) (h : WritesAll arguments ts) :
      Writes k (call function arguments l)
        (⟨.identifier function.value, place⟩ :: sign .openParen opening ::
          (ts ++ [sign .closeParen closing]))
  | paren {k : Nat} {e : Expr} {ts : Tokens} (opening closing : Location) (h : Writes 0 e ts) :
      Writes k e (sign .openParen opening :: (ts ++ [sign .closeParen closing]))

/-- The tokens write the arguments of a call. -/
inductive WritesAll : List Expr → Tokens → Prop
  | nil : WritesAll [] []
  | cons {e : Expr} {es : List Expr} {ts ts' : Tokens} (h : Writes 0 e ts)
      (hs : WritesMore es ts') : WritesAll (e :: es) (ts ++ ts')

/-- The tokens write the arguments behind the first one, each with its comma. -/
inductive WritesMore : List Expr → Tokens → Prop
  | nil : WritesMore [] []
  | cons {e : Expr} {es : List Expr} {ts ts' : Tokens} (comma : Location) (h : Writes 0 e ts)
      (hs : WritesMore es ts') : WritesMore (e :: es) (sign .comma comma :: (ts ++ ts'))

end

/-- Parentheses add two tokens. -/
theorem length_unparse_le (k : Nat) (e : Expr) :
    (e.unparse k).length ≤ (e.unparse 0).length + 2 := by
  cases e with
  | binary op lhs rhs l =>
    simp only [unparse, Nat.zero_le, if_true]
    split
    · omega
    · simp only [inParens, List.length_append, List.length_cons, List.length_nil]
      omega
  | _ => simp [unparse]

mutual

/-- No way to write an expression has fewer tokens than `unparse`. -/
theorem Writes.length_le : ∀ {k : Nat} {e : Expr} {ts : Tokens}, e.Writes k ts →
    (e.unparse k).length ≤ ts.length
  | _, _, _, .int _ => by simp [unparse]
  | _, _, _, .float _ => by simp [unparse]
  | _, _, _, .var _ => by simp [unparse]
  | _, _, _, .binary _ hk hl hr => by
    have hleft := hl.length_le
    have hright := hr.length_le
    simp only [unparse, if_pos hk, List.length_append, List.length_cons]
    omega
  | _, _, _, .call _ _ _ h => by
    have harguments := h.length_le
    simp only [unparse, inParens, List.length_append, List.length_cons, List.length_nil]
    omega
  | k, e, _, .paren _ _ h => by
    have hinner := h.length_le
    have hparens := e.length_unparse_le k
    simp only [List.length_append, List.length_cons, List.length_nil]
    omega

theorem WritesAll.length_le : ∀ {es : List Expr} {ts : Tokens}, WritesAll es ts →
    (unparseAll es).length ≤ ts.length
  | _, _, .nil => Nat.le_refl _
  | _, _, .cons h hs => by
    have hfirst := h.length_le
    have hmore := hs.length_le
    simp only [unparseAll, List.length_append]
    omega

theorem WritesMore.length_le : ∀ {es : List Expr} {ts : Tokens}, WritesMore es ts →
    (unparseMore es).length ≤ ts.length
  | _, _, .nil => Nat.le_refl _
  | _, _, .cons _ h hs => by
    have hfirst := h.length_le
    have hmore := hs.length_le
    simp only [unparseMore, List.length_append, List.length_cons]
    omega

end

/-- A list of tokens with the given values begins and ends with parentheses if the values do. -/
theorem exists_of_map_eq_inParens {tokens : Tokens} {ts : List Token}
    (h : tokens.map Located.value = inParens ts) :
    ∃ opening inner closing,
      tokens = sign .openParen opening :: (inner ++ [sign .closeParen closing]) ∧
        inner.map Located.value = ts := by
  obtain ⟨⟨t, opening⟩, rest, rfl, rfl, hrest⟩ := List.map_eq_cons_iff.1 h
  obtain ⟨inner, last, rfl, hinner, hlast⟩ := List.map_eq_append_iff.1 hrest
  obtain ⟨⟨t, closing⟩, rfl, rfl⟩ := List.map_eq_singleton_iff.1 hlast
  exact ⟨opening, inner, closing, rfl, hinner⟩

mutual

/-- The tokens of `unparse` write the expression. -/
theorem writes_of_unparse : ∀ (k : Nat) (e : Expr) (tokens : Tokens),
    tokens.map Located.value = e.unparse k → e.Writes k tokens
  | k, int digits _, tokens, h => by
    obtain ⟨⟨t, place⟩, rfl, rfl⟩ := List.map_eq_singleton_iff.1 h
    exact .int place
  | k, float digits _, tokens, h => by
    obtain ⟨⟨t, place⟩, rfl, rfl⟩ := List.map_eq_singleton_iff.1 h
    exact .float place
  | k, var name _, tokens, h => by
    obtain ⟨⟨t, place⟩, rfl, rfl⟩ := List.map_eq_singleton_iff.1 h
    exact .var place
  | k, binary op lhs rhs l, tokens, h => by
    -- The operation without parentheses, at any place that does not ask for them.
    have hbare : ∀ {j : Nat} {ts : Tokens}, j ≤ op.level → ts.map Located.value =
        lhs.unparse op.level ++ .operator op.operator :: rhs.unparse (op.level + 1) →
        (binary op lhs rhs l).Writes j ts := by
      intro j ts hj hts
      obtain ⟨left, rest, rfl, hleft, hrest⟩ := List.map_eq_append_iff.1 hts
      obtain ⟨⟨t, place⟩, right, rfl, rfl, hright⟩ := List.map_eq_cons_iff.1 hrest
      exact .binary place hj (writes_of_unparse _ lhs left hleft)
        (writes_of_unparse _ rhs right hright)
    simp only [unparse] at h
    split at h
    · next hk => exact hbare hk h
    · obtain ⟨opening, inner, closing, rfl, hinner⟩ := exists_of_map_eq_inParens h
      exact .paren opening closing (hbare (Nat.zero_le _) hinner)
  | k, call function arguments _, tokens, h => by
    obtain ⟨⟨t, place⟩, rest, rfl, rfl, hrest⟩ := List.map_eq_cons_iff.1 h
    obtain ⟨opening, inner, closing, rfl, hinner⟩ := exists_of_map_eq_inParens hrest
    exact .call place opening closing (writesAll_of_unparse arguments inner hinner)

theorem writesAll_of_unparse : ∀ (es : List Expr) (tokens : Tokens),
    tokens.map Located.value = unparseAll es → WritesAll es tokens
  | [], tokens, h => by
    obtain rfl := List.map_eq_nil_iff.1 h
    exact .nil
  | e :: es, tokens, h => by
    obtain ⟨first, more, rfl, hfirst, hmore⟩ := List.map_eq_append_iff.1 h
    exact .cons (writes_of_unparse 0 e first hfirst) (writesMore_of_unparse es more hmore)

theorem writesMore_of_unparse : ∀ (es : List Expr) (tokens : Tokens),
    tokens.map Located.value = unparseMore es → WritesMore es tokens
  | [], tokens, h => by
    obtain rfl := List.map_eq_nil_iff.1 h
    exact .nil
  | e :: es, tokens, h => by
    obtain ⟨⟨t, comma⟩, rest, rfl, rfl, hrest⟩ := List.map_eq_cons_iff.1 h
    obtain ⟨first, more, rfl, hfirst, hmore⟩ := List.map_eq_append_iff.1 hrest
    exact .cons comma (writes_of_unparse 0 e first hfirst) (writesMore_of_unparse es more hmore)

end

end Expr

/-! ## Derivations -/

namespace Grammar

/-- One more term behind a sum. -/
def Terms.snoc (op : Located Additive) (operand : Product) : Terms → Terms
  | .nil => .cons op operand .nil
  | .cons op' operand' rest => .cons op' operand' (rest.snoc op operand)

/-- One more factor behind a product. -/
def Factors.snoc (op : Located Multiplicative) (operand : Atom) : Factors → Factors
  | .nil => .cons op operand .nil
  | .cons op' operand' rest => .cons op' operand' (rest.snoc op operand)

theorem Terms.tokens_snoc : ∀ (d : Terms) (op : Located Additive) (operand : Product),
    (d.snoc op operand).tokens =
      d.tokens ++ sign op.value.operator op.location :: operand.tokens
  | .nil, _, _ => by simp [Terms.snoc, Terms.tokens]
  | .cons _ _ rest, _, _ => by simp [Terms.snoc, Terms.tokens, rest.tokens_snoc]

/-- The last term is added to all that stands before it. -/
theorem Terms.tree_snoc (op : Located Additive) (operand : Product) :
    ∀ (d : Terms) (lhs : Expr),
      (d.snoc op operand).tree lhs = .binary op.value.op (d.tree lhs) operand.tree
        ⟨(d.tree lhs).location.first, operand.tree.location.last⟩
  | .nil, _ => rfl
  | .cons _ _ rest, _ => Terms.tree_snoc op operand rest _

theorem Factors.tokens_snoc : ∀ (d : Factors) (op : Located Multiplicative) (operand : Atom),
    (d.snoc op operand).tokens =
      d.tokens ++ sign op.value.operator op.location :: operand.tokens
  | .nil, _, _ => by simp [Factors.snoc, Factors.tokens]
  | .cons _ _ rest, _, _ => by simp [Factors.snoc, Factors.tokens, rest.tokens_snoc]

theorem Factors.tree_snoc (op : Located Multiplicative) (operand : Atom) :
    ∀ (d : Factors) (lhs : Expr),
      (d.snoc op operand).tree lhs = .binary op.value.op (d.tree lhs) operand.tree
        ⟨(d.tree lhs).location.first, operand.tree.location.last⟩
  | .nil, _ => rfl
  | .cons _ _ rest, _ => Factors.tree_snoc op operand rest _

/-- The tokens have a derivation for the expression, as a sum, as a product or as an atom. -/
def Derives (e : Expr) (ts : Tokens) : Nat → Prop
  | 0 => ∃ d : Sum, d.tokens = ts ∧ d.tree.erase = e.erase
  | 1 => ∃ d : Product, d.tokens = ts ∧ d.tree.erase = e.erase
  | _ + 2 => ∃ d : Atom, d.tokens = ts ∧ d.tree.erase = e.erase

section

variable {e : Expr} {ts : Tokens}

/-- A product is a sum of one term, and an atom a product of one factor. -/
theorem Derives.of_succ {k : Nat} (h : Derives e ts (k + 1)) : Derives e ts k := by
  match k with
  | 0 =>
    obtain ⟨d, rfl, hd⟩ := h
    exact ⟨.mk d .nil, by simp [Sum.tokens, Terms.tokens], hd⟩
  | 1 =>
    obtain ⟨d, rfl, hd⟩ := h
    exact ⟨.mk d .nil, by simp [Product.tokens, Factors.tokens], hd⟩
  | _ + 2 => exact h

/-- What can stand at a place can also stand where less is asked for. -/
theorem Derives.of_le {j k : Nat} (hjk : j ≤ k) (h : Derives e ts k) : Derives e ts j := by
  induction hjk with
  | refl => exact h
  | step _ ih => exact ih h.of_succ

theorem Derives.of_atom (d : Atom) (k : Nat) (htokens : d.tokens = ts)
    (htree : d.tree.erase = e.erase) : Derives e ts k :=
  Derives.of_le (Nat.le_add_right k 2) ⟨d, htokens, htree⟩

end

section

variable {lhs rhs : Expr} {ts ts' : Tokens} (l place : Location)

theorem Derives.sum (op : Additive) (hl : Derives lhs ts 0) (hr : Derives rhs ts' 1) :
    Derives (.binary op.op lhs rhs l) (ts ++ sign op.operator place :: ts') 0 := by
  obtain ⟨⟨first, rest⟩, rfl, hlhs⟩ := hl
  obtain ⟨operand, rfl, hrhs⟩ := hr
  rw [Sum.tree] at hlhs
  refine ⟨.mk first (rest.snoc ⟨op, place⟩ operand), ?_, ?_⟩
  · simp [Sum.tokens, Terms.tokens_snoc]
  · rw [Sum.tree, Terms.tree_snoc, Expr.erase, hlhs, hrhs, Expr.erase]

theorem Derives.product (op : Multiplicative) (hl : Derives lhs ts 1) (hr : Derives rhs ts' 2) :
    Derives (.binary op.op lhs rhs l) (ts ++ sign op.operator place :: ts') 1 := by
  obtain ⟨⟨first, rest⟩, rfl, hlhs⟩ := hl
  obtain ⟨operand, rfl, hrhs⟩ := hr
  rw [Product.tree] at hlhs
  refine ⟨.mk first (rest.snoc ⟨op, place⟩ operand), ?_, ?_⟩
  · simp [Product.tokens, Factors.tokens_snoc]
  · rw [Product.tree, Factors.tree_snoc, Expr.erase, hlhs, hrhs, Expr.erase]

/-- An operation on a sum and a product, or on a product and an atom. -/
theorem Derives.binary {op : ArithOp} (hl : Derives lhs ts op.level)
    (hr : Derives rhs ts' (op.level + 1)) :
    Derives (.binary op lhs rhs l) (ts ++ sign op.operator place :: ts') op.level := by
  cases op with
  | add => exact .sum l place .plus hl hr
  | sub => exact .sum l place .minus hl hr
  | mul => exact .product l place .times hl hr
  | div => exact .product l place .divide hl hr

end

end Grammar

namespace Expr

mutual

/-- Written expressions have derivations. -/
theorem Writes.derives : ∀ {k : Nat} {e : Expr} {ts : Tokens}, e.Writes k ts → Derives e ts k
  | k, int digits _, _, .int place => .of_atom (.int ⟨digits, place⟩) k rfl rfl
  | k, float digits _, _, .float place => .of_atom (.float ⟨digits, place⟩) k rfl rfl
  | k, var name _, _, .var place => .of_atom (.var ⟨name, place⟩) k rfl rfl
  | k, _, _, .binary place hk hl hr => .of_le hk (Derives.binary _ place hl.derives hr.derives)
  | k, call function _ _, _, .call place opening closing h => by
    obtain ⟨arguments, rfl, harguments⟩ := h.derives
    refine .of_atom (.call ⟨function.value, place⟩ opening arguments closing) k rfl ?_
    simp only [Atom.tree, erase, harguments]
    rfl
  | k, _, _, .paren opening closing h => by
    obtain ⟨d, rfl, hd⟩ := h.derives
    refine .of_atom (.paren opening d closing) k rfl ?_
    rw [Atom.tree, enclosed_eq_relocate, erase_relocate, hd]

theorem WritesAll.derives : ∀ {es : List Expr} {ts : Tokens}, WritesAll es ts →
    ∃ d : Arguments, d.tokens = ts ∧ eraseAll d.trees = eraseAll es
  | _, _, .nil => ⟨.none, rfl, rfl⟩
  | _, _, .cons h hs => by
    obtain ⟨first, rfl, hfirst⟩ := h.derives
    obtain ⟨rest, rfl, hrest⟩ := hs.derives
    refine ⟨.some first rest, rfl, ?_⟩
    rw [Arguments.trees, eraseAll, eraseAll, hfirst, hrest]

theorem WritesMore.derives : ∀ {es : List Expr} {ts : Tokens}, WritesMore es ts →
    ∃ d : MoreArguments, d.tokens = ts ∧ eraseAll d.trees = eraseAll es
  | _, _, .nil => ⟨.nil, rfl, rfl⟩
  | _, _, .cons comma h hs => by
    obtain ⟨first, rfl, hfirst⟩ := h.derives
    obtain ⟨rest, rfl, hrest⟩ := hs.derives
    refine ⟨.cons comma first rest, rfl, ?_⟩
    rw [MoreArguments.trees, eraseAll, eraseAll, hfirst, hrest]

end

end Expr

end LittleTiny
