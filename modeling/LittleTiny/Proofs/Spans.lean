import LittleTiny.Proofs.Nodes
import LittleTiny.Proofs.Unparsing.Expression

/-!
# Ranges of tokens

`Stands` says that tokens are those of a node, parentheses around an expression included. A node of
a whole program so gets a range of tokens, given by the place of its first token and the place
behind its last one (`Spread`). `Spread.Fits` says what a range has to do with the tokens, with the
location in the tree and with the ranges inside.
-/

namespace LittleTiny

open Grammar

/-- The nodes inside a node, in the order in which they are written. -/
def Node.inner : Node → List Node
  | plain _ => []
  | kept _ => []
  | expr e => e.nodes

theorem Expr.nodes_enclosed (opening closing : Location) (e : Expr) :
    (enclosed opening closing e).nodes = e.nodes := by
  cases e <;> rfl

/-! ## Runs of tokens -/

/-- The location goes from the start of the first token to the end of the last one. -/
def Bounds (l : Location) (ts : Tokens) : Prop :=
  ∃ first last, ts.head? = some first ∧ ts.getLast? = some last ∧
    l = ⟨first.location.first, last.location.last⟩

theorem Bounds.single {v : Token} {l : Location} : Bounds l [⟨v, l⟩] := ⟨_, _, rfl, rfl, rfl⟩

theorem Bounds.ends (first last : Located Token) (ts : Tokens) :
    Bounds ⟨first.location.first, last.location.last⟩ (first :: (ts ++ [last])) :=
  ⟨first, last, rfl, by rw [← List.cons_append, List.getLast?_concat], rfl⟩

theorem Bounds.across {l l' : Location} {ts ts' : Tokens} (h : Bounds l ts) (h' : Bounds l' ts')
    (t : Located Token) : Bounds ⟨l.first, l'.last⟩ (ts ++ t :: ts') := by
  obtain ⟨first, _, hfirst, -, rfl⟩ := h
  obtain ⟨_, last, -, hlast, rfl⟩ := h'
  refine ⟨first, last, ?_, ?_, rfl⟩
  · rw [List.head?_append, hfirst, Option.some_or]
  · rw [List.getLast?_append, List.getLast?_cons, hlast]
    rfl

mutual

/-- The tokens are those of the node. Around an expression there may be parentheses. -/
inductive Stands : Node → Tokens → Prop
  | plain (t : Token) (l : Location) : Stands (.plain t) [⟨t, l⟩]
  | kept (t : Located Token) : Stands (.kept t) [t]
  | expr {e : Expr} {ts : Tokens} (openings closings : List Location) (inner : Tokens)
      (hd : ∃ d : Sum, d.tree = e ∧ d.tokens = ts) (hl : Bounds e.location ts)
      (hlength : openings.length = closings.length)
      (hts : ts = openings.map (sign .openParen) ++ (inner ++ closings.map (sign .closeParen)))
      (h : StandAll e.nodes inner) : Stands (.expr e) ts

/-- The tokens are those of the nodes in a row. -/
inductive StandAll : List Node → Tokens → Prop
  | nil : StandAll [] []
  | cons {x : Node} {xs : List Node} {ts ts' : Tokens} (h : Stands x ts) (hs : StandAll xs ts') :
      StandAll (x :: xs) (ts ++ ts')

end

namespace StandAll

variable {x : Node} {xs ys : List Node} {ts ts' : Tokens}

theorem plain {t : Token} {l : Location} (hs : StandAll xs ts) :
    StandAll (.plain t :: xs) (⟨t, l⟩ :: ts) :=
  .cons (.plain t l) hs

theorem kept {t : Located Token} (hs : StandAll xs ts) : StandAll (.kept t :: xs) (t :: ts) :=
  .cons (.kept t) hs

theorem single (h : Stands x ts) : StandAll [x] ts := by
  have hs := StandAll.cons h .nil
  rwa [List.append_nil] at hs

theorem append (h : StandAll xs ts) (h' : StandAll ys ts') : StandAll (xs ++ ys) (ts ++ ts') := by
  induction xs generalizing ts with
  | nil =>
    cases h
    exact h'
  | cons x xs ih =>
    cases h with
    | cons hx hs =>
      rw [List.append_assoc]
      exact .cons hx (ih hs)

section Items

variable {α β : Type} (write : α → List Node) (tree : β → α) {tokens : β → Tokens}

/-- Items one behind the other, if each of them stands. -/
theorem flatMap (h : ∀ b, StandAll (write (tree b)) (tokens b)) (bs : List β) :
    StandAll ((bs.map tree).flatMap write) (bs.flatMap tokens) := by
  induction bs with
  | nil => exact .nil
  | cons b bs ih => exact (h b).append ih

/-- Items with commas between them, if each of them stands. -/
theorem commas (h : ∀ b, StandAll (write (tree b)) (tokens b)) (x : Separated β) :
    StandAll (Node.commas write (x.toList.map tree)) (x.tokens tokens) := by
  have hrest := flatMap (fun a => .sign .comma :: write a) (fun item => tree item.2)
    (fun item : Location × β => (h item.2).plain (l := item.1)) x.rest
  have hmap : x.rest.map (fun item => tree item.2) = (x.rest.map Prod.snd).map tree :=
    List.map_map.symm
  rw [hmap] at hrest
  exact (h x.first).append hrest

end Items

end StandAll

/-! ## Expressions -/

namespace Grammar

/-- The sum with one more term. -/
def Sum.snoc (op : Located Additive) (operand : Product) : Sum → Sum
  | .mk first rest => .mk first (rest.snoc op operand)

/-- The product with one more factor. -/
def Product.snoc (op : Located Multiplicative) (operand : Atom) : Product → Product
  | .mk first rest => .mk first (rest.snoc op operand)

theorem Sum.tokens_snoc (d : Sum) (op : Located Additive) (operand : Product) :
    (d.snoc op operand).tokens =
      d.tokens ++ sign op.value.operator op.location :: operand.tokens := by
  obtain ⟨first, rest⟩ := d
  simp [Sum.snoc, Sum.tokens, rest.tokens_snoc]

theorem Sum.tree_snoc (d : Sum) (op : Located Additive) (operand : Product) :
    (d.snoc op operand).tree = .binary op.value.op d.tree operand.tree
      ⟨d.tree.location.first, operand.tree.location.last⟩ := by
  obtain ⟨first, rest⟩ := d
  exact Terms.tree_snoc op operand rest first.tree

theorem Product.tokens_snoc (d : Product) (op : Located Multiplicative) (operand : Atom) :
    (d.snoc op operand).tokens =
      d.tokens ++ sign op.value.operator op.location :: operand.tokens := by
  obtain ⟨first, rest⟩ := d
  simp [Product.snoc, Product.tokens, rest.tokens_snoc]

theorem Product.tree_snoc (d : Product) (op : Located Multiplicative) (operand : Atom) :
    (d.snoc op operand).tree = .binary op.value.op d.tree operand.tree
      ⟨d.tree.location.first, operand.tree.location.last⟩ := by
  obtain ⟨first, rest⟩ := d
  exact Factors.tree_snoc op operand rest first.tree

/-- A product is a sum. -/
def Product.sum (d : Product) : Sum := .mk d .nil

/-- An atom is a product. -/
def Atom.product (d : Atom) : Product := .mk d .nil

theorem Product.tokens_sum (d : Product) : d.sum.tokens = d.tokens := by
  simp [Product.sum, Sum.tokens, Terms.tokens]

theorem Product.tree_sum (d : Product) : d.sum.tree = d.tree := rfl

theorem Atom.tokens_product (d : Atom) : d.product.tokens = d.tokens := by
  simp [Atom.product, Product.tokens, Factors.tokens]

theorem Atom.tree_product (d : Atom) : d.product.tree = d.tree := rfl

end Grammar

namespace Stands

variable {e e' : Expr} {ts ts' : Tokens}

theorem bounds (h : Stands (.expr e) ts) : Bounds e.location ts := by
  cases h with
  | expr openings closings inner hd hl hlength hts h => exact hl

/-- An expression without parentheses around it. -/
theorem bare (hd : ∃ d : Sum, d.tree = e ∧ d.tokens = ts) (hl : Bounds e.location ts)
    (h : StandAll e.nodes ts) : Stands (.expr e) ts :=
  .expr [] [] ts hd hl rfl (List.append_nil ts).symm h

theorem binary (op : ArithOp) (l : Location) (h : Stands (.expr e) ts)
    (h' : Stands (.expr e') ts')
    (hd : ∃ d : Sum, d.tree = .binary op e e' ⟨e.location.first, e'.location.last⟩ ∧
      d.tokens = ts ++ sign op.operator l :: ts') :
    Stands (.expr (.binary op e e' ⟨e.location.first, e'.location.last⟩))
      (ts ++ sign op.operator l :: ts') :=
  .bare hd (h.bounds.across h'.bounds _) (.cons h (.plain (.single h')))

/-- One more pair of parentheses, which the location takes in. -/
theorem paren {opening closing : Location} (h : Stands (.expr e) ts)
    (hd : ∃ d : Sum, d.tree = enclosed opening closing e ∧
      d.tokens = sign .openParen opening :: (ts ++ [sign .closeParen closing])) :
    Stands (.expr (enclosed opening closing e))
      (sign .openParen opening :: (ts ++ [sign .closeParen closing])) := by
  have hlocation : (enclosed opening closing e).location = ⟨opening.first, closing.last⟩ := by
    cases e <;> rfl
  cases h with
  | expr openings closings inner _ _ hlength hts h =>
    refine .expr (opening :: openings) (closings ++ [closing]) inner hd ?_ (by simp [hlength])
      (by simp [hts]) ?_
    · rw [hlocation]
      exact Bounds.ends (sign .openParen opening) (sign .closeParen closing) ts
    · rwa [Expr.nodes_enclosed]

end Stands

namespace Grammar

theorem Additive.operator_op (op : Additive) : op.op.operator = op.operator := by cases op <;> rfl

theorem Multiplicative.operator_op (op : Multiplicative) : op.op.operator = op.operator := by
  cases op <;> rfl

-- Sums and products are taken from the left: what has been read so far is the left operand of the
-- next operation, and it has a derivation of its own, which grows by one operand at a time.
mutual

theorem Sum.stands : ∀ d : Sum, Stands (.expr d.tree) d.tokens
  | .mk first rest => by
    have hfirst := first.stands
    rw [← first.tree_sum, ← first.tokens_sum] at hfirst
    have hsum := rest.stands first.sum hfirst
    rwa [first.tokens_sum] at hsum

theorem Terms.stands : ∀ (d : Terms) (lhs : Sum), Stands (.expr lhs.tree) lhs.tokens →
    Stands (.expr (d.tree lhs.tree)) (lhs.tokens ++ d.tokens)
  | .nil, lhs, h => by
    rw [Terms.tokens, List.append_nil]
    exact h
  | .cons op operand rest, lhs, h => by
    have hbinary := h.binary op.value.op op.location operand.stands
      ⟨lhs.snoc op operand, lhs.tree_snoc op operand, by
        rw [lhs.tokens_snoc, Additive.operator_op]⟩
    rw [Additive.operator_op, ← lhs.tokens_snoc, ← lhs.tree_snoc op operand] at hbinary
    have hrest := rest.stands (lhs.snoc op operand) hbinary
    rw [lhs.tokens_snoc, lhs.tree_snoc, List.append_assoc] at hrest
    exact hrest

theorem Product.stands : ∀ d : Product, Stands (.expr d.tree) d.tokens
  | .mk first rest => by
    have hfirst := first.stands
    rw [← first.tree_product, ← first.tokens_product] at hfirst
    have hproduct := rest.stands first.product hfirst
    rwa [first.tokens_product] at hproduct

theorem Factors.stands : ∀ (d : Factors) (lhs : Product), Stands (.expr lhs.tree) lhs.tokens →
    Stands (.expr (d.tree lhs.tree)) (lhs.tokens ++ d.tokens)
  | .nil, lhs, h => by
    rw [Factors.tokens, List.append_nil]
    exact h
  | .cons op operand rest, lhs, h => by
    have hbinary := h.binary op.value.op op.location operand.stands
      ⟨(lhs.snoc op operand).sum, lhs.tree_snoc op operand, by
        rw [Product.tokens_sum, lhs.tokens_snoc, Multiplicative.operator_op]⟩
    rw [Multiplicative.operator_op, ← lhs.tokens_snoc, ← lhs.tree_snoc op operand] at hbinary
    have hrest := rest.stands (lhs.snoc op operand) hbinary
    rw [lhs.tokens_snoc, lhs.tree_snoc, List.append_assoc] at hrest
    exact hrest

theorem Atom.stands : ∀ d : Atom, Stands (.expr d.tree) d.tokens
  | .call function opening arguments closing => by
    rw [Atom.tree, Atom.tokens]
    refine .bare ⟨(Atom.call function opening arguments closing).product.sum, rfl, ?_⟩ ?_ ?_
    · rw [Product.tokens_sum, Atom.tokens_product, Atom.tokens]
    · exact .ends (identifier function) (sign .closeParen closing)
        (sign .openParen opening :: arguments.tokens)
    · exact .kept (.plain (arguments.standAll.append (.plain .nil)))
  | .paren opening inner closing => by
    rw [Atom.tree, Atom.tokens]
    refine inner.stands.paren ⟨(Atom.paren opening inner closing).product.sum, rfl, ?_⟩
    rw [Product.tokens_sum, Atom.tokens_product, Atom.tokens]
  | .var name => .bare ⟨(Atom.var name).product.sum, rfl, rfl⟩ .single (.plain .nil)
  | .int digits => .bare ⟨(Atom.int digits).product.sum, rfl, rfl⟩ .single (.plain .nil)
  | .float digits => .bare ⟨(Atom.float digits).product.sum, rfl, rfl⟩ .single (.plain .nil)

theorem Arguments.standAll : ∀ d : Arguments,
    StandAll (Node.commas (fun e => [.expr e]) d.trees) d.tokens
  | .none => .nil
  | .some first rest => by
    rw [Arguments.tokens, Arguments.trees]
    exact (StandAll.single first.stands).append rest.standAll

theorem MoreArguments.standAll : ∀ d : MoreArguments,
    StandAll (d.trees.flatMap fun e => [.sign .comma, .expr e]) d.tokens
  | .nil => .nil
  | .cons comma argument rest => by
    rw [MoreArguments.tokens, MoreArguments.trees]
    exact .plain (.cons argument.stands rest.standAll)

end

end Grammar

/-! ## Places -/

/-- The tokens `ts` stand at the place `i` and behind it. -/
def TokensAt (tokens : Tokens) (i : Nat) (ts : Tokens) : Prop := ts <+: tokens.drop i

namespace TokensAt

variable {tokens ts ts' : Tokens} {i : Nat}

theorem left (h : TokensAt tokens i (ts ++ ts')) : TokensAt tokens i ts :=
  (List.prefix_append ts ts').trans h

theorem right (h : TokensAt tokens i (ts ++ ts')) : TokensAt tokens (i + ts.length) ts' := by
  obtain ⟨after, h⟩ := h
  exact ⟨after, by rw [← List.drop_drop, ← h, List.append_assoc, List.drop_left]⟩

theorem extract_eq (h : TokensAt tokens i ts) : tokens.extract i (i + ts.length) = ts := by
  rw [List.extract_eq_take_drop, Nat.add_sub_cancel_left]
  exact (List.prefix_iff_eq_take.1 h).symm

theorem le_length (h : TokensAt tokens i ts) (hts : ts ≠ []) : i + ts.length ≤ tokens.length := by
  have hle := List.IsPrefix.length_le h
  have hpos := List.length_pos_iff.2 hts
  rw [List.length_drop] at hle
  omega

end TokensAt

/-! ## Ranges -/

/-- A node with the range of its tokens, the place `stop` not included, and the nodes inside. -/
structure Spread where
  node : Node
  start : Nat
  stop : Nat
  inner : List Spread

/-- The ranges follow each other from `a` to `b` without a gap. -/
def Tiles : List Spread → Nat → Nat → Prop
  | [], a, b => a = b
  | s :: ss, a, b => s.start = a ∧ Tiles ss s.stop b

namespace Tiles

variable {ss ss' : List Spread} {a b c : Nat}

theorem bounds (h : Tiles ss a b) (hlt : ∀ s ∈ ss, s.start < s.stop) :
    a ≤ b ∧ ∀ s ∈ ss, a ≤ s.start ∧ s.stop ≤ b := by
  induction ss generalizing a with
  | nil => exact ⟨Nat.le_of_eq h, List.forall_mem_nil _⟩
  | cons s ss ih =>
    obtain ⟨rfl, hss⟩ := h
    obtain ⟨hs, hlt⟩ := List.forall_mem_cons.1 hlt
    obtain ⟨hle, hinner⟩ := ih hss hlt
    refine ⟨by omega, List.forall_mem_cons.2 ⟨⟨Nat.le_refl _, hle⟩, fun s' hs' => ?_⟩⟩
    obtain ⟨hstart, hstop⟩ := hinner s' hs'
    exact ⟨by omega, hstop⟩

theorem pairwise (h : Tiles ss a b) (hlt : ∀ s ∈ ss, s.start < s.stop) :
    ss.Pairwise fun s s' => s.stop ≤ s'.start := by
  induction ss generalizing a with
  | nil => exact .nil
  | cons s ss ih =>
    obtain ⟨-, hss⟩ := h
    obtain ⟨-, hlt⟩ := List.forall_mem_cons.1 hlt
    exact .cons (fun s' hs' => ((hss.bounds hlt).2 s' hs').1) (ih hss hlt)

end Tiles

namespace Spread

/-- `x` is the node `s`, or it stands inside of it at some depth. -/
inductive Within (x : Spread) : Spread → Prop
  | refl : Within x x
  | inside {c s : Spread} (hc : c ∈ s.inner) (h : Within x c) : Within x s

variable (tokens : Tokens) (s : Spread)

/-- The tokens of the range. -/
def run : Tokens := tokens.extract s.start s.stop

/-- The range and the location in the tree are those of the tokens. -/
def Exact : Prop :=
  match s.node with
  | .plain t => ∃ l, s.run tokens = [⟨t, l⟩]
  | .kept t => s.run tokens = [t]
  | .expr e => (Expr.parse { ahead := s.run tokens }).Leaves e [] 0 ∧
      Bounds e.location (s.run tokens) ∧
      ∃ (openings closings : List Location) (inside : Tokens),
        openings.length = closings.length ∧
        s.run tokens =
          openings.map (sign .openParen) ++ (inside ++ closings.map (sign .closeParen)) ∧
        Tiles s.inner (s.start + openings.length) (s.stop - closings.length)

/-- The range of a node, and how those of the nodes inside lie in it. -/
structure Fits : Prop where
  lt : s.start < s.stop
  le : s.stop ≤ tokens.length
  exact : s.Exact tokens
  inner_eq : s.inner.map node = s.node.inner
  within : ∀ c ∈ s.inner, s.start ≤ c.start ∧ c.stop ≤ s.stop
  ordered : s.inner.Pairwise fun c c' => c.stop ≤ c'.start

end Spread

/-- The node has the range from `a` to `b`, and all that stands in it has a range. -/
def Spreads (tokens : Tokens) (x : Node) (a b : Nat) : Prop :=
  ∃ s : Spread, s.node = x ∧ s.start = a ∧ s.stop = b ∧ ∀ y : Spread, y.Within s → y.Fits tokens

/-- The nodes have ranges that follow each other from `a` to `b`. -/
def SpreadsAll (tokens : Tokens) (xs : List Node) (a b : Nat) : Prop :=
  ∃ ss : List Spread, ss.map Spread.node = xs ∧ Tiles ss a b ∧
    ∀ s ∈ ss, ∀ y : Spread, y.Within s → y.Fits tokens

section

variable {tokens : Tokens} {x : Node} {xs : List Node} {a b c : Nat}

theorem SpreadsAll.nil (a : Nat) : SpreadsAll tokens [] a a :=
  ⟨[], rfl, rfl, List.forall_mem_nil _⟩

theorem SpreadsAll.cons (h : Spreads tokens x a b) (hs : SpreadsAll tokens xs b c) :
    SpreadsAll tokens (x :: xs) a c := by
  obtain ⟨s, rfl, rfl, rfl, hfits⟩ := h
  obtain ⟨ss, rfl, htiles, hall⟩ := hs
  exact ⟨s :: ss, rfl, ⟨rfl, htiles⟩, List.forall_mem_cons.2 ⟨hfits, hall⟩⟩

/-- A node has a range, if those inside tile the part of it between `a'` and `b'`. -/
theorem SpreadsAll.spreads {a' b' : Nat} (h : SpreadsAll tokens x.inner a' b') (ha : a ≤ a')
    (hb : b' ≤ b) (hlt : a < b) (hle : b ≤ tokens.length)
    (hexact : ∀ ss, Tiles ss a' b' → Spread.Exact tokens ⟨x, a, b, ss⟩) : Spreads tokens x a b := by
  obtain ⟨ss, hnodes, htiles, hall⟩ := h
  have hss : ∀ s ∈ ss, s.start < s.stop := fun s hs => (hall s hs s .refl).lt
  have hfits : Spread.Fits tokens ⟨x, a, b, ss⟩ := by
    refine ⟨hlt, hle, hexact ss htiles, hnodes, fun s hs => ?_, htiles.pairwise hss⟩
    obtain ⟨hstart, hstop⟩ := (htiles.bounds hss).2 s hs
    exact ⟨Nat.le_trans ha hstart, Nat.le_trans hstop hb⟩
  refine ⟨⟨x, a, b, ss⟩, rfl, rfl, rfl, fun y hy => ?_⟩
  cases hy with
  | refl => exact hfits
  | inside hc hy => exact hall _ hc y hy

end

mutual

/-- Where the tokens of a node stand, the node has its range. -/
theorem Stands.spreads {tokens : Tokens} : ∀ {x : Node} {ts : Tokens} {i : Nat}, Stands x ts →
    TokensAt tokens i ts → Spreads tokens x i (i + ts.length)
  | _, _, i, .plain t l, h => by
    have hle := h.le_length (List.cons_ne_nil _ _)
    exact (SpreadsAll.nil i).spreads (Nat.le_refl i) (Nat.le_succ i) (Nat.lt_succ_self i) hle
      fun ss hss => ⟨l, h.extract_eq⟩
  | _, _, i, .kept t, h => by
    have hle := h.le_length (List.cons_ne_nil _ _)
    exact (SpreadsAll.nil i).spreads (Nat.le_refl i) (Nat.le_succ i) (Nat.lt_succ_self i) hle
      fun ss hss => h.extract_eq
  | _, ts, i, .expr openings closings inner hd hl hlength hts hinner, h => by
    obtain ⟨first, last, hfirst, -, -⟩ := id hl
    have hne : ts ≠ [] := by
      rintro rfl
      cases hfirst
    have hpos := List.length_pos_iff.2 hne
    have hle := h.le_length hne
    have hsum : ts.length = openings.length + (inner.length + closings.length) := by simp [hts]
    have hat : TokensAt tokens (i + openings.length) inner := by
      have hright := (hts ▸ h).right.left
      rwa [List.length_map] at hright
    have hstop : i + ts.length - closings.length = i + openings.length + inner.length := by omega
    refine (hinner.spreadsAll hat).spreads (by omega) (by omega) (by omega) hle fun ss hss => ?_
    have hrun : tokens.extract i (i + ts.length) = ts := h.extract_eq
    obtain ⟨d, rfl, hd⟩ := hd
    refine ⟨?_, ?_, openings, closings, inner, hlength, ?_, ?_⟩
    · show (Expr.parse { ahead := tokens.extract i (i + ts.length) }).Leaves d.tree [] 0
      rw [hrun, ← hd]
      exact d.leaves { ahead := d.tokens } (List.append_nil _).symm avoids_nil
    · show Bounds d.tree.location (tokens.extract i (i + ts.length))
      rwa [hrun]
    · exact hrun.trans hts
    · show Tiles ss (i + openings.length) (i + ts.length - closings.length)
      rwa [hstop]

theorem StandAll.spreadsAll {tokens : Tokens} : ∀ {xs : List Node} {ts : Tokens} {i : Nat},
    StandAll xs ts → TokensAt tokens i ts → SpreadsAll tokens xs i (i + ts.length)
  | _, _, i, .nil, h => .nil i
  | _, _, i, .cons hx hs, h => by
    rw [List.length_append, ← Nat.add_assoc]
    exact .cons (hx.spreads h.left) (hs.spreadsAll h.right)

end

end LittleTiny
