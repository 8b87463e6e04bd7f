import LittleTiny.Proofs.Grammar
import LittleTiny.Proofs.Reading

/-!
# Reading expressions

The rules of expressions read exactly the derivations of `Grammar.Sum`: what they yield is the tree
of a derivation of the tokens that they take (`Expr.sound_sum`), and they yield the tree of any
derivation whose tokens are ahead, if what comes behind it cannot go on with the expression
(`Sum.leaves`). The second is where the single decisions of the reader are seen to be the only
possible ones.
-/

namespace LittleTiny

open Reading Cursor Grammar

namespace Token

theorem additive?_eq_some_iff {t : Token} {op : ArithOp} :
    t.additive? = some op ↔ ∃ a : Additive, t = .operator a.operator ∧ a.op = op := by
  constructor
  · intro h
    unfold additive? at h
    split at h
    · exact ⟨.plus, rfl, Option.some.inj h⟩
    · exact ⟨.minus, rfl, Option.some.inj h⟩
    · cases h
  · rintro ⟨a, rfl, rfl⟩
    cases a <;> rfl

theorem multiplicative?_eq_some_iff {t : Token} {op : ArithOp} :
    t.multiplicative? = some op ↔ ∃ a : Multiplicative, t = .operator a.operator ∧ a.op = op := by
  constructor
  · intro h
    unfold multiplicative? at h
    split at h
    · exact ⟨.times, rfl, Option.some.inj h⟩
    · exact ⟨.divide, rfl, Option.some.inj h⟩
    · cases h
  · rintro ⟨a, rfl, rfl⟩
    cases a <;> rfl

theorem comparison?_eq_some_iff {t : Token} {op : Comparison} :
    t.comparison? = some op ↔ t = .operator op.operator := by
  constructor
  · intro h
    unfold comparison? at h
    split at h <;> cases h <;> rfl
  · rintro rfl
    cases op <;> rfl

end Token

namespace Expr

variable {s t : Cursor} {e lhs : Expr}

/-! ## The rules, taken apart -/

theorem yields_parse :
    (parse s).Yields e t ↔
      ∃ lhs s₁, (parseProduct s).Yields lhs s₁ ∧ (parseSumFrom lhs s₁).Yields e t := by
  rw [parse]
  simp only [yields_bind, yields_afterLoose, exists_prop]

theorem yields_parseProduct :
    (parseProduct s).Yields e t ↔
      ∃ lhs s₁, (parseAtom s).Yields lhs s₁ ∧ (parseProductFrom lhs s₁).Yields e t := by
  rw [parseProduct]
  simp only [yields_bind, yields_afterLoose, exists_prop]

theorem yields_parseSumFrom_of_none (h : s.take? Token.additive? = none) :
    (parseSumFrom lhs s).Yields e t ↔ lhs = e ∧ s = t := by
  rw [parseSumFrom]
  simp only [h, yields_stay]

theorem yields_parseSumFrom_of_some {op : Located ArithOp} {s₁ : Cursor} {h₁ : s₁.size < s.size}
    (h : s.take? Token.additive? = some ⟨op, s₁, h₁⟩) :
    (parseSumFrom lhs s).Yields e t ↔
      ∃ rhs s₂, (parseProduct s₁).Yields rhs s₂ ∧
        (parseSumFrom (.join op.value lhs rhs) s₂).Yields e t := by
  rw [parseSumFrom]
  simp only [h, yields_loosen, yields_bind, yields_after, yields_afterLoose, exists_prop]

theorem yields_parseProductFrom_of_none (h : s.take? Token.multiplicative? = none) :
    (parseProductFrom lhs s).Yields e t ↔ lhs = e ∧ s = t := by
  rw [parseProductFrom]
  simp only [h, yields_stay]

theorem yields_parseProductFrom_of_some {op : Located ArithOp} {s₁ : Cursor}
    {h₁ : s₁.size < s.size} (h : s.take? Token.multiplicative? = some ⟨op, s₁, h₁⟩) :
    (parseProductFrom lhs s).Yields e t ↔
      ∃ rhs s₂, (parseAtom s₁).Yields rhs s₂ ∧
        (parseProductFrom (.join op.value lhs rhs) s₂).Yields e t := by
  rw [parseProductFrom]
  simp only [h, yields_loosen, yields_bind, yields_after, yields_afterLoose, exists_prop]

theorem yields_parseAtom_of_seesCall (h : s.seesCall = true) :
    (parseAtom s).Yields e t ↔
      ∃ function s₁, s.identifier.Yields function s₁ ∧
        ∃ u s₂, (s₁.operator .openParen).Yields u s₂ ∧
          ∃ arguments s₃, (parseArguments s₂).Yields arguments s₃ ∧
            ∃ close s₄, (s₃.operator .closeParen).Yields close s₄ ∧
              call function arguments (.span function.location close.location) = e ∧ s₄ = t := by
  rw [parseAtom]
  simp only [h, if_true, yields_bind, yields_after, yields_afterLoose, exists_prop, yields_pure]

theorem yields_parseAtom_of_leaf {leaf : Located (Location → Expr)} {s₁ : Cursor}
    {h₁ : s₁.size < s.size} (hc : ¬ s.seesCall = true)
    (h : s.take? Token.leaf? = some ⟨leaf, s₁, h₁⟩) :
    (parseAtom s).Yields e t ↔ leaf.value leaf.location = e ∧ s₁ = t := by
  rw [parseAtom]
  simp only [hc, if_false, h, yields_pure, Bool.false_eq_true]

theorem yields_parseAtom_of_paren (hc : ¬ s.seesCall = true) (hl : s.take? Token.leaf? = none)
    (h : s.peek? = some (.operator .openParen)) :
    (parseAtom s).Yields e t ↔
      ∃ opening s₁, (s.operator .openParen).Yields opening s₁ ∧
        ∃ inner s₂, (parse s₁).Yields inner s₂ ∧
          ∃ close s₃, (s₂.operator .closeParen).Yields close s₃ ∧
            inner.relocate (.span opening.location close.location) = e ∧ s₃ = t := by
  rw [parseAtom]
  simp only [hc, if_false, hl, h, if_true, yields_bind, yields_after, exists_prop, yields_pure,
    Bool.false_eq_true]

theorem not_yields_parseAtom (hc : ¬ s.seesCall = true) (hl : s.take? Token.leaf? = none)
    (h : ¬ s.peek? = some (.operator .openParen)) : ¬ (parseAtom s).Yields e t := by
  rw [parseAtom]
  simp only [hc, if_false, hl, h, Bool.false_eq_true]
  exact not_yields_throw

theorem yields_parseArguments {arguments : List Expr} :
    (parseArguments s).Yields arguments t ↔
      if s.peek?.any Token.startsExpr then (parseList s).Yields arguments t
      else [] = arguments ∧ s = t := by
  rw [parseArguments]
  split
  · rw [yields_loosen]
  · rw [yields_stay]

theorem yields_parseList {es : List Expr} :
    (parseList s).Yields es t ↔
      ∃ e s₁, (parse s).Yields e s₁ ∧
        ((Avoids (· = .operator .comma) s₁.ahead ∧ [e] = es ∧ s₁ = t) ∨
          ∃ s₂, s₁.Skips (.operator .comma) s₂ ∧
            ∃ more s₃, (parseList s₂).Yields more s₃ ∧ e :: more = es ∧ s₃ = t) := by
  rw [parseList, yields_bind]
  refine exists_congr fun e => exists_congr fun s₁ => ?_
  refine Iff.trans (exists_congr fun h₁ => yields_match_skip?) ?_
  simp only [yields_bind, yields_after, yields_pure, exists_prop]

end Expr

theorem Condition.yields_parse {s t : Cursor} {c : Condition} :
    (Condition.parse s).Yields c t ↔
      ∃ lhs s₁, (Expr.parse s).Yields lhs s₁ ∧
        ∃ op s₂, (s₁.take Token.comparison? .expectedComparison).Yields op s₂ ∧
          ∃ rhs s₃, (Expr.parse s₂).Yields rhs s₃ ∧ ⟨op.value, lhs, rhs⟩ = c ∧ s₃ = t := by
  rw [Condition.parse]
  simp only [yields_bind, yields_after, yields_pure, exists_prop]

/-! ## What is yielded has a derivation -/

/-- Whatever the rule yields at `s` is the tree of a derivation of the tokens that it takes. -/
def Sound {D α : Type} {n : Nat} (tokens : D → Tokens) (tree : D → α) (s : Cursor)
    (r : Reading (Advance n α)) : Prop :=
  ∀ a t, r.Yields a t → ∃ d, s.Reads (tokens d) 0 t ∧ tree d = a

namespace Expr

variable {s : Cursor} {lhs : Expr}

theorem sound_parse (hp : Sound Product.tokens Product.tree s (parseProduct s))
    (ht : ∀ lhs s₁, s₁.size < s.size →
      Sound Terms.tokens (Terms.tree lhs) s₁ (parseSumFrom lhs s₁)) :
    Sound Sum.tokens Sum.tree s (parse s) := by
  intro e t he
  obtain ⟨lhs, s₁, h₁, h₂⟩ := yields_parse.1 he
  obtain ⟨first, hf, rfl⟩ := hp _ _ h₁
  obtain ⟨rest, hr, rfl⟩ := ht _ s₁ h₁.size_lt _ _ h₂
  exact ⟨.mk first rest, hf.trans hr, rfl⟩

theorem sound_parseSumFrom_nil (h : s.take? Token.additive? = none) :
    Sound Terms.tokens (Terms.tree lhs) s (parseSumFrom lhs s) := by
  intro e t he
  obtain ⟨rfl, rfl⟩ := (yields_parseSumFrom_of_none h).1 he
  exact ⟨.nil, .refl s, rfl⟩

theorem sound_parseSumFrom_cons {op : Located ArithOp} {s₁ : Cursor} (h₁ : s₁.size < s.size)
    (h : s.take? Token.additive? = some ⟨op, s₁, h₁⟩)
    (hp : Sound Product.tokens Product.tree s₁ (parseProduct s₁))
    (ht : ∀ rhs s₂, s₂.size < s.size → Sound Terms.tokens (Terms.tree (.join op.value lhs rhs)) s₂
      (parseSumFrom (.join op.value lhs rhs) s₂)) :
    Sound Terms.tokens (Terms.tree lhs) s (parseSumFrom lhs s) := by
  intro e t he
  obtain ⟨rhs, s₂, hy₁, hy₂⟩ := (yields_parseSumFrom_of_some h).1 he
  obtain ⟨token, hop', hwant⟩ := reads_of_take? h
  obtain ⟨a, rfl, hop⟩ := Token.additive?_eq_some_iff.1 hwant
  obtain ⟨operand, ho, rfl⟩ := hp _ _ hy₁
  obtain ⟨rest, hr, rfl⟩ := ht _ s₂ (size_lt_trans h₁ hy₁.size_lt) _ _ hy₂
  refine ⟨.cons ⟨a, op.location⟩ operand rest, hop'.trans (ho.trans hr), ?_⟩
  rw [Terms.tree, hop]
  rfl

theorem sound_parseProduct (ha : Sound Atom.tokens Atom.tree s (parseAtom s))
    (hf : ∀ lhs s₁, s₁.size < s.size →
      Sound Factors.tokens (Factors.tree lhs) s₁ (parseProductFrom lhs s₁)) :
    Sound Product.tokens Product.tree s (parseProduct s) := by
  intro e t he
  obtain ⟨lhs, s₁, h₁, h₂⟩ := yields_parseProduct.1 he
  obtain ⟨first, hf₁, rfl⟩ := ha _ _ h₁
  obtain ⟨rest, hr, rfl⟩ := hf _ s₁ h₁.size_lt _ _ h₂
  exact ⟨.mk first rest, hf₁.trans hr, rfl⟩

theorem sound_parseProductFrom_nil (h : s.take? Token.multiplicative? = none) :
    Sound Factors.tokens (Factors.tree lhs) s (parseProductFrom lhs s) := by
  intro e t he
  obtain ⟨rfl, rfl⟩ := (yields_parseProductFrom_of_none h).1 he
  exact ⟨.nil, .refl s, rfl⟩

theorem sound_parseProductFrom_cons {op : Located ArithOp} {s₁ : Cursor} (h₁ : s₁.size < s.size)
    (h : s.take? Token.multiplicative? = some ⟨op, s₁, h₁⟩)
    (ha : Sound Atom.tokens Atom.tree s₁ (parseAtom s₁))
    (hf : ∀ rhs s₂, s₂.size < s.size →
      Sound Factors.tokens (Factors.tree (.join op.value lhs rhs)) s₂
        (parseProductFrom (.join op.value lhs rhs) s₂)) :
    Sound Factors.tokens (Factors.tree lhs) s (parseProductFrom lhs s) := by
  intro e t he
  obtain ⟨rhs, s₂, hy₁, hy₂⟩ := (yields_parseProductFrom_of_some h).1 he
  obtain ⟨token, hop', hwant⟩ := reads_of_take? h
  obtain ⟨a, rfl, hop⟩ := Token.multiplicative?_eq_some_iff.1 hwant
  obtain ⟨operand, ho, rfl⟩ := ha _ _ hy₁
  obtain ⟨rest, hr, rfl⟩ := hf _ s₂ (size_lt_trans h₁ hy₁.size_lt) _ _ hy₂
  refine ⟨.cons ⟨a, op.location⟩ operand rest, hop'.trans (ho.trans hr), ?_⟩
  rw [Factors.tree, hop]
  rfl

theorem sound_parseAtom_call (h : s.seesCall = true)
    (ha : ∀ s₂ : Cursor, s₂.size < s.size →
      Sound Arguments.tokens Arguments.trees s₂ (parseArguments s₂)) :
    Sound Atom.tokens Atom.tree s (parseAtom s) := by
  intro e t he
  obtain ⟨function, s₁, hy₁, u, s₂, hy₂, arguments, s₃, hy₃, close, s₄, hy₄, rfl, rfl⟩ :=
    (yields_parseAtom_of_seesCall h).1 he
  obtain ⟨trees, hr, rfl⟩ := ha s₂ (size_lt_trans hy₁.size_lt hy₂.size_lt) _ _ hy₃
  exact ⟨.call function u.location trees close.location,
    (reads_identifier hy₁).trans ((reads_operator hy₂).trans (hr.trans (reads_operator hy₄))), rfl⟩

theorem sound_parseAtom_leaf (hc : ¬ s.seesCall = true) {leaf : Located (Location → Expr)}
    {s₁ : Cursor} (h₁ : s₁.size < s.size) (h : s.take? Token.leaf? = some ⟨leaf, s₁, h₁⟩) :
    Sound Atom.tokens Atom.tree s (parseAtom s) := by
  intro e t he
  obtain ⟨rfl, rfl⟩ := (yields_parseAtom_of_leaf hc h).1 he
  obtain ⟨token, hr, hl⟩ := reads_of_take? h
  cases token <;> simp only [Token.leaf?, Option.some.injEq, reduceCtorEq] at hl
  case identifier name => exact ⟨.var ⟨name, leaf.location⟩, hr, by rw [← hl]; rfl⟩
  case intLiteral digits => exact ⟨.int ⟨digits, leaf.location⟩, hr, by rw [← hl]; rfl⟩
  case floatLiteral digits => exact ⟨.float ⟨digits, leaf.location⟩, hr, by rw [← hl]; rfl⟩

theorem sound_parseAtom_paren (hc : ¬ s.seesCall = true) (hl : s.take? Token.leaf? = none)
    (h : s.peek? = some (.operator .openParen))
    (ih : ∀ s₁ : Cursor, s₁.size < s.size → Sound Sum.tokens Sum.tree s₁ (parse s₁)) :
    Sound Atom.tokens Atom.tree s (parseAtom s) := by
  intro e t he
  obtain ⟨opening, s₁, hy₁, inner, s₂, hy₂, close, s₃, hy₃, rfl, rfl⟩ :=
    (yields_parseAtom_of_paren hc hl h).1 he
  obtain ⟨d, hd, rfl⟩ := ih s₁ hy₁.size_lt _ _ hy₂
  exact ⟨.paren opening.location d close.location,
    (reads_operator hy₁).trans (hd.trans (reads_operator hy₃)), enclosed_eq_relocate ..⟩

/-- A list of arguments that is not empty. -/
def SoundList (s : Cursor) : Prop :=
  Sound (fun x : Sum × MoreArguments => (Arguments.some x.1 x.2).tokens)
    (fun x => (Arguments.some x.1 x.2).trees) s (parseList s)

theorem sound_parseArguments_some (h : s.peek?.any Token.startsExpr = true) (hl : SoundList s) :
    Sound Arguments.tokens Arguments.trees s (parseArguments s) := by
  intro es t he
  rw [yields_parseArguments, if_pos h] at he
  obtain ⟨⟨first, rest⟩, hd, rfl⟩ := hl es t he
  exact ⟨.some first rest, hd, rfl⟩

theorem sound_parseArguments_none (h : ¬ s.peek?.any Token.startsExpr = true) :
    Sound Arguments.tokens Arguments.trees s (parseArguments s) := by
  intro es t he
  rw [yields_parseArguments, if_neg h] at he
  obtain ⟨rfl, rfl⟩ := he
  exact ⟨.none, .refl s, rfl⟩

theorem soundList_of_parse (hs : Sound Sum.tokens Sum.tree s (parse s))
    (ih : ∀ s₁ : Cursor, s₁.size < s.size → ∀ s₂ : Cursor, s₂.size < s₁.size → SoundList s₂) :
    SoundList s := by
  intro es t he
  obtain ⟨e, s₁, hy₁, ⟨-, rfl, rfl⟩ | ⟨s₂, hc, more, s₃, hy₃, rfl, rfl⟩⟩ := yields_parseList.1 he
  · obtain ⟨d, hd, rfl⟩ := hs _ _ hy₁
    exact ⟨(d, .nil), hd.trans (.refl _), rfl⟩
  · obtain ⟨d, hd, rfl⟩ := hs _ _ hy₁
    obtain ⟨⟨first, rest⟩, hr, rfl⟩ := ih s₁ hy₁.size_lt s₂ hc.size_lt _ _ hy₃
    obtain ⟨comma, hc⟩ := hc.reads
    exact ⟨(d, .cons comma first rest), hd.trans (hc.trans hr), rfl⟩

/-- The rules of expressions yield trees of derivations only. -/
theorem sound_sum (s : Cursor) : Sound Sum.tokens Sum.tree s (parse s) :=
  Expr.parse.induct (fun s => Sound Sum.tokens Sum.tree s (parse s))
    (fun lhs s => Sound Terms.tokens (Terms.tree lhs) s (parseSumFrom lhs s))
    (fun s => Sound Product.tokens Product.tree s (parseProduct s))
    (fun lhs s => Sound Factors.tokens (Factors.tree lhs) s (parseProductFrom lhs s))
    (fun s => Sound Atom.tokens Atom.tree s (parseAtom s))
    (fun s => Sound Arguments.tokens Arguments.trees s (parseArguments s))
    SoundList
    (fun _ => sound_parse)
    (fun _ _ => sound_parseSumFrom_nil)
    (fun _ _ _ _ => sound_parseSumFrom_cons)
    (fun _ => sound_parseProduct)
    (fun _ _ => sound_parseProductFrom_nil)
    (fun _ _ _ _ => sound_parseProductFrom_cons)
    (fun s h ha => sound_parseAtom_call h (ha s))
    (fun _ hc _ _ => sound_parseAtom_leaf hc)
    (fun _ => sound_parseAtom_paren)
    (fun _ hc hl h _ _ he => absurd he (not_yields_parseAtom hc hl h))
    (fun _ => sound_parseArguments_some)
    (fun _ => sound_parseArguments_none)
    (fun _ => soundList_of_parse) s

end Expr

theorem Condition.sound_parse (s : Cursor) : Sound Cond.tokens Cond.tree s (Condition.parse s) := by
  intro c t hc
  obtain ⟨lhs, s₁, hy₁, op, s₂, hy₂, rhs, s₃, hy₃, rfl, rfl⟩ := Condition.yields_parse.1 hc
  obtain ⟨l, hl, rfl⟩ := Expr.sound_sum s _ _ hy₁
  obtain ⟨r, hr, rfl⟩ := Expr.sound_sum s₂ _ _ hy₃
  obtain ⟨token, ho, hw⟩ := reads_take hy₂
  obtain rfl := Token.comparison?_eq_some_iff.1 hw
  exact ⟨⟨l, op, r⟩, hl.trans (ho.trans hr), rfl⟩

/-! ## What has a derivation is yielded -/

/-- The rule yields `a`, with the tokens `rest` ahead and `n` scopes opened. -/
def Reading.Leaves {α : Type} {m : Nat} (r : Reading (Advance m α)) (a : α) (rest : Tokens)
    (n : Nat) : Prop :=
  ∃ t, r.Yields a t ∧ t.ahead = rest ∧ t.scopes = n

namespace Token

/-- A token that makes a call of a name before it. -/
def ExtendsAtom (t : Token) : Prop := t = .operator .openParen

/-- A token that goes on with a product. -/
def ExtendsProduct (t : Token) : Prop := t.ExtendsAtom ∨ t.multiplicative?.isSome

/-- A token that goes on with a sum. -/
def ExtendsSum (t : Token) : Prop := t.ExtendsProduct ∨ t.additive?.isSome

end Token

open Token

/-- A name is no call if no parenthesis is opened behind it. -/
theorem Cursor.not_seesCall {s : Cursor} {name : String} {l : Location} {rest : Tokens}
    (h : s.ahead = ⟨.identifier name, l⟩ :: rest) (hr : Avoids ExtendsAtom rest) :
    ¬ s.seesCall = true := by
  intro hc
  unfold seesCall at hc
  split at hc
  · next heq =>
    rw [h] at heq
    cases heq
    exact avoids_cons.1 hr rfl
  · cases hc

namespace Grammar

theorem Terms.avoids_extendsProduct {rest : Tokens} (h : Avoids ExtendsSum rest) :
    ∀ d : Terms, Avoids ExtendsProduct (d.tokens ++ rest)
  | .nil => h.mono fun _ => .inl
  | .cons op operand more => by
    rw [Terms.tokens, List.cons_append, avoids_cons]
    cases op.value <;> simp [ExtendsProduct, ExtendsAtom, Additive.operator, multiplicative?]

theorem Factors.avoids_extendsAtom {rest : Tokens} (h : Avoids ExtendsProduct rest) :
    ∀ d : Factors, Avoids ExtendsAtom (d.tokens ++ rest)
  | .nil => h.mono fun _ => .inl
  | .cons op operand more => by
    rw [Factors.tokens, List.cons_append, avoids_cons]
    cases op.value <;> simp [ExtendsAtom, Multiplicative.operator]

theorem MoreArguments.avoids_extendsSum (closing : Location) (rest : Tokens) :
    ∀ d : MoreArguments, Avoids ExtendsSum (d.tokens ++ ([sign .closeParen closing] ++ rest))
  | .nil => by
    simp [MoreArguments.tokens, ExtendsSum, ExtendsProduct, ExtendsAtom, multiplicative?, additive?]
  | .cons comma argument more => by
    simp [MoreArguments.tokens, ExtendsSum, ExtendsProduct, ExtendsAtom, multiplicative?, additive?]

theorem Atom.exists_tokens_eq (d : Atom) :
    ∃ t ts, d.tokens = t :: ts ∧ t.value.startsExpr = true := by
  cases d <;> exact ⟨_, _, rfl, rfl⟩

theorem Product.exists_tokens_eq (d : Product) :
    ∃ t ts, d.tokens = t :: ts ∧ t.value.startsExpr = true := by
  obtain ⟨first, rest⟩ := d
  obtain ⟨t, ts, h, ht⟩ := first.exists_tokens_eq
  exact ⟨t, ts ++ rest.tokens, by rw [Product.tokens, h]; rfl, ht⟩

theorem Sum.exists_tokens_eq (d : Sum) :
    ∃ t ts, d.tokens = t :: ts ∧ t.value.startsExpr = true := by
  obtain ⟨first, rest⟩ := d
  obtain ⟨t, ts, h, ht⟩ := first.exists_tokens_eq
  exact ⟨t, ts ++ rest.tokens, by rw [Sum.tokens, h]; rfl, ht⟩

open LittleTiny.Expr

-- One case for each form of derivation; the token ahead decides for the same form in the reader.
mutual

theorem Sum.leaves : ∀ (d : Sum) (s : Cursor) {rest : Tokens}, s.ahead = d.tokens ++ rest →
    Avoids ExtendsSum rest → (Expr.parse s).Leaves d.tree rest s.scopes
  | .mk first more, s, rest, h, hr => by
    rw [Sum.tokens, List.append_assoc] at h
    obtain ⟨s₁, h₁, ha, hs⟩ := first.leaves s h (more.avoids_extendsProduct hr)
    obtain ⟨t, h₂, hb, ht⟩ := more.leaves s₁ ha hr
    exact ⟨t, yields_parse.2 ⟨_, s₁, h₁, h₂⟩, hb, ht.trans hs⟩

theorem Terms.leaves : ∀ (d : Terms) {lhs : Expr} (s : Cursor) {rest : Tokens},
    s.ahead = d.tokens ++ rest → Avoids ExtendsSum rest →
    (parseSumFrom lhs s).Leaves (d.tree lhs) rest s.scopes
  | .nil, lhs, s, rest, h, hr => by
    have hn : s.take? Token.additive? = none := by
      rw [take?_eq_none_iff, h]
      exact hr.mono fun _ => .inr
    exact ⟨s, (yields_parseSumFrom_of_none hn).2 ⟨rfl, rfl⟩, h, rfl⟩
  | .cons op operand more, lhs, s, rest, h, hr => by
    rw [Terms.tokens, List.cons_append, List.append_assoc] at h
    obtain ⟨_, hop⟩ := exists_take?_eq_some h (additive?_eq_some_iff.2 ⟨op.value, rfl, rfl⟩)
    obtain ⟨s₂, h₂, ha, hs⟩ :=
      operand.leaves ⟨_, op.location, s.scopes⟩ rfl (more.avoids_extendsProduct hr)
    obtain ⟨t, h₃, hb, ht⟩ := more.leaves s₂ ha hr
    exact ⟨t, (yields_parseSumFrom_of_some hop).2 ⟨_, s₂, h₂, h₃⟩, hb, ht.trans hs⟩

theorem Product.leaves : ∀ (d : Product) (s : Cursor) {rest : Tokens}, s.ahead = d.tokens ++ rest →
    Avoids ExtendsProduct rest → (parseProduct s).Leaves d.tree rest s.scopes
  | .mk first more, s, rest, h, hr => by
    rw [Product.tokens, List.append_assoc] at h
    obtain ⟨s₁, h₁, ha, hs⟩ := first.leaves s h (more.avoids_extendsAtom hr)
    obtain ⟨t, h₂, hb, ht⟩ := more.leaves s₁ ha hr
    exact ⟨t, yields_parseProduct.2 ⟨_, s₁, h₁, h₂⟩, hb, ht.trans hs⟩

theorem Factors.leaves : ∀ (d : Factors) {lhs : Expr} (s : Cursor) {rest : Tokens},
    s.ahead = d.tokens ++ rest → Avoids ExtendsProduct rest →
    (parseProductFrom lhs s).Leaves (d.tree lhs) rest s.scopes
  | .nil, lhs, s, rest, h, hr => by
    have hn : s.take? Token.multiplicative? = none := by
      rw [take?_eq_none_iff, h]
      exact hr.mono fun _ => .inr
    exact ⟨s, (yields_parseProductFrom_of_none hn).2 ⟨rfl, rfl⟩, h, rfl⟩
  | .cons op operand more, lhs, s, rest, h, hr => by
    rw [Factors.tokens, List.cons_append, List.append_assoc] at h
    obtain ⟨_, hop⟩ := exists_take?_eq_some h (multiplicative?_eq_some_iff.2 ⟨op.value, rfl, rfl⟩)
    obtain ⟨s₂, h₂, ha, hs⟩ :=
      operand.leaves ⟨_, op.location, s.scopes⟩ rfl (more.avoids_extendsAtom hr)
    obtain ⟨t, h₃, hb, ht⟩ := more.leaves s₂ ha hr
    exact ⟨t, (yields_parseProductFrom_of_some hop).2 ⟨_, s₂, h₂, h₃⟩, hb, ht.trans hs⟩

theorem Atom.leaves : ∀ (d : Atom) (s : Cursor) {rest : Tokens}, s.ahead = d.tokens ++ rest →
    Avoids ExtendsAtom rest → (parseAtom s).Leaves d.tree rest s.scopes
  | .call function opening arguments closing, s, rest, h, hr => by
    rw [Atom.tokens, List.cons_append, List.cons_append, List.append_assoc] at h
    have hc : s.seesCall = true := by rw [seesCall, h]
    obtain ⟨s₃, h₃, ha, hs⟩ := arguments.leaves ⟨_, opening, s.scopes⟩ rfl
    exact ⟨_, (yields_parseAtom_of_seesCall hc).2 ⟨function, _, yields_identifier.2 ⟨_, h, rfl⟩,
      ⟨(), opening⟩, _, yields_operator.2 ⟨_, rfl, rfl⟩, _, s₃, h₃,
      ⟨(), closing⟩, _, yields_operator.2 ⟨_, ha, rfl⟩, rfl, rfl⟩, rfl, hs⟩
  | .paren opening inner closing, s, rest, h, hr => by
    rw [Atom.tokens, List.cons_append, List.append_assoc] at h
    have hc : ¬ s.seesCall = true := by simp [seesCall, h]
    have hl : s.take? Token.leaf? = none := by simp [take?_eq_none_iff, h, leaf?]
    have hp : s.peek? = some (.operator .openParen) := by simp [peek?, h]
    have hstop : Avoids ExtendsSum ([sign .closeParen closing] ++ rest) := by
      simp [ExtendsSum, ExtendsProduct, ExtendsAtom, multiplicative?, additive?]
    obtain ⟨s₂, h₂, ha, hs⟩ := inner.leaves ⟨_, opening, s.scopes⟩ rfl hstop
    exact ⟨_, (yields_parseAtom_of_paren hc hl hp).2 ⟨⟨(), opening⟩, _,
      yields_operator.2 ⟨_, h, rfl⟩, _, s₂, h₂, ⟨(), closing⟩, _,
      yields_operator.2 ⟨_, ha, rfl⟩, rfl, rfl⟩, rfl, hs⟩
  | .var name, s, rest, h, hr => by
    have hc : ¬ s.seesCall = true := not_seesCall h hr
    obtain ⟨_, hl⟩ := exists_take?_eq_some h (show leaf? _ = some (Expr.var name.value) from rfl)
    exact ⟨_, (yields_parseAtom_of_leaf hc hl).2 ⟨rfl, rfl⟩, rfl, rfl⟩
  | .int digits, s, rest, h, hr => by
    have hc : ¬ s.seesCall = true := by
      simp [seesCall, h, Atom.tokens]
    obtain ⟨_, hl⟩ := exists_take?_eq_some h (show leaf? _ = some (Expr.int digits.value) from rfl)
    exact ⟨_, (yields_parseAtom_of_leaf hc hl).2 ⟨rfl, rfl⟩, rfl, rfl⟩
  | .float digits, s, rest, h, hr => by
    have hc : ¬ s.seesCall = true := by
      simp [seesCall, h, Atom.tokens]
    obtain ⟨_, hl⟩ :=
      exists_take?_eq_some h (show leaf? _ = some (Expr.float digits.value) from rfl)
    exact ⟨_, (yields_parseAtom_of_leaf hc hl).2 ⟨rfl, rfl⟩, rfl, rfl⟩

theorem Arguments.leaves : ∀ (d : Arguments) (s : Cursor) {closing : Location} {rest : Tokens},
    s.ahead = d.tokens ++ ([sign .closeParen closing] ++ rest) →
    (parseArguments s).Leaves d.trees ([sign .closeParen closing] ++ rest) s.scopes
  | .none, s, closing, rest, h => by
    have hn : ¬ s.peek?.any startsExpr = true := by simp [peek?, h, Arguments.tokens, startsExpr]
    refine ⟨s, ?_, h, rfl⟩
    rw [yields_parseArguments, if_neg hn]
    exact ⟨rfl, rfl⟩
  | .some first more, s, closing, rest, h => by
    have hs : s.peek?.any startsExpr = true := by
      obtain ⟨t, ts, ht, hstart⟩ := first.exists_tokens_eq
      simp [peek?, h, Arguments.tokens, ht, hstart]
    rw [Arguments.tokens, List.append_assoc] at h
    obtain ⟨s₁, h₁, ha, hs₁⟩ := first.leaves s h (more.avoids_extendsSum closing rest)
    obtain ⟨t, h₂, hb, ht⟩ := more.leaves s₁ ha h₁
    refine ⟨t, ?_, hb, ht.trans hs₁⟩
    rw [yields_parseArguments, if_pos hs]
    exact h₂

/-- The arguments behind the first, which is read from `s₀` to `s`. -/
theorem MoreArguments.leaves : ∀ (d : MoreArguments) (s : Cursor) {closing : Location}
    {rest : Tokens} {s₀ : Cursor} {e : Expr},
    s.ahead = d.tokens ++ ([sign .closeParen closing] ++ rest) → (Expr.parse s₀).Yields e s →
    (parseList s₀).Leaves (e :: d.trees) ([sign .closeParen closing] ++ rest) s.scopes
  | .nil, s, closing, rest, s₀, e, h, he => by
    refine ⟨s, yields_parseList.2 ⟨e, s, he, .inl ⟨?_, rfl, rfl⟩⟩, h, rfl⟩
    simp [h, MoreArguments.tokens]
  | .cons comma argument more, s, closing, rest, s₀, e, h, he => by
    rw [MoreArguments.tokens, List.cons_append, List.append_assoc] at h
    obtain ⟨s₂, h₂, ha, hs⟩ :=
      argument.leaves ⟨_, s.last, s.scopes⟩ rfl (more.avoids_extendsSum closing rest)
    obtain ⟨t, h₃, hb, ht⟩ := more.leaves s₂ ha h₂
    have hc : s.Skips (.operator .comma) ⟨_, s.last, s.scopes⟩ := ⟨comma, h, rfl, rfl⟩
    exact ⟨t, yields_parseList.2 ⟨e, s, he, .inr ⟨_, hc, _, t, h₃, rfl, rfl⟩⟩, hb, ht.trans hs⟩

end

theorem avoids_extendsSum_comparison (op : Comparison) (l : Location) (rest : Tokens) :
    Avoids ExtendsSum (sign op.operator l :: rest) := by
  rw [avoids_cons]
  cases op <;>
    simp [ExtendsSum, ExtendsProduct, ExtendsAtom, Comparison.operator, multiplicative?, additive?]

theorem Cond.leaves (d : Cond) (s : Cursor) {rest : Tokens} (h : s.ahead = d.tokens ++ rest)
    (hr : Avoids ExtendsSum rest) : (Condition.parse s).Leaves d.tree rest s.scopes := by
  rw [Cond.tokens, List.append_assoc, List.cons_append] at h
  obtain ⟨s₁, h₁, ha, hs⟩ := d.lhs.leaves s h (avoids_extendsSum_comparison d.op.value _ _)
  obtain ⟨t, h₂, hb, ht⟩ := d.rhs.leaves ⟨_, d.op.location, s₁.scopes⟩ rfl hr
  have hc := comparison?_eq_some_iff.2 (rfl : Token.operator d.op.value.operator = _)
  exact ⟨t, Condition.yields_parse.2 ⟨_, s₁, h₁, d.op, _, yields_take.2 ⟨_, _, ha, hc, rfl⟩, _, t,
    h₂, rfl, rfl⟩, hb, ht.trans hs⟩

end Grammar

end LittleTiny
