import LittleTiny.Proofs.Grammar.Program

/-!
# Derivations are unique

Tokens have one derivation at most (`Prog.eq_of_tokens_eq`). For each form, two derivations that
make the same tokens with what stands behind them are equal, and so is what stands behind them; for
a form that may go on with further tokens, what stands behind it must not go on with it. The first
token in which two forms differ tells them apart.
-/

namespace LittleTiny

open Grammar

/-! ## Words and signs -/

theorem Comparison.operator_injective {c c' : Comparison}
    (h : c.operator = c'.operator) : c = c' := by
  cases c <;> cases c' <;> simp [operator] at h ⊢

theorem NumClass.keyword_injective {k k' : NumClass} (h : k.keyword = k'.keyword) :
    k = k' := by
  cases k <;> cases k' <;> simp [keyword] at h ⊢

theorem ReturnType.keyword_injective {k k' : ReturnType}
    (h : k.keyword = k'.keyword) : k = k' := by
  rcases k with (_ | _) | _ <;> rcases k' with (_ | _) | _ <;>
    simp [keyword, NumClass.keyword] at h ⊢

namespace Grammar

open Token Cursor

variable {r r' : Tokens}

/-! ## Lists -/

section Lists

variable {α : Type} {write : α → Tokens}

theorem Separated.restTokens_injective
    (hw : ∀ {a a' : α} {r r' : Tokens}, write a ++ r = write a' ++ r' → a = a' ∧ r = r')
    {rest rest' : List (Location × α)}
    (h : restTokens write rest ++ r = restTokens write rest' ++ r')
    (hr : Avoids (· = .operator .comma) r) (hr' : Avoids (· = .operator .comma) r') :
    rest = rest' ∧ r = r' := by
  induction rest generalizing rest' with
  | nil =>
    cases rest' with
    | nil => exact ⟨rfl, h⟩
    | cons x' rest' =>
      obtain rfl : r = _ := h
      simp [restTokens] at hr
  | cons x rest ih =>
    cases rest' with
    | nil =>
      obtain rfl : _ = r' := h
      simp [restTokens] at hr'
    | cons x' rest' =>
      simp only [restTokens, List.flatMap_cons, List.cons_append, List.append_assoc,
        List.cons.injEq, Located.mk.injEq, true_and] at h
      obtain ⟨ha, hmore⟩ := hw h.2
      obtain ⟨hrest, hrr⟩ := ih hmore
      exact ⟨congrArg₂ List.cons (Prod.ext h.1 ha) hrest, hrr⟩

theorem Separated.eq_of_tokens_eq
    (hw : ∀ {a a' : α} {r r' : Tokens}, write a ++ r = write a' ++ r' → a = a' ∧ r = r') :
    ∀ {x x' : Separated α}, x.tokens write ++ r = x'.tokens write ++ r' →
      Avoids (· = .operator .comma) r → Avoids (· = .operator .comma) r' → x = x' ∧ r = r' := by
  intro x x' h hr hr'
  rw [tokens, tokens, List.append_assoc, List.append_assoc] at h
  obtain ⟨ha, hrest⟩ := hw h
  obtain ⟨hrest, hrr⟩ := restTokens_injective hw hrest hr hr'
  exact ⟨congrArg₂ mk ha hrest, hrr⟩

theorem flatMap_eq_of_tokens_eq (starts : Token → Prop)
    (hs : ∀ a : α, ∃ x ts, write a = x :: ts ∧ starts x.value)
    (hw : ∀ {a a' : α} {r r' : Tokens}, write a ++ r = write a' ++ r' → a = a' ∧ r = r') :
    ∀ {as as' : List α}, as.flatMap write ++ r = as'.flatMap write ++ r' →
      Avoids starts r → Avoids starts r' → as = as' ∧ r = r' := by
  intro as as' h hr hr'
  induction as generalizing as' with
  | nil =>
    cases as' with
    | nil => exact ⟨rfl, h⟩
    | cons a' as' =>
      obtain ⟨x, ts, hx, hstart⟩ := hs a'
      obtain rfl : r = _ := h
      simp [hx, hstart] at hr
  | cons a as ih =>
    cases as' with
    | nil =>
      obtain ⟨x, ts, hx, hstart⟩ := hs a
      obtain rfl : _ = r' := h
      simp [hx, hstart] at hr'
    | cons a' as' =>
      rw [List.flatMap_cons, List.flatMap_cons, List.append_assoc, List.append_assoc] at h
      obtain ⟨rfl, htail⟩ := hw h
      obtain ⟨rfl, hrr⟩ := ih htail
      exact ⟨rfl, hrr⟩

theorem name_eq_of_tokens_eq {name name' : Located String}
    (h : [identifier name] ++ r = [identifier name'] ++ r') : name = name' ∧ r = r' := by
  cases name
  cases name'
  simp at h
  simp [h]

end Lists

/-! ## Expressions -/

theorem Additive.operator_injective {a a' : Additive} (h : a.operator = a'.operator) : a = a' := by
  cases a <;> cases a' <;> simp [operator] at h ⊢

theorem Multiplicative.operator_injective {a a' : Multiplicative}
    (h : a.operator = a'.operator) : a = a' := by
  cases a <;> cases a' <;> simp [operator] at h ⊢

theorem Additive.extendsSum (a : Additive) : ExtendsSum (.operator a.operator) := by
  cases a <;> exact .inr rfl

theorem Multiplicative.extendsProduct (a : Multiplicative) :
    ExtendsProduct (.operator a.operator) := by
  cases a <;> exact .inr rfl

mutual

theorem Sum.eq_of_tokens_eq : ∀ {d d' : Sum} {r r' : Tokens}, d.tokens ++ r = d'.tokens ++ r' →
    Avoids ExtendsSum r → Avoids ExtendsSum r' → d = d' ∧ r = r'
  | .mk first more, .mk first' more', r, r', h, hr, hr' => by
    rw [Sum.tokens, Sum.tokens, List.append_assoc, List.append_assoc] at h
    obtain ⟨rfl, hmore⟩ := Product.eq_of_tokens_eq h (more.avoids_extendsProduct hr)
      (more'.avoids_extendsProduct hr')
    obtain ⟨rfl, hrr⟩ := Terms.eq_of_tokens_eq hmore hr hr'
    exact ⟨rfl, hrr⟩

theorem Terms.eq_of_tokens_eq : ∀ {d d' : Terms} {r r' : Tokens}, d.tokens ++ r = d'.tokens ++ r' →
    Avoids ExtendsSum r → Avoids ExtendsSum r' → d = d' ∧ r = r'
  | .nil, .nil, r, r', h, hr, hr' => ⟨rfl, h⟩
  | .nil, .cons op operand more, r, r', h, hr, hr' => by
    obtain rfl : r = _ := h
    exact absurd op.value.extendsSum (avoids_cons.1 hr)
  | .cons op operand more, .nil, r, r', h, hr, hr' => by
    obtain rfl : _ = r' := h
    exact absurd op.value.extendsSum (avoids_cons.1 hr')
  | .cons ⟨op, l⟩ operand more, .cons ⟨op', l'⟩ operand' more', r, r', h, hr, hr' => by
    simp only [Terms.tokens, List.cons_append, List.append_assoc, List.cons.injEq, Located.mk.injEq,
      Token.operator.injEq] at h
    obtain ⟨⟨hop, rfl⟩, h⟩ := h
    obtain rfl := Additive.operator_injective hop
    obtain ⟨rfl, hmore⟩ := Product.eq_of_tokens_eq h (more.avoids_extendsProduct hr)
      (more'.avoids_extendsProduct hr')
    obtain ⟨rfl, hrr⟩ := Terms.eq_of_tokens_eq hmore hr hr'
    exact ⟨rfl, hrr⟩

theorem Product.eq_of_tokens_eq : ∀ {d d' : Product} {r r' : Tokens},
    d.tokens ++ r = d'.tokens ++ r' → Avoids ExtendsProduct r → Avoids ExtendsProduct r' →
    d = d' ∧ r = r'
  | .mk first more, .mk first' more', r, r', h, hr, hr' => by
    rw [Product.tokens, Product.tokens, List.append_assoc, List.append_assoc] at h
    obtain ⟨rfl, hmore⟩ := Atom.eq_of_tokens_eq h (more.avoids_extendsAtom hr)
      (more'.avoids_extendsAtom hr')
    obtain ⟨rfl, hrr⟩ := Factors.eq_of_tokens_eq hmore hr hr'
    exact ⟨rfl, hrr⟩

theorem Factors.eq_of_tokens_eq : ∀ {d d' : Factors} {r r' : Tokens},
    d.tokens ++ r = d'.tokens ++ r' → Avoids ExtendsProduct r → Avoids ExtendsProduct r' →
    d = d' ∧ r = r'
  | .nil, .nil, r, r', h, hr, hr' => ⟨rfl, h⟩
  | .nil, .cons op operand more, r, r', h, hr, hr' => by
    obtain rfl : r = _ := h
    exact absurd op.value.extendsProduct (avoids_cons.1 hr)
  | .cons op operand more, .nil, r, r', h, hr, hr' => by
    obtain rfl : _ = r' := h
    exact absurd op.value.extendsProduct (avoids_cons.1 hr')
  | .cons ⟨op, l⟩ operand more, .cons ⟨op', l'⟩ operand' more', r, r', h, hr, hr' => by
    simp only [Factors.tokens, List.cons_append, List.append_assoc, List.cons.injEq,
      Located.mk.injEq, Token.operator.injEq] at h
    obtain ⟨⟨hop, rfl⟩, h⟩ := h
    obtain rfl := Multiplicative.operator_injective hop
    obtain ⟨rfl, hmore⟩ := Atom.eq_of_tokens_eq h (more.avoids_extendsAtom hr)
      (more'.avoids_extendsAtom hr')
    obtain ⟨rfl, hrr⟩ := Factors.eq_of_tokens_eq hmore hr hr'
    exact ⟨rfl, hrr⟩

theorem Atom.eq_of_tokens_eq : ∀ {d d' : Atom} {r r' : Tokens}, d.tokens ++ r = d'.tokens ++ r' →
    Avoids ExtendsAtom r → Avoids ExtendsAtom r' → d = d' ∧ r = r'
  | .call ⟨function, l⟩ opening arguments closing, d', r, r', h, hr, hr' => by
    cases d' with
    | call function' opening' arguments' closing' =>
      obtain ⟨function', l'⟩ := function'
      simp only [Atom.tokens, List.cons_append, List.append_assoc, List.cons.injEq,
        Located.mk.injEq, Token.identifier.injEq, true_and] at h
      obtain ⟨⟨rfl, rfl⟩, rfl, h⟩ := h
      obtain ⟨rfl, hclose⟩ := Arguments.eq_of_tokens_eq h
      cases hclose
      exact ⟨rfl, rfl⟩
    | var name =>
      simp only [Atom.tokens, List.cons_append, List.nil_append, List.cons.injEq] at h
      rw [← h.2] at hr'
      exact (avoids_cons.1 hr' rfl).elim
    | _ => simp [Atom.tokens] at h
  | .paren opening inner closing, d', r, r', h, hr, hr' => by
    cases d' with
    | paren opening' inner' closing' =>
      simp only [Atom.tokens, List.cons_append, List.append_assoc, List.cons.injEq,
        Located.mk.injEq, true_and] at h
      obtain ⟨rfl, h⟩ := h
      obtain ⟨rfl, hclose⟩ := Sum.eq_of_tokens_eq h (avoids_extendsSum_closeParen closing r)
        (avoids_extendsSum_closeParen closing' r')
      cases hclose
      exact ⟨rfl, rfl⟩
    | _ => simp [Atom.tokens] at h
  | .var ⟨name, l⟩, d', r, r', h, hr, hr' => by
    cases d' with
    | call function' opening' arguments' closing' =>
      simp only [Atom.tokens, List.cons_append, List.nil_append, List.cons.injEq] at h
      rw [h.2] at hr
      exact (avoids_cons.1 hr rfl).elim
    | var name' =>
      cases h
      exact ⟨rfl, rfl⟩
    | _ => simp [Atom.tokens] at h
  | .int ⟨digits, l⟩, d', r, r', h, hr, hr' => by
    cases d' with
    | int digits' =>
      cases h
      exact ⟨rfl, rfl⟩
    | _ => simp [Atom.tokens] at h
  | .float ⟨digits, l⟩, d', r, r', h, hr, hr' => by
    cases d' with
    | float digits' =>
      cases h
      exact ⟨rfl, rfl⟩
    | _ => simp [Atom.tokens] at h

theorem Arguments.eq_of_tokens_eq : ∀ {d d' : Arguments} {c c' : Location} {r r' : Tokens},
    d.tokens ++ ([sign .closeParen c] ++ r) = d'.tokens ++ ([sign .closeParen c'] ++ r') →
    d = d' ∧ [sign .closeParen c] ++ r = [sign .closeParen c'] ++ r'
  | .none, .none, c, c', r, r', h => ⟨rfl, h⟩
  | .none, .some first more, c, c', r, r', h => by
    obtain ⟨t, ts, ht, hstart⟩ := first.exists_tokens_eq
    rw [Arguments.tokens, Arguments.tokens, ht] at h
    cases h
    cases hstart
  | .some first more, .none, c, c', r, r', h => by
    obtain ⟨t, ts, ht, hstart⟩ := first.exists_tokens_eq
    rw [Arguments.tokens, Arguments.tokens, ht] at h
    cases h
    cases hstart
  | .some first more, .some first' more', c, c', r, r', h => by
    rw [Arguments.tokens, Arguments.tokens, List.append_assoc, List.append_assoc] at h
    obtain ⟨rfl, hmore⟩ := Sum.eq_of_tokens_eq h (more.avoids_extendsSum c r)
      (more'.avoids_extendsSum c' r')
    obtain ⟨rfl, hrr⟩ := MoreArguments.eq_of_tokens_eq hmore
    exact ⟨rfl, hrr⟩

theorem MoreArguments.eq_of_tokens_eq : ∀ {d d' : MoreArguments} {c c' : Location} {r r' : Tokens},
    d.tokens ++ ([sign .closeParen c] ++ r) = d'.tokens ++ ([sign .closeParen c'] ++ r') →
    d = d' ∧ [sign .closeParen c] ++ r = [sign .closeParen c'] ++ r'
  | .nil, .nil, c, c', r, r', h => ⟨rfl, h⟩
  | .nil, .cons comma argument more, c, c', r, r', h => by
    simp [MoreArguments.tokens] at h
  | .cons comma argument more, .nil, c, c', r, r', h => by
    simp [MoreArguments.tokens] at h
  | .cons comma argument more, .cons comma' argument' more', c, c', r, r', h => by
    simp only [MoreArguments.tokens, List.cons_append, List.append_assoc, List.cons.injEq,
      Located.mk.injEq, true_and] at h
    obtain ⟨rfl, h⟩ := h
    obtain ⟨rfl, hmore⟩ := Sum.eq_of_tokens_eq h (more.avoids_extendsSum c r)
      (more'.avoids_extendsSum c' r')
    obtain ⟨rfl, hrr⟩ := MoreArguments.eq_of_tokens_eq hmore
    exact ⟨rfl, hrr⟩

end

theorem Cond.eq_of_tokens_eq {d d' : Cond} (h : d.tokens ++ r = d'.tokens ++ r')
    (hr : Avoids ExtendsSum r) (hr' : Avoids ExtendsSum r') : d = d' ∧ r = r' := by
  obtain ⟨lhs, ⟨op, l⟩, rhs⟩ := d
  obtain ⟨lhs', ⟨op', l'⟩, rhs'⟩ := d'
  simp only [Cond.tokens, List.append_assoc, List.cons_append] at h
  obtain ⟨rfl, hop⟩ := Sum.eq_of_tokens_eq h (avoids_extendsSum_comparison op l _)
    (avoids_extendsSum_comparison op' l' _)
  simp only [List.cons.injEq, Located.mk.injEq, Token.operator.injEq] at hop
  obtain ⟨⟨hop, rfl⟩, hrhs⟩ := hop
  obtain rfl := Comparison.operator_injective hop
  obtain ⟨rfl, hrr⟩ := Sum.eq_of_tokens_eq hrhs hr hr'
  exact ⟨rfl, hrr⟩

/-! ## Declarations -/

theorem nameTokens_injective {names names' : Separated (Located String)}
    (h : nameTokens names ++ r = nameTokens names' ++ r') (hr : Avoids (· = .operator .comma) r)
    (hr' : Avoids (· = .operator .comma) r') : names = names' ∧ r = r' :=
  Separated.eq_of_tokens_eq name_eq_of_tokens_eq h hr hr'

theorem Decl.eq_of_tokens_eq {d d' : Decl} (h : d.tokens ++ r = d'.tokens ++ r') :
    d = d' ∧ r = r' := by
  cases d with
  | text string name becomes value semicolon =>
    cases d' with
    | text string' name' becomes' value' semicolon' =>
      cases name; cases name'; cases value; cases value'
      cases h
      exact ⟨rfl, rfl⟩
    | numbers type' => cases ht : type'.value <;> simp [Decl.tokens, ht, NumClass.keyword] at h
  | numbers type names semicolon =>
    cases d' with
    | text => cases ht : type.value <;> simp [Decl.tokens, ht, NumClass.keyword] at h
    | numbers type' names' semicolon' =>
      obtain ⟨type, l⟩ := type
      obtain ⟨type', l'⟩ := type'
      simp only [Decl.tokens, List.cons_append, List.append_assoc, List.cons.injEq,
        Located.mk.injEq, Token.keyword.injEq] at h
      obtain ⟨⟨htype, rfl⟩, h⟩ := h
      obtain rfl := NumClass.keyword_injective htype
      obtain ⟨rfl, hrr⟩ := nameTokens_injective h (by simp) (by simp)
      cases hrr
      exact ⟨rfl, rfl⟩

theorem Param.eq_of_tokens_eq {p p' : Param} (h : p.tokens ++ r = p'.tokens ++ r') :
    p = p' ∧ r = r' := by
  obtain ⟨⟨type, l⟩, ⟨name, m⟩⟩ := p
  obtain ⟨⟨type', l'⟩, ⟨name', m'⟩⟩ := p'
  simp only [Param.tokens, List.cons_append, List.nil_append, List.cons.injEq, Located.mk.injEq,
    Token.keyword.injEq, Token.identifier.injEq] at h
  obtain ⟨⟨htype, rfl⟩, ⟨rfl, rfl⟩, hrr⟩ := h
  obtain rfl := NumClass.keyword_injective htype
  exact ⟨rfl, hrr⟩

theorem Params.eq_of_tokens_eq {ps ps' : Params} {c c' : Location}
    (h : ps.tokens ++ sign .closeParen c :: r = ps'.tokens ++ sign .closeParen c' :: r') :
    ps = ps' ∧ sign .closeParen c :: r = sign .closeParen c' :: r' := by
  cases ps with
  | none =>
    cases ps' with
    | none => exact ⟨rfl, h⟩
    | some list' => simp [Params.tokens, Separated.tokens, Param.tokens] at h
  | some list =>
    cases ps' with
    | none => simp [Params.tokens, Separated.tokens, Param.tokens] at h
    | some list' =>
      obtain ⟨rfl, hrr⟩ := Separated.eq_of_tokens_eq Param.eq_of_tokens_eq h (by simp) (by simp)
      exact ⟨rfl, hrr⟩

/-! ## Statements -/

theorem headTokens_injective {opening opening' closing closing' : Location} {c c' : Cond}
    (h : headTokens opening c closing ++ r = headTokens opening' c' closing' ++ r') :
    opening = opening' ∧ c = c' ∧ closing = closing' ∧ r = r' := by
  simp only [headTokens, List.cons_append, List.append_assoc, List.cons.injEq, Located.mk.injEq,
    true_and] at h
  obtain ⟨rfl, h⟩ := h
  obtain ⟨rfl, hclose⟩ := Cond.eq_of_tokens_eq h (avoids_extendsSum_closeParen closing r)
    (avoids_extendsSum_closeParen closing' r')
  cases hclose
  exact ⟨rfl, rfl, rfl, rfl⟩

theorem listTokens_injective {opening opening' closing closing' semicolon semicolon' : Location}
    {names names' : Separated (Located String)}
    (h : listTokens opening names closing semicolon ++ r =
      listTokens opening' names' closing' semicolon' ++ r') :
    opening = opening' ∧ names = names' ∧ closing = closing' ∧ semicolon = semicolon' ∧ r = r' := by
  simp only [listTokens, List.cons_append, List.append_assoc, List.cons.injEq, Located.mk.injEq,
    true_and] at h
  obtain ⟨rfl, h⟩ := h
  obtain ⟨rfl, hclose⟩ := nameTokens_injective h (by simp) (by simp)
  cases hclose
  exact ⟨rfl, rfl, rfl, rfl, rfl⟩

mutual

theorem Stmt.eq_of_tokens_eq : ∀ {d d' : Stmt} {r r' : Tokens}, d.tokens ++ r = d'.tokens ++ r' →
    d = d' ∧ r = r'
  | .assign ⟨target, l⟩ becomes value semicolon, d', r, r', h => by
    cases d' with
    | assign target' becomes' value' semicolon' =>
      obtain ⟨target', l'⟩ := target'
      simp only [Stmt.tokens, List.cons_append, List.append_assoc, List.cons.injEq,
        Located.mk.injEq, Token.identifier.injEq, true_and] at h
      obtain ⟨⟨rfl, rfl⟩, rfl, h⟩ := h
      obtain ⟨rfl, hend⟩ := Sum.eq_of_tokens_eq h (avoids_extendsSum_semicolon semicolon r)
        (avoids_extendsSum_semicolon semicolon' r')
      cases hend
      exact ⟨rfl, rfl⟩
    | _ => simp [Stmt.tokens] at h
  | .read start opening names closing semicolon, d', r, r', h => by
    cases d' with
    | read start' opening' names' closing' semicolon' =>
      simp only [Stmt.tokens, List.cons_append, List.cons.injEq, Located.mk.injEq, true_and] at h
      obtain ⟨rfl, h⟩ := h
      obtain ⟨rfl, rfl, rfl, rfl, rfl⟩ := listTokens_injective h
      exact ⟨rfl, rfl⟩
    | _ => simp [Stmt.tokens] at h
  | .write start opening names closing semicolon, d', r, r', h => by
    cases d' with
    | write start' opening' names' closing' semicolon' =>
      simp only [Stmt.tokens, List.cons_append, List.cons.injEq, Located.mk.injEq, true_and] at h
      obtain ⟨rfl, h⟩ := h
      obtain ⟨rfl, rfl, rfl, rfl, rfl⟩ := listTokens_injective h
      exact ⟨rfl, rfl⟩
    | _ => simp [Stmt.tokens] at h
  | .ifThen if_ opening condition closing body endIf, d', r, r', h => by
    cases d' with
    | ifThen if_' opening' condition' closing' body' endIf' =>
      simp only [Stmt.tokens, List.cons_append, List.append_assoc, List.cons.injEq,
        Located.mk.injEq, true_and] at h
      obtain ⟨rfl, h⟩ := h
      obtain ⟨rfl, rfl, rfl, hbody⟩ := headTokens_injective h
      obtain ⟨rfl, hend⟩ := Body.eq_of_tokens_eq hbody (avoids_extendsBody rfl rfl)
        (avoids_extendsBody rfl rfl)
      cases hend
      exact ⟨rfl, rfl⟩
    | ifElse if_' opening' condition' closing' body' else_' alternative' endIf' =>
      simp only [Stmt.tokens, List.cons_append, List.append_assoc, List.cons.injEq,
        Located.mk.injEq, true_and] at h
      obtain ⟨rfl, rfl, rfl, hbody⟩ := headTokens_injective h.2
      obtain ⟨rfl, hend⟩ := Body.eq_of_tokens_eq hbody (avoids_extendsBody rfl rfl)
        (avoids_extendsBody rfl rfl)
      cases hend
    | _ => simp [Stmt.tokens] at h
  | .ifElse if_ opening condition closing body else_ alternative endIf, d', r, r', h => by
    cases d' with
    | ifThen if_' opening' condition' closing' body' endIf' =>
      simp only [Stmt.tokens, List.cons_append, List.append_assoc, List.cons.injEq,
        Located.mk.injEq, true_and] at h
      obtain ⟨rfl, rfl, rfl, hbody⟩ := headTokens_injective h.2
      obtain ⟨rfl, hend⟩ := Body.eq_of_tokens_eq hbody (avoids_extendsBody rfl rfl)
        (avoids_extendsBody rfl rfl)
      cases hend
    | ifElse if_' opening' condition' closing' body' else_' alternative' endIf' =>
      simp only [Stmt.tokens, List.cons_append, List.append_assoc, List.cons.injEq,
        Located.mk.injEq, true_and] at h
      obtain ⟨rfl, h⟩ := h
      obtain ⟨rfl, rfl, rfl, hbody⟩ := headTokens_injective h
      obtain ⟨rfl, helse⟩ := Body.eq_of_tokens_eq hbody (avoids_extendsBody rfl rfl)
        (avoids_extendsBody rfl rfl)
      simp only [List.cons.injEq, Located.mk.injEq, true_and] at helse
      obtain ⟨rfl, halternative⟩ := helse
      obtain ⟨rfl, hend⟩ := Body.eq_of_tokens_eq halternative (avoids_extendsBody rfl rfl)
        (avoids_extendsBody rfl rfl)
      cases hend
      exact ⟨rfl, rfl⟩
    | _ => simp [Stmt.tokens] at h
  | .loop while_ opening condition closing body endWhile, d', r, r', h => by
    cases d' with
    | loop while_' opening' condition' closing' body' endWhile' =>
      simp only [Stmt.tokens, List.cons_append, List.append_assoc, List.cons.injEq,
        Located.mk.injEq, true_and] at h
      obtain ⟨rfl, h⟩ := h
      obtain ⟨rfl, rfl, rfl, hbody⟩ := headTokens_injective h
      obtain ⟨rfl, hend⟩ := Body.eq_of_tokens_eq hbody (avoids_extendsBody rfl rfl)
        (avoids_extendsBody rfl rfl)
      cases hend
      exact ⟨rfl, rfl⟩
    | _ => simp [Stmt.tokens] at h
  | .return_ start value semicolon, d', r, r', h => by
    cases d' with
    | return_ start' value' semicolon' =>
      simp only [Stmt.tokens, List.cons_append, List.append_assoc, List.cons.injEq,
        Located.mk.injEq, true_and] at h
      obtain ⟨rfl, h⟩ := h
      obtain ⟨rfl, hend⟩ := Sum.eq_of_tokens_eq h (avoids_extendsSum_semicolon semicolon r)
        (avoids_extendsSum_semicolon semicolon' r')
      cases hend
      exact ⟨rfl, rfl⟩
    | _ => simp [Stmt.tokens] at h

theorem Body.eq_of_tokens_eq : ∀ {b b' : Body} {r r' : Tokens}, b.tokens ++ r = b'.tokens ++ r' →
    Avoids ExtendsBody r → Avoids ExtendsBody r' → b = b' ∧ r = r'
  | ⟨decls, stmts⟩, ⟨decls', stmts'⟩, r, r', h, hr, hr' => by
    rw [Body.tokens, Body.tokens, List.append_assoc, List.append_assoc] at h
    obtain ⟨rfl, hstmts⟩ := flatMap_eq_of_tokens_eq _ Decl.startsDeclaration_head
      Decl.eq_of_tokens_eq h (Stmt.avoids_startsDeclaration hr stmts)
      (Stmt.avoids_startsDeclaration hr' stmts')
    obtain ⟨rfl, hrr⟩ := Stmt.tokensAll_injective hstmts (hr.mono fun _ => .inr)
      (hr'.mono fun _ => .inr)
    exact ⟨rfl, hrr⟩

theorem Stmt.tokensAll_injective : ∀ {ds ds' : List Stmt} {r r' : Tokens},
    Stmt.tokensAll ds ++ r = Stmt.tokensAll ds' ++ r' →
    Avoids (fun t => t.startsStatement = true) r → Avoids (fun t => t.startsStatement = true) r' →
    ds = ds' ∧ r = r'
  | [], [], r, r', h, hr, hr' => ⟨rfl, h⟩
  | [], d' :: ds', r, r', h, hr, hr' => by
    obtain ⟨x, ts, hx, hstart⟩ := d'.startsStatement_head
    obtain rfl : r = _ := h
    simp [Stmt.tokensAll, hx, hstart] at hr
  | d :: ds, [], r, r', h, hr, hr' => by
    obtain ⟨x, ts, hx, hstart⟩ := d.startsStatement_head
    obtain rfl : _ = r' := h
    simp [Stmt.tokensAll, hx, hstart] at hr'
  | d :: ds, d' :: ds', r, r', h, hr, hr' => by
    rw [Stmt.tokensAll, Stmt.tokensAll, List.append_assoc, List.append_assoc] at h
    obtain ⟨rfl, htail⟩ := Stmt.eq_of_tokens_eq h
    obtain ⟨rfl, hrr⟩ := Stmt.tokensAll_injective htail hr hr'
    exact ⟨rfl, hrr⟩

end

/-! ## Programs -/

theorem Func.eq_of_tokens_eq {f f' : Func} (h : f.tokens ++ r = f'.tokens ++ r') :
    f = f' ∧ r = r' := by
  obtain ⟨function, ⟨returns, l⟩, ⟨name, m⟩, opening, parameters, closing, begin_, body, end_⟩ := f
  obtain ⟨function', ⟨returns', l'⟩, ⟨name', m'⟩, opening', parameters', closing', begin_', body',
    end_'⟩ := f'
  simp only [Func.tokens, List.cons_append, List.append_assoc, List.cons.injEq, Located.mk.injEq,
    Token.keyword.injEq, Token.identifier.injEq, true_and] at h
  obtain ⟨rfl, ⟨hreturns, rfl⟩, ⟨rfl, rfl⟩, rfl, h⟩ := h
  obtain rfl := ReturnType.keyword_injective hreturns
  obtain ⟨rfl, hclose⟩ := Params.eq_of_tokens_eq h
  simp only [List.cons.injEq, Located.mk.injEq, true_and] at hclose
  obtain ⟨rfl, rfl, hbody⟩ := hclose
  obtain ⟨rfl, hend⟩ := Body.eq_of_tokens_eq hbody (avoids_extendsBody rfl rfl)
    (avoids_extendsBody rfl rfl)
  cases hend
  exact ⟨rfl, rfl⟩

/-- Tokens have one derivation at most. -/
theorem Prog.eq_of_tokens_eq {p p' : Prog} (h : p.tokens = p'.tokens) : p = p' := by
  obtain ⟨program, ⟨name, l⟩, begin_, globals, functions, end_⟩ := p
  obtain ⟨program', ⟨name', l'⟩, begin_', globals', functions', end_'⟩ := p'
  simp only [Prog.tokens, List.append_assoc, List.cons.injEq, Located.mk.injEq,
    Token.identifier.injEq, true_and] at h
  obtain ⟨rfl, ⟨rfl, rfl⟩, rfl, h⟩ := h
  obtain ⟨rfl, hfunctions⟩ := flatMap_eq_of_tokens_eq _ Decl.startsDeclaration_head
    Decl.eq_of_tokens_eq h (Func.avoids_startsDeclaration end_ functions)
    (Func.avoids_startsDeclaration end_' functions')
  have hstart : ∀ f : Func, ∃ x ts, f.tokens = x :: ts ∧ x.value = .keyword .function :=
    fun f => ⟨_, _, rfl, rfl⟩
  obtain ⟨rfl, hend⟩ := flatMap_eq_of_tokens_eq (· = .keyword .function) hstart Func.eq_of_tokens_eq
    hfunctions (by simp) (by simp)
  cases hend
  rfl

end Grammar

/-! ## Associativity -/

namespace Grammar

theorem Terms.tree_eq_foldl : ∀ (rest : Terms) (lhs : Expr),
    rest.tree lhs = rest.toList.foldl (fun e x => .binary x.1.op e x.2.tree
      ⟨e.location.first, x.2.tree.location.last⟩) lhs
  | .nil, _ => rfl
  | .cons _ _ rest, _ => rest.tree_eq_foldl _

theorem Factors.tree_eq_foldl : ∀ (rest : Factors) (lhs : Expr),
    rest.tree lhs = rest.toList.foldl (fun e x => .binary x.1.op e x.2.tree
      ⟨e.location.first, x.2.tree.location.last⟩) lhs
  | .nil, _ => rfl
  | .cons _ _ rest, _ => rest.tree_eq_foldl _

end Grammar

/-- The reader accepts exactly the tokens that have a derivation in which no scope declares a name
twice, and yields the tree of the derivation, of which there is only one. In the tree, a sum joins
its products from the left, and a product joins its atoms from the left. -/
theorem Program.parse_iff_unique_derivation (tokens : List (Located Token)) :
    (∀ p, Program.parse tokens = .ok p ↔
      ∃ d : Prog, d.tokens = tokens ∧ d.Distinct ∧ d.tree = p) ∧
    Subsingleton { d : Prog // d.tokens = tokens } ∧
    (∀ (first : Product) (rest : Terms), (Sum.mk first rest).tree =
      rest.toList.foldl (fun e x => .binary x.1.op e x.2.tree
        ⟨e.location.first, x.2.tree.location.last⟩) first.tree) ∧
    (∀ (first : Atom) (rest : Factors), (Product.mk first rest).tree =
      rest.toList.foldl (fun e x => .binary x.1.op e x.2.tree
        ⟨e.location.first, x.2.tree.location.last⟩) first.tree) := by
  refine ⟨fun p => Program.parse_eq_ok_iff, ⟨?_⟩, ?_, ?_⟩
  · rintro ⟨d, hd⟩ ⟨d', hd'⟩
    exact Subtype.ext (Prog.eq_of_tokens_eq (hd.trans hd'.symm))
  · intro first rest
    exact rest.tree_eq_foldl first.tree
  · intro first rest
    exact rest.tree_eq_foldl first.tree

end LittleTiny
