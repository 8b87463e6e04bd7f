import LittleTiny.Proofs.Viability.Lookahead
import LittleTiny.Proofs.Viability.Repeats

/-!
# Syntax errors are raised at the first impossible token

The reader fails at the first token that no program goes on with (`Viable`), and any token that the
error asks for would have been possible there. If the tokens end too early, they begin some program,
and the error is at the last of them that was required: in a program an optional token always has a
required one before it (`Firm`). A name that is declared twice is reported as soon as every program
that begins with the tokens has it.
-/

namespace LittleTiny

open Reading Cursor Grammar

namespace Grammar

/-! ## Optional tokens stand alone -/

/-- No optional token is at either end, and no two of them are side by side. -/
inductive Firm : Tokens → Prop
  | one (x : Located Token) (hx : x.value.optional = false) : Firm [x]
  | append {ts us : Tokens} (h : Firm ts) (h' : Firm us) : Firm (ts ++ us)
  | apart {ts us : Tokens} (x : Located Token) (h : Firm ts) (h' : Firm us) : Firm (ts ++ x :: us)

/-- Nothing, or firm. -/
def Loose (ts : Tokens) : Prop := ts = [] ∨ Firm ts

namespace Firm

variable {ts us : Tokens}

theorem cons (x : Located Token) (hx : x.value.optional = false) (h : Firm us) : Firm (x :: us) :=
  (one x hx).append h

theorem append_loose (h : Firm ts) (h' : Loose us) : Firm (ts ++ us) := by
  obtain rfl | h' := h'
  · rwa [List.append_nil]
  · exact h.append h'

theorem loose_append (h : Loose ts) (h' : Firm us) : Firm (ts ++ us) := by
  obtain rfl | h := h
  · exact h'
  · exact h.append h'

theorem exists_last (h : Firm ts) : ∃ pre y, ts = pre ++ [y] ∧ y.value.optional = false := by
  induction h with
  | one x hx => exact ⟨[], x, rfl, hx⟩
  | @append ts us _ _ _ ih =>
    obtain ⟨pre, y, rfl, hy⟩ := ih
    exact ⟨ts ++ pre, y, (List.append_assoc ..).symm, hy⟩
  | @apart ts us x _ _ _ ih =>
    obtain ⟨pre, y, rfl, hy⟩ := ih
    exact ⟨ts ++ x :: pre, y, by simp, hy⟩

/-- Before an optional token there is one that is not. -/
theorem exists_before (h : Firm ts) {pre post : Tokens} {x : Located Token}
    (hts : ts = pre ++ x :: post) (hx : x.value.optional = true) :
    ∃ pre' y, pre = pre' ++ [y] ∧ y.value.optional = false := by
  induction h generalizing pre post with
  | one y hy =>
    cases pre with
    | nil =>
      cases hts
      rw [hx] at hy
      cases hy
    | cons z pre => simp at hts
  | @append ts us _ _ ih ih' =>
    obtain ⟨more, rfl, hmore⟩ | ⟨more, rfl, hmore⟩ := List.append_eq_append_iff.1 hts
    · obtain ⟨pre', y, rfl, hy⟩ := ih' hmore
      exact ⟨ts ++ pre', y, (List.append_assoc ..).symm, hy⟩
    · cases more with
      | nil =>
        have hus : us = [] ++ x :: post := hmore.symm
        obtain ⟨pre', y, hnil, -⟩ := ih' hus
        simp at hnil
      | cons z more =>
        cases hmore
        exact ih rfl
  | @apart ts us y h _ ih ih' =>
    obtain ⟨more, rfl, hmore⟩ | ⟨more, rfl, hmore⟩ := List.append_eq_append_iff.1 hts
    · cases more with
      | nil => simpa using h.exists_last
      | cons z more =>
        obtain ⟨rfl, rfl⟩ := List.cons_eq_cons.1 hmore
        obtain ⟨pre', w, rfl, hw⟩ := ih' rfl
        exact ⟨ts ++ y :: pre', w, by simp, hw⟩
    · cases more with
      | nil => simpa using h.exists_last
      | cons z more =>
        cases hmore
        exact ih rfl

end Firm

theorem Loose.append {ts us : Tokens} (h : Loose ts) (h' : Loose us) : Loose (ts ++ us) := by
  obtain rfl | h := h
  · exact h'
  · exact .inr (h.append_loose h')

theorem firm_separated {α : Type} {write : α → Tokens} (h : ∀ a, Firm (write a))
    (x : Separated α) : Firm (x.tokens write) := by
  have hrest : ∀ (rest : List (Location × α)) {ts : Tokens}, Firm ts →
      Firm (ts ++ Separated.restTokens write rest) := by
    intro rest
    induction rest with
    | nil => exact fun hts => hts.append_loose (.inl rfl)
    | cons y rest ih =>
      intro ts hts
      have hcons : ts ++ Separated.restTokens write (y :: rest) =
          (ts ++ sign .comma y.1 :: write y.2) ++ Separated.restTokens write rest :=
        (List.append_assoc ..).symm
      rw [hcons]
      exact ih (.apart _ hts (h y.2))
  exact hrest x.rest (h x.first)

theorem loose_flatMap {α : Type} {write : α → Tokens} (h : ∀ a, Firm (write a)) (xs : List α) :
    Loose (xs.flatMap write) := by
  induction xs with
  | nil => exact .inl rfl
  | cons x xs ih => exact .inr ((h x).append_loose ih)

mutual

theorem Sum.firm : ∀ d : Sum, Firm d.tokens
  | .mk first rest => by
    rw [Sum.tokens]
    exact first.firm.append_loose rest.loose

theorem Terms.loose : ∀ d : Terms, Loose d.tokens
  | .nil => by
    rw [Terms.tokens]
    exact .inl rfl
  | .cons op operand rest => by
    rw [Terms.tokens]
    exact .inr (.cons _ (by cases op.value <;> rfl) (operand.firm.append_loose rest.loose))

theorem Product.firm : ∀ d : Product, Firm d.tokens
  | .mk first rest => by
    rw [Product.tokens]
    exact first.firm.append_loose rest.loose

theorem Factors.loose : ∀ d : Factors, Loose d.tokens
  | .nil => by
    rw [Factors.tokens]
    exact .inl rfl
  | .cons op operand rest => by
    rw [Factors.tokens]
    exact .inr (.cons _ (by cases op.value <;> rfl) (operand.firm.append_loose rest.loose))

theorem Atom.firm : ∀ d : Atom, Firm d.tokens
  | .call function opening arguments closing => by
    rw [Atom.tokens]
    exact .cons _ rfl (.cons _ rfl (.loose_append arguments.loose (.one _ rfl)))
  | .paren opening inner closing => by
    rw [Atom.tokens]
    exact .cons _ rfl (inner.firm.append (.one _ rfl))
  | .var name => by
    rw [Atom.tokens]
    exact .one _ rfl
  | .int digits => by
    rw [Atom.tokens]
    exact .one _ rfl
  | .float digits => by
    rw [Atom.tokens]
    exact .one _ rfl

theorem Arguments.loose : ∀ d : Arguments, Loose d.tokens
  | .none => by
    rw [Arguments.tokens]
    exact .inl rfl
  | .some first rest => by
    rw [Arguments.tokens]
    exact .inr (rest.firm_append first.firm)

theorem MoreArguments.firm_append : ∀ (d : MoreArguments) {ts : Tokens}, Firm ts →
    Firm (ts ++ d.tokens)
  | .nil, ts, h => by
    rw [MoreArguments.tokens]
    exact h.append_loose (.inl rfl)
  | .cons comma argument rest, ts, h => by
    have hcons : ts ++ sign .comma comma :: (argument.tokens ++ rest.tokens) =
        (ts ++ sign .comma comma :: argument.tokens) ++ rest.tokens := by simp
    rw [MoreArguments.tokens, hcons]
    exact rest.firm_append (.apart _ h argument.firm)

end

theorem Cond.firm (c : Cond) : Firm c.tokens :=
  c.lhs.firm.append (.cons _ (by cases c.op.value <;> rfl) c.rhs.firm)

theorem firm_names (names : Separated (Located String)) : Firm (nameTokens names) :=
  firm_separated (fun _ => .one _ rfl) names

theorem Decl.firm (d : Decl) : Firm d.tokens := by
  cases d with
  | text string name becomes value semicolon =>
    exact .cons _ rfl (.cons _ rfl (.cons _ rfl (.cons _ rfl (.one _ rfl))))
  | numbers type names semicolon =>
    exact .cons _ (by cases type.value <;> rfl) ((firm_names names).append (.one _ rfl))

theorem Params.loose (ps : Params) : Loose ps.tokens := by
  cases ps with
  | none => exact .inl rfl
  | some list =>
    refine .inr (firm_separated (fun p => ?_) list)
    exact .cons _ (by cases p.type.value <;> rfl) (.one _ rfl)

theorem firm_head (opening : Location) (c : Cond) (closing : Location) :
    Firm (headTokens opening c closing) :=
  .cons _ rfl (c.firm.append (.one _ rfl))

theorem firm_list (opening : Location) (names : Separated (Located String))
    (closing semicolon : Location) : Firm (listTokens opening names closing semicolon) :=
  .cons _ rfl ((firm_names names).append (.cons _ rfl (.one _ rfl)))

mutual

theorem Stmt.firm : ∀ d : Stmt, Firm d.tokens
  | .assign target becomes value semicolon => by
    rw [Stmt.tokens]
    exact .cons _ rfl (.cons _ rfl (value.firm.append (.one _ rfl)))
  | .read start opening names closing semicolon => by
    rw [Stmt.tokens]
    exact .cons _ rfl (firm_list ..)
  | .write start opening names closing semicolon => by
    rw [Stmt.tokens]
    exact .cons _ rfl (firm_list ..)
  | .ifThen if_ opening condition closing body endIf => by
    rw [Stmt.tokens]
    exact .cons _ rfl (((firm_head ..).append_loose body.loose).append (.one _ rfl))
  | .ifElse if_ opening condition closing body else_ alternative endIf => by
    rw [Stmt.tokens]
    exact .cons _ rfl (.apart _ ((firm_head ..).append_loose body.loose)
      (.loose_append alternative.loose (.one _ rfl)))
  | .loop while_ opening condition closing body endWhile => by
    rw [Stmt.tokens]
    exact .cons _ rfl (((firm_head ..).append_loose body.loose).append (.one _ rfl))
  | .return_ start value semicolon => by
    rw [Stmt.tokens]
    exact .cons _ rfl (value.firm.append (.one _ rfl))

theorem Body.loose : ∀ b : Body, Loose b.tokens
  | ⟨decls, stmts⟩ => by
    rw [Body.tokens]
    exact (loose_flatMap Decl.firm decls).append (Stmt.loose_tokensAll stmts)

theorem Stmt.loose_tokensAll : ∀ ds : List Stmt, Loose (Stmt.tokensAll ds)
  | [] => by
    rw [Stmt.tokensAll]
    exact .inl rfl
  | d :: ds => by
    rw [Stmt.tokensAll]
    exact .inr (d.firm.append_loose (Stmt.loose_tokensAll ds))

end

theorem Func.firm (f : Func) : Firm f.tokens := by
  have hreturns : (Token.keyword f.returns.value.keyword).optional = false := by
    rcases f.returns.value with (_ | _) | _ <;> rfl
  exact .cons _ rfl (.cons _ hreturns (.cons _ rfl (.cons _ rfl (.loose_append f.parameters.loose
    (.cons _ rfl (.cons _ rfl (.loose_append f.body.loose (.one _ rfl))))))))

theorem Prog.firm (d : Prog) : Firm d.tokens := by
  have hparts : Loose (d.globals.flatMap Decl.tokens ++ d.functions.flatMap Func.tokens) :=
    (loose_flatMap Decl.firm _).append (loose_flatMap Func.firm _)
  exact .cons _ rfl (.cons _ rfl (.cons _ rfl (.loose_append hparts (.one _ rfl))))

/-! ## Beginnings of programs -/

/-- Some program begins with the tokens. -/
def Viable (ts : Tokens) : Prop := ∃ d : Prog, ts <+: d.tokens

/-- The tokens before number `k` begin a program, and with this one they do not. -/
structure FirstImpossible (tokens : Tokens) (k : Nat) : Prop where
  before : Viable (tokens.take k)
  upTo : ¬ Viable (tokens.take (k + 1))

/-- Where an early end is reported: at the last token, or at the one before it if the last is a
comma or an ELSE. -/
inductive EndsAt : Tokens → Location → Prop
  | nothing : EndsAt [] (.point ⟨1, 0⟩)
  | required (ts : Tokens) (x : Located Token) (hx : x.value.optional = false) :
      EndsAt (ts ++ [x]) x.location
  | optional (ts : Tokens) (x y : Located Token) (hy : y.value.optional = true) :
      EndsAt (ts ++ [x, y]) x.location

theorem lastOf_append_singleton (l : Location) (ts : Tokens) (x : Located Token) :
    lastOf l (ts ++ [x]) = if x.value.optional then lastOf l ts else x.location := by
  rw [lastOf, List.foldl_append]
  rfl

theorem Viable.endsAt {ts : Tokens} (h : Viable ts) : EndsAt ts (lastOf {} ts) := by
  obtain ⟨d, more, hd⟩ := h
  rcases List.eq_nil_or_concat ts with rfl | ⟨ts, x, rfl⟩
  · exact .nothing
  · rw [List.concat_eq_append] at hd ⊢
    rw [lastOf_append_singleton]
    cases hx : x.value.optional with
    | false => exact .required ts x hx
    | true =>
      rw [List.append_assoc] at hd
      obtain ⟨ts, y, rfl, hy⟩ := d.firm.exists_before hd.symm hx
      rw [if_pos rfl, lastOf_append_singleton, hy, List.append_assoc]
      exact .optional ts y x hx

end Grammar

/-! ## Errors -/

namespace Program

variable {tokens : List (Located Token)} {e : Located SyntaxError}

/-- The only error in the tokens of a derivation is a name that is declared twice. -/
theorem repeated?_of_parse_tokens {d : Prog} (h : parse d.tokens = .error e) :
    ∃ x, d.repeated? = some x ∧ e = ⟨.redeclared ⟨x.value⟩, x.location⟩ := by
  rw [parse_tokens] at h
  cases hx : d.repeated? with
  | none =>
    rw [hx] at h
    cases h
  | some x =>
    rw [hx] at h
    cases h
    exact ⟨x, rfl, rfl⟩

/-- The error depends on no token behind the one at which it is reported, so that no program has
this one there. -/
theorem firstImpossible_of_fault {ts rest : Tokens} {x : Located Token} {t : Cursor}
    {error : SyntaxError} (h : parseWhole { ahead := ts ++ x :: rest } = .error (t.fault error))
    (ht : t.ahead = x :: rest) (herror : error.isRedeclared = false) (hts : Viable ts) :
    FirstImpossible (ts ++ x :: rest) ts.length := by
  have happ : ts ++ x :: rest = ts ++ [x] ++ rest := by simp
  have htake : (ts ++ x :: rest).take (ts.length + 1) = ts ++ [x] := by
    rw [happ]
    exact List.take_left' (by simp)
  refine ⟨by rwa [List.take_left' rfl], ?_⟩
  have hstop : rest.length < (t.fault error).stop.size := by
    rw [stop_fault, size, ht]
    exact Nat.lt_succ_self _
  rw [htake]
  rintro ⟨d, b, hd⟩
  rw [happ] at h
  have hparse := parse_append_eq_error (b := b) (by simp) h (.inl hstop)
  rw [hd] at hparse
  obtain ⟨y, -, hy⟩ := repeated?_of_parse_tokens hparse
  have hordinary := isRedeclared_fault (s := t) herror
  rw [hy] at hordinary
  cases hordinary

/-- The error does not depend on the tokens behind the declaration, so that every program that
begins as they do has it. -/
theorem repeated?_of_redeclared {ts rest : Tokens} {stop : Stop} {error : Redeclared}
    (h : parseWhole { ahead := ts ++ rest } = .error stop) (hts : ts ≠ [])
    (herror : stop.error.value = .redeclared error) (hsize : rest.length ≤ stop.stop.size)
    {d : Prog} (hd : ts <+: d.tokens) : d.repeated? = some ⟨error.name, stop.error.location⟩ := by
  obtain ⟨b, hb⟩ := hd
  have hparse := parse_append_eq_error (b := b) hts h (.inr ⟨by rw [herror]; rfl, hsize⟩)
  rw [hb] at hparse
  obtain ⟨x, hx, he⟩ := repeated?_of_parse_tokens hparse
  rw [he] at herror ⊢
  cases herror
  exact hx

/-- How an error comes about. -/
inductive Raised : Tokens → Located SyntaxError → Prop
  | impossible {ts rest : Tokens} {x : Located Token} {e : SyntaxError} (he : e ≠ .unexpectedEnd)
      (hr : e.isRedeclared = false) (hfirst : FirstImpossible (ts ++ x :: rest) ts.length)
      (hexpects : e ≠ .trailingInput → (∃ y, e.Expects y) ∧
        ∀ y : Located Token, e.Expects y.value → Viable (ts ++ [y])) :
      Raised (ts ++ x :: rest) ⟨e, x.location⟩
  | early {ts : Tokens} {l : Location} (d : Prog) (hd : ts <+: d.tokens) (hne : ts ≠ d.tokens)
      (hl : EndsAt ts l) : Raised ts ⟨.unexpectedEnd, l⟩
  | redeclared {ts rest : Tokens} {error : Redeclared} {l : Location} (hts : Viable ts)
      (hd : ∀ d : Prog, ts <+: d.tokens → d.repeated? = some ⟨error.name, l⟩) :
      Raised (ts ++ rest) ⟨.redeclared error, l⟩

theorem raised_of_redeclared {ts : Tokens} {stop : Stop}
    (h : parseWhole { ahead := ts ++ stop.stop.ahead } = .error stop) (hts : ts ≠ [])
    (he : stop.error.value.isRedeclared = true) (hviable : Viable ts) :
    Raised (ts ++ stop.stop.ahead) stop.error := by
  obtain ⟨⟨e, l⟩, t⟩ := stop
  cases e with
  | redeclared error =>
    exact .redeclared hviable fun d hd => repeated?_of_redeclared h hts rfl (Nat.le_refl _) hd
  | _ => cases he

theorem raised_of_fault {ts : Tokens} {t : Cursor} {e : SyntaxError}
    (h : parseWhole { ahead := ts ++ t.ahead } = .error (t.fault e)) (hlast : t.last = lastOf {} ts)
    (he : ∃ x, e.Expects x)
    (hd : ∀ x : Located Token, e.Expects x.value → ∃ (d : Prog) (more : Tokens),
      d.tokens = ts ++ x :: more) :
    Raised (ts ++ t.ahead) (t.fault e).error := by
  obtain ⟨x, hx⟩ := he
  obtain ⟨d, more, hmore⟩ := hd ⟨x, {}⟩ hx
  have hviable : Viable ts := ⟨d, _, hmore.symm⟩
  obtain ⟨ahead, last, scopes⟩ := t
  cases ahead with
  | nil =>
    rw [List.append_nil]
    refine .early d ⟨_, hmore.symm⟩ ?_ (hlast ▸ hviable.endsAt)
    rw [hmore]
    simp
  | cons y rest =>
    have hr := SyntaxError.isRedeclared_of_expects hx
    refine .impossible ?_ hr (firstImpossible_of_fault h rfl hr hviable) fun _ => ⟨⟨x, hx⟩, ?_⟩
    · rintro rfl
      exact hx
    · intro z hz
      obtain ⟨d, more, hmore⟩ := hd z hz
      exact ⟨d, more, by simp [hmore]⟩

theorem raised_of_trailing {d : Prog} {t : Cursor}
    (h : parseWhole { ahead := d.tokens ++ t.ahead } = .error (t.fault .trailingInput))
    (hne : t.ahead ≠ []) : Raised (d.tokens ++ t.ahead) (t.fault .trailingInput).error := by
  obtain ⟨ahead, last, scopes⟩ := t
  obtain ⟨x, rest, rfl⟩ := List.exists_cons_of_ne_nil hne
  have hviable : Viable d.tokens := ⟨d, List.prefix_refl _⟩
  refine .impossible ?_ rfl (firstImpossible_of_fault h rfl rfl hviable) fun hne => absurd rfl hne
  rintro ⟨⟩

theorem raised_of_parse (h : parse tokens = .error e) : Raised tokens e := by
  rw [parse] at h
  split at h
  · cases h
  · next stop hstop =>
    cases h
    have hwithin := within_parseWhole { ahead := tokens }
    rw [hstop] at hwithin
    obtain hwithin | ⟨d, t, ⟨htokens, -⟩, hne, herror⟩ := hwithin
    · cases hwithin with
      | redeclared d ts more hs he hne hd =>
        obtain rfl : tokens = ts ++ stop.stop.ahead := hs.ahead
        exact raised_of_redeclared hstop hne he ⟨d, more, hd.symm⟩
      | @fault t error ts hs he hd =>
        obtain rfl : tokens = ts ++ t.ahead := hs.ahead
        exact raised_of_fault hstop hs.last he hd
    · obtain rfl : tokens = d.tokens ++ t.ahead := htokens
      cases herror
      exact raised_of_trailing hstop hne

/-- Syntax errors are raised at the first impossible token. An error at a token comes from the first
one with which the tokens no longer begin a program, and with any token that it asks for in its
place they would; at an early end, the tokens begin a program, and the last one that was required is
reported; and a name is reported as declared twice if it is the first such name of every program
that begins with the tokens read so far. -/
theorem syntax_error_at_first_impossible_token (tokens : List (Located Token))
    (e : Located SyntaxError) (h : parse tokens = .error e) :
    (e.value ≠ .unexpectedEnd → e.value.isRedeclared = false →
      ∃ k t, tokens[k]? = some t ∧ e.location = t.location ∧ FirstImpossible tokens k ∧
        (e.value ≠ .trailingInput → (∃ x, e.value.Expects x) ∧
          ∀ x : Located Token, e.value.Expects x.value → Viable (tokens.take k ++ [x]))) ∧
    (e.value = .unexpectedEnd →
      (∃ d : Prog, tokens <+: d.tokens ∧ tokens ≠ d.tokens) ∧ EndsAt tokens e.location) ∧
    (∀ error, e.value = .redeclared error →
      ∃ k, Viable (tokens.take k) ∧ ∀ d : Prog, tokens.take k <+: d.tokens →
        d.repeated? = some ⟨error.name, e.location⟩) := by
  cases raised_of_parse h with
  | @impossible ts rest x error he hr hfirst hexpects =>
    refine ⟨fun _ _ => ⟨ts.length, x, by simp, rfl, hfirst, fun hne => ?_⟩, fun hend => ?_, ?_⟩
    · rw [List.take_left' rfl]
      exact hexpects hne
    · exact absurd hend he
    · rintro error rfl
      cases hr
  | early d hd hne hl =>
    exact ⟨fun hend => absurd rfl hend, fun _ => ⟨⟨d, hd, hne⟩, hl⟩, nofun⟩
  | @redeclared ts rest error l hts hd =>
    refine ⟨nofun, nofun, fun error' herror => ⟨ts.length, ?_⟩⟩
    cases herror
    rw [List.take_left' rfl]
    exact ⟨hts, hd⟩

/-- Trees need not be compared to see that there is none. -/
theorem parse_eq_error_of_map (h : (parse tokens).map (fun _ => ()) = .error e) :
    parse tokens = .error e := by
  cases hparse : parse tokens with
  | ok p =>
    rw [hparse] at h
    cases h
  | error e' =>
    rw [hparse] at h
    cases h
    rfl

/-- The beginning of a program up to the comma behind its first parameter, a token in each column.
-/
def firstParameter : Tokens :=
  [word .program (.point ⟨1, 0⟩), identifier ⟨"p", .point ⟨1, 1⟩⟩, word .begin_ (.point ⟨1, 2⟩),
    word .function (.point ⟨1, 3⟩), word .void (.point ⟨1, 4⟩), identifier ⟨"f", .point ⟨1, 5⟩⟩,
    sign .openParen (.point ⟨1, 6⟩), word .int (.point ⟨1, 7⟩), identifier ⟨"x", .point ⟨1, 8⟩⟩,
    sign .comma (.point ⟨1, 9⟩)]

/-- A closing parenthesis, the end, or the same parameter again. -/
theorem syntax_error_at_first_impossible_token_firstParameter :
    let closing := firstParameter ++ [sign .closeParen (.point ⟨1, 10⟩)]
    let again := firstParameter ++ [word .int (.point ⟨1, 10⟩), identifier ⟨"x", .point ⟨1, 11⟩⟩]
    (parse closing = .error ⟨.expectedVarType, .point ⟨1, 10⟩⟩ ∧
      ∃ k, FirstImpossible closing k ∧ Viable (closing.take k ++ [word .int (.point ⟨1, 10⟩)])) ∧
    (parse firstParameter = .error ⟨.unexpectedEnd, .point ⟨1, 8⟩⟩ ∧
      EndsAt firstParameter (.point ⟨1, 8⟩)) ∧
    (parse again = .error ⟨.redeclared ⟨"x"⟩, .point ⟨1, 11⟩⟩ ∧
      ∃ k, Viable (again.take k) ∧ ∀ d : Prog, again.take k <+: d.tokens →
        d.repeated? = some ⟨"x", .point ⟨1, 11⟩⟩) := by
  intro closing again
  have hclosing : parse closing = .error ⟨.expectedVarType, .point ⟨1, 10⟩⟩ :=
    parse_eq_error_of_map (by decide +kernel)
  have hend : parse firstParameter = .error ⟨.unexpectedEnd, .point ⟨1, 8⟩⟩ :=
    parse_eq_error_of_map (by decide +kernel)
  have hagain : parse again = .error ⟨.redeclared ⟨"x"⟩, .point ⟨1, 11⟩⟩ :=
    parse_eq_error_of_map (by decide +kernel)
  obtain ⟨k, t, -, -, hfirst, hexpects⟩ :=
    (syntax_error_at_first_impossible_token closing _ hclosing).1 nofun rfl
  have hearly := (syntax_error_at_first_impossible_token firstParameter _ hend).2.1 rfl
  have hrepeated := (syntax_error_at_first_impossible_token again _ hagain).2.2 ⟨"x"⟩ rfl
  exact ⟨⟨hclosing, k, hfirst, (hexpects nofun).2 _ rfl⟩, ⟨hend, hearly.2⟩, hagain, hrepeated⟩

end Program

end LittleTiny
