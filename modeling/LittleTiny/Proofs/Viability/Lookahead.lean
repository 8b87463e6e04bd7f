import LittleTiny.Proofs.Viability.Rules

/-!
# How far the reader looks

Two lists of tokens begin alike and then go on as `a` and as `b`. As long as a rule does not get
beyond what they have in common, it answers alike at both, and when it fails there it fails alike:
the token at which an error is reported is the last one that it depends on, and a name that is
declared twice does not even depend on the token behind the declaration. `Tied` says so of a rule
and two cursors. Where the first cursor is already beyond the common part it says that the rule does
not come back, which is why it is a statement about any two cursors, and chains (`Tied.bind`).
-/

namespace LittleTiny

open Reading Cursor Grammar

variable {a b : Tokens}

/-! ## Generic rules -/

/-- The tokens `pre` are ahead of both cursors, then `a` of the one and `b` of the other. -/
structure Cursor.Along (pre a b : Tokens) (s s' : Cursor) : Prop where
  left : s.ahead = pre ++ a
  right : s'.ahead = pre ++ b
  scopes : s.scopes = s'.scopes

namespace Reading

variable {α β : Type} {k k' n n' : Nat} {s s' : Cursor}

/-- The answer comes with at most `m` tokens ahead, and with fewer if a name is declared twice. -/
inductive Beyond (m : Nat) : Reading (Advance n α) → Prop
  | ok {step : Advance n α} (h : step.next.size ≤ m) : Beyond m (.ok step)
  | error {stop : Stop} (h : stop.stop.size ≤ m)
      (hr : stop.error.value.isRedeclared = true → stop.stop.size < m) : Beyond m (.error stop)

/-- Both answers are the same, with common tokens ahead if there are values, or the first comes
behind the common tokens. -/
inductive Together (a b : Tokens) : Reading (Advance n α) → Reading (Advance n' α) → Prop
  | ok {v : α} {t t' : Cursor} {h : t.size < n} {h' : t'.size < n'} {x : Located Token}
      {pre : Tokens} (ht : t.Along (x :: pre) a b t') :
      Together a b (.ok ⟨v, t, h⟩) (.ok ⟨v, t', h'⟩)
  | error {stop stop' : Stop} (h : stop.error = stop'.error) :
      Together a b (.error stop) (.error stop')
  | beyond {r : Reading (Advance n α)} {r' : Reading (Advance n' α)} (h : Beyond a.length r) :
      Together a b r r'

/-- Both answers leave their cursors where they are, with the same value or the same name declared
twice. -/
inductive SettleAlike (t t' : Cursor) : Reading (Advance n α) → Reading (Advance n' α) → Prop
  | ok (v : α) (h : t.size < n) (h' : t'.size < n') :
      SettleAlike t t' (.ok ⟨v, t, h⟩) (.ok ⟨v, t', h'⟩)
  | redeclared (error : Redeclared) (l : Location) :
      SettleAlike t t' (.error ⟨⟨.redeclared error, l⟩, t⟩) (.error ⟨⟨.redeclared error, l⟩, t'⟩)

/-- Beyond the common tokens the rule stays there; along them it answers alike. -/
structure Tied (a b : Tokens) (s s' : Cursor) (r : Reading (Advance n α))
    (r' : Reading (Advance n' α)) : Prop where
  beyond : s.size ≤ a.length → Beyond a.length r
  along : ∀ x pre, s.Along (x :: pre) a b s' → Together a b r r'

theorem beyond_fault {m : Nat} {e : SyntaxError} (he : e.isRedeclared = false) (hs : s.size ≤ m) :
    Beyond m (.error (s.fault e) : Reading (Advance n α)) :=
  .error (by rwa [stop_fault]) fun hr => by rw [isRedeclared_fault he] at hr; cases hr

theorem SettleAlike.beyond {m : Nat} {r : Reading (Advance n α)} {r' : Reading (Advance n' α)}
    (h : SettleAlike s s' r r') (hs : s.size < m) : Beyond m r := by
  cases h with
  | ok v h h' => exact .ok (Nat.le_of_lt hs)
  | redeclared error l => exact .error (Nat.le_of_lt hs) fun _ => hs

theorem Within.beyond {m : Nat} {D : Type} {tokens : D → Tokens} {r : Reading (Advance n α)}
    (h : Within tokens s r) (hs : s.size ≤ m) : Beyond m r := by
  cases h with
  | ok d hp =>
    have hsize := hp.size_eq
    exact .ok (by omega)
  | redeclared d ts more hp he hne hd =>
    have hsize := hp.size_eq
    have hpos : 0 < ts.length := List.length_pos_iff.2 hne
    exact .error (by omega) fun _ => by omega
  | @fault t e ts hp he hd =>
    have hsize := hp.size_eq
    obtain ⟨x, hx⟩ := he
    exact beyond_fault (SyntaxError.isRedeclared_of_expects hx) (by omega)

end Reading

namespace Cursor.Along

variable {α : Type} {s s' : Cursor} {x : Located Token} {pre : Tokens}

theorem size_left (h : s.Along pre a b s') : s.size = pre.length + a.length := by
  rw [size, h.left, List.length_append]

theorem size_pos (h : s.Along (x :: pre) a b s') : 0 < s'.size := by
  rw [size, h.right]
  exact Nat.succ_pos _

theorem opened (h : s.Along pre a b s') : s.opened.Along pre a b s'.opened :=
  ⟨h.left, h.right, congrArg (· + 1) h.scopes⟩

theorem peek?_eq (h : s.Along (x :: pre) a b s') : s.peek? = s'.peek? := by
  rw [peek?, peek?, h.left, h.right]
  rfl

theorem fault (h : s.Along (x :: pre) a b s') (e : SyntaxError) :
    (s.fault e).error = (s'.fault e).error := by
  obtain ⟨ahead, last, scopes⟩ := s
  obtain ⟨ahead', last', scopes'⟩ := s'
  obtain ⟨rfl, rfl, -⟩ := h
  rfl

/-- A call is seen in the first two tokens. -/
theorem seesCall_eq (h : s.Along (x :: pre) a b s')
    (hx : pre ≠ [] ∨ ∀ name, x.value ≠ .identifier name) : s.seesCall = s'.seesCall := by
  rw [seesCall, seesCall, h.left, h.right]
  obtain ⟨token, l⟩ := x
  cases token with
  | identifier name =>
    obtain ⟨⟨next, l'⟩, pre, rfl⟩ :=
      List.exists_cons_of_ne_nil (hx.resolve_right fun h => h name rfl)
    cases next with
    | operator o => cases o <;> rfl
    | _ => rfl
  | _ => rfl

theorem take? (h : s.Along (x :: pre) a b s') (want : Token → Option α) :
    (s.take? want = none ∧ s'.take? want = none) ∨
      ∃ v t g t' g', s.take? want = some ⟨v, t, g⟩ ∧ s'.take? want = some ⟨v, t', g'⟩ ∧
        t.Along pre a b t' := by
  cases hw : want x.value with
  | none =>
    have hnone : ∀ {s : Cursor} {rest : Tokens}, s.ahead = x :: rest → s.take? want = none := by
      intro s rest hs
      rw [take?_eq_none_iff, hs]
      simp [Avoids, hw]
    exact .inl ⟨hnone h.left, hnone h.right⟩
  | some v =>
    obtain ⟨g, hs⟩ := exists_take?_eq_some h.left hw
    obtain ⟨g', hs'⟩ := exists_take?_eq_some h.right hw
    exact .inr ⟨_, _, g, _, g', hs, hs', rfl, rfl, h.scopes⟩

theorem skip? (h : s.Along (x :: pre) a b s') (token : Token) :
    (s.skip? token = none ∧ s'.skip? token = none) ∨
      ∃ t g t' g', s.skip? token = some ⟨t, g⟩ ∧ s'.skip? token = some ⟨t', g'⟩ ∧
        t.Along pre a b t' := by
  obtain ⟨ahead, last, scopes⟩ := s
  obtain ⟨ahead', last', scopes'⟩ := s'
  obtain ⟨rfl, rfl, hscopes⟩ := h
  by_cases hx : x.value = token
  · have hs : ∀ rest last scopes, (Cursor.mk (x :: rest) last scopes).Skips token
        ⟨rest, last, scopes⟩ :=
      fun rest last scopes => ⟨x.location, by rw [← hx], rfl, rfl⟩
    exact .inr ⟨_, (hs ..).size_lt, _, (hs ..).size_lt, skip?_eq_some_iff.2 (hs ..),
      skip?_eq_some_iff.2 (hs ..), rfl, rfl, hscopes⟩
  · exact .inl ⟨by simp [Cursor.skip?, hx], by simp [Cursor.skip?, hx]⟩

end Cursor.Along

namespace Reading

variable {α β : Type} {k k' n n' : Nat} {s s' t t' : Cursor}

theorem tied_of_within {D : Type} {tokens : D → Tokens} {r : Reading (Advance n α)}
    {r' : Reading (Advance n' α)} (hr : Within tokens s r)
    (h : ∀ x pre, s.Along (x :: pre) a b s' → Tied a b s s' r r') : Tied a b s s' r r' :=
  ⟨hr.beyond, fun x pre hs => (h x pre hs).along x pre hs⟩

theorem Beyond.tied {r : Reading (Advance n α)} {r' : Reading (Advance n' α)}
    (h : Beyond a.length r) : Tied a b s s' r r' :=
  ⟨fun _ => h, fun _ _ _ => .beyond h⟩

theorem tied_pure {v : α} {h : s.size < n} {h' : s'.size < n'} :
    Tied a b s s' (pure ⟨v, s, h⟩) (pure ⟨v, s', h'⟩) :=
  ⟨fun hs => .ok hs, fun _ _ hs => .ok hs⟩

theorem tied_stay {v : α} : Tied a b s s' (stay s v) (stay s' v) := tied_pure

theorem tied_throw {e : SyntaxError} (he : e.isRedeclared = false) :
    Tied a b s s' (throw (s.fault e) : Reading (Advance n α))
      (throw (s'.fault e) : Reading (Advance n' α)) :=
  ⟨beyond_fault he, fun _ _ hs => .error (hs.fault e)⟩

namespace Tied

/-- Behind the first of the common tokens, none may be left. -/
theorem before {x : Located Token} {pre pre' : Tokens} {r : Reading (Advance n α)}
    {r' : Reading (Advance n' α)} (h : Tied a b t t' r r') (hs : s.Along (x :: pre) a b s')
    (ht : t.Along pre' a b t') : Tied a b s s' r r' where
  beyond hle := by
    have hsize := hs.size_left
    rw [List.length_cons] at hsize
    omega
  along _ _ _ := by
    cases pre' with
    | nil => exact .beyond (h.beyond (by simp [ht.size_left]))
    | cons y pre' => exact h.along y pre' ht

theorem bind {r : Reading (Advance k α)} {r' : Reading (Advance k' α)}
    {f : Advance k α → Reading (Advance n β)} {f' : Advance k' α → Reading (Advance n' β)}
    (h : Tied a b s s' r r') (hk : 0 < k')
    (hf : ∀ v t ht t' ht', t.scopes = t'.scopes → Tied a b t t' (f ⟨v, t, ht⟩) (f' ⟨v, t', ht'⟩)) :
    Tied a b s s' (r >>= f) (r' >>= f') := by
  -- Beyond the common tokens the second cursor does not matter; there is one by `hk`.
  have hbeyond : Beyond a.length r → Beyond a.length (r >>= f) := by
    intro hr
    cases hr with
    | @ok step hstep =>
      obtain ⟨v, t, ht⟩ := step
      exact (hf v t ht ⟨[], {}, t.scopes⟩ hk rfl).beyond hstep
    | error hstop hr => exact .error hstop hr
  refine ⟨fun hs => hbeyond (h.beyond hs), fun x pre hs => ?_⟩
  cases h.along x pre hs with
  | ok ht => exact (hf _ _ _ _ _ ht.scopes).along _ _ ht
  | error herror => exact .error herror
  | beyond hr => exact .beyond (hbeyond hr)

theorem of_agrees {r : Reading (Advance k α)} {r' : Reading (Advance k' α)}
    {q : Reading (Advance n α)} {q' : Reading (Advance n' α)} (h : Tied a b s s' r r')
    (hq : Agrees r q) (hq' : Agrees r' q') : Tied a b s s' q q' := by
  have hbeyond : Beyond a.length r → Beyond a.length q := by
    intro hr
    cases hr with
    | ok hstep =>
      cases hq
      exact .ok hstep
    | error hstop hr =>
      cases hq
      exact .error hstop hr
  refine ⟨fun hs => hbeyond (h.beyond hs), fun x pre hs => ?_⟩
  cases h.along x pre hs with
  | ok ht =>
    cases hq
    cases hq'
    exact .ok ht
  | error herror =>
    cases hq
    cases hq'
    exact .error herror
  | beyond hr => exact .beyond (hbeyond hr)

theorem after {h : t.size < n} {h' : t'.size < n'} {r : Reading (Advance t.size α)}
    {r' : Reading (Advance t'.size α)} (hr : Tied a b s s' r r') :
    Tied a b s s' (r.after h) (r'.after h') :=
  hr.of_agrees agrees_after agrees_after

theorem afterLoose {h : t.size < n} {h' : t'.size < n'} {r : Reading (Advance (t.size + 1) α)}
    {r' : Reading (Advance (t'.size + 1) α)} (hr : Tied a b s s' r r') :
    Tied a b s s' (r.afterLoose h) (r'.afterLoose h') :=
  hr.of_agrees agrees_afterLoose agrees_afterLoose

theorem loosen {r : Reading (Advance n α)} {r' : Reading (Advance n' α)}
    (hr : Tied a b s s' r r') : Tied a b s s' r.loosen r'.loosen :=
  hr.of_agrees agrees_loosen agrees_loosen

/-- Opening a scope before the first token. -/
theorem of_opened {r : Reading (Advance n α)} {r' : Reading (Advance n' α)}
    (hr : Tied a b s.opened s'.opened r r') : Tied a b s s' r r' :=
  ⟨hr.beyond, fun x pre hs => hr.along x pre hs.opened⟩

theorem afterOpened {h : s.size < n} {h' : s'.size < n'} {r : Reading (Advance s.opened.size α)}
    {r' : Reading (Advance s'.opened.size α)} (hr : Tied a b s.opened s'.opened r r') :
    Tied a b s s' (@Reading.after α n s h r) (@Reading.after α n' s' h' r') :=
  of_opened (Tied.of_agrees hr (@agrees_after α n s h r) (@agrees_after α n' s' h' r'))

end Tied

theorem SettleAlike.together {x : Located Token} {pre : Tokens} {r : Reading (Advance n α)}
    {r' : Reading (Advance n' α)} (h : SettleAlike t t' r r') (hs : s.Along (x :: pre) a b s')
    (ht : t.Along pre a b t') : Together a b r r' := by
  cases h with
  | ok v h h' => exact (tied_pure.before hs ht).along x pre hs
  | redeclared error l => exact .error rfl

/-- Skipping a token that may be there; `skipped` and `skipped'` are what is done behind it. -/
theorem tied_match_skip? {token : Token} {r : Reading (Advance n α)}
    {r' : Reading (Advance n' α)} (h : s.size < n) (h' : s'.size < n')
    (skipped : ∀ t : Cursor, t.size < n → Reading (Advance n α))
    (skipped' : ∀ t : Cursor, t.size < n' → Reading (Advance n' α)) (hr : Tied a b s s' r r')
    (hskipped : ∀ t ht t' ht', t.scopes = t'.scopes →
      Tied a b t t' (skipped t ht) (skipped' t' ht')) :
    Tied a b s s'
      (match s.skip? token with
        | none => r
        | some ⟨t, g⟩ => skipped t (Nat.lt_trans g h))
      (match s'.skip? token with
        | none => r'
        | some ⟨t, g⟩ => skipped' t (Nat.lt_trans g h')) where
  beyond hs := by
    cases hskip : s.skip? token with
    | none => exact hr.beyond hs
    | some x =>
      have ht : x.1.size ≤ a.length := Nat.le_trans (Nat.le_of_lt x.2) hs
      have hpos : 0 < n' := Nat.zero_lt_of_lt h'
      exact (hskipped x.1 (Nat.lt_trans x.2 h) ⟨[], {}, x.1.scopes⟩ hpos rfl).beyond ht
  along x pre hs := by
    rcases hs.skip? token with ⟨hnone, hnone'⟩ | ⟨t, g, t', g', hsome, hsome', ht⟩
    · simp only [hnone, hnone']
      exact hr.along x pre hs
    · simp only [hsome, hsome']
      exact ((hskipped t _ t' _ ht.scopes).before hs ht).along x pre hs

end Reading

/-! ## Single tokens -/

namespace Cursor

variable {α β : Type} {n n' : Nat} {s s' : Cursor}

theorem tied_take {want : Token → Option α} {e : SyntaxError} (he : e.isRedeclared = false) :
    Tied a b s s' (s.take want e) (s'.take want e) where
  beyond hs := by
    unfold take
    split
    · next step hstep => exact .ok (Nat.le_trans (Nat.le_of_lt step.shorter) hs)
    · exact beyond_fault he hs
  along x pre hs := by
    rcases hs.take? want with ⟨hnone, hnone'⟩ | ⟨v, t, g, t', g', hsome, hsome', ht⟩
    · simp only [take, hnone, hnone']
      exact .error (hs.fault e)
    · simp only [take, hsome, hsome']
      exact (tied_pure.before hs ht).along x pre hs

theorem tied_keyword (k : Keyword) : Tied a b s s' (s.keyword k) (s'.keyword k) :=
  tied_take rfl

theorem tied_operator (o : Operator) : Tied a b s s' (s.operator o) (s'.operator o) :=
  tied_take rfl

theorem tied_identifier : Tied a b s s' s.identifier s'.identifier :=
  tied_take rfl

theorem tied_stringLiteral : Tied a b s s' s.stringLiteral s'.stringLiteral :=
  tied_take rfl

theorem tied_varType : Tied a b s s' s.varType s'.varType := tied_take rfl

theorem tied_returnType : Tied a b s s' s.returnType s'.returnType :=
  tied_take rfl

/-- What follows the last token that is taken, if it takes none itself, does not depend on the next
one. -/
theorem tied_take_settle {want : Token → Option α} {e : SyntaxError} (he : e.isRedeclared = false)
    {f : Advance n (Located α) → Reading (Advance n β)}
    {f' : Advance n' (Located α) → Reading (Advance n' β)} {h : s.size < n} {h' : s'.size < n'}
    (hf : ∀ v t ht t' ht', SettleAlike t t' (f ⟨v, t, ht⟩) (f' ⟨v, t', ht'⟩)) :
    Tied a b s s' ((s.take want e).after h >>= f) ((s'.take want e).after h' >>= f') where
  beyond hs := by
    unfold take
    split
    · next step hstep =>
      have hsize : step.next.size < a.length := Nat.lt_of_lt_of_le step.shorter hs
      exact (hf step.value step.next (Nat.lt_trans step.shorter h) s' h').beyond hsize
    · exact beyond_fault he hs
  along x pre hs := by
    rcases hs.take? want with ⟨hnone, hnone'⟩ | ⟨v, t, g, t', g', hsome, hsome', ht⟩
    · simp only [take, hnone, hnone']
      exact .error (hs.fault e)
    · simp only [take, hsome, hsome']
      exact (hf v t (Nat.lt_trans g h) t' (Nat.lt_trans g' h')).together hs ht

theorem Enters.settleAlike {enter : Cursor → Reading Scope} (h : Enters enter) {g : Scope → β}
    {t t' : Cursor} {ht : t.size < n} {ht' : t'.size < n'} :
    SettleAlike t t' (enter t >>= fun scope => pure ⟨g scope, t, ht⟩ : Reading (Advance n β))
      (enter t' >>= fun scope => pure ⟨g scope, t', ht'⟩ : Reading (Advance n' β)) := by
  obtain ⟨scope, hok⟩ | ⟨error, l, herror⟩ := h
  · rw [hok, hok]
    exact .ok ..
  · rw [herror, herror]
    exact .redeclared ..

end Cursor

namespace Cursor

theorem tied_names (s s' : Cursor) : Tied a b s s' s.names s'.names := by
  refine tied_of_within (within_names s) fun x pre h => ?_
  rw [names.eq_def s, names.eq_def s']
  refine tied_identifier.bind h.size_pos fun name s₁ h₁ s₁' h₁' _ => ?_
  refine tied_match_skip? h₁ h₁'
    (fun t (ht : t.size < s.size) =>
      t.names.after ht >>= fun y => pure ⟨name :: y.value, y.next, y.shorter⟩)
    (fun t (ht : t.size < s'.size) =>
      t.names.after ht >>= fun y => pure ⟨name :: y.value, y.next, y.shorter⟩)
    tied_pure fun s₂ h₂ s₂' h₂' _ => ?_
  exact (tied_names s₂ s₂').after.bind h.size_pos fun _ _ _ _ _ _ => tied_pure
termination_by s.size

end Cursor

/-! ## Expressions -/

namespace Expr

/-- A name with nothing known behind it: whether it is a call is decided beyond it. -/
theorem beyond_parseAtom {s : Cursor} {name : Located String} (h : s.ahead = identifier name :: a) :
    Beyond a.length (parseAtom s) := by
  rw [parseAtom]
  split
  · obtain ⟨h₁, hname⟩ := yields_identifier.2 ⟨a, h, rfl⟩
    rw [hname]
    refine Within.beyond (?_ : Within (seq (aSign .openParen) (seq Arguments.tokens
      (aSign .closeParen))) ⟨a, name.location, s.scopes⟩ _) (Nat.le_refl _)
    change Within _ _ (after h₁ _ >>= _)
    refine (within_operator .openParen).after.bind fun _ s₂ h₂ => ?_
    refine (within_parseArguments s₂).afterLoose.bind fun arguments s₃ h₃ => ?_
    exact (within_operator .closeParen).after.yielding fun _ _ _ => ⟨_, _, rfl⟩
  · obtain ⟨h₁, hleaf⟩ := exists_take?_eq_some h (rfl : Token.leaf? (.identifier name.value) = _)
    rw [hleaf]
    exact .ok (Nat.le_refl _)

mutual

theorem tied_parse (s s' : Cursor) : Tied a b s s' (parse s) (parse s') := by
  refine tied_of_within (within_parse s) fun x pre h => ?_
  rw [parse, parse]
  refine (tied_parseProduct s s').bind h.size_pos fun lhs s₁ h₁ s₁' h₁' _ => ?_
  exact (tied_parseSumFrom lhs s₁ s₁').afterLoose
termination_by 6 * s.size + 3

theorem tied_parseSumFrom (lhs : Expr) (s s' : Cursor) :
    Tied a b s s' (parseSumFrom lhs s) (parseSumFrom lhs s') := by
  refine tied_of_within (within_parseSumFrom lhs s) fun x pre h => ?_
  rw [parseSumFrom.eq_def lhs s, parseSumFrom.eq_def lhs s']
  rcases h.take? Token.additive? with
    ⟨hnone, hnone'⟩ | ⟨op, s₁, h₁, s₁', h₁', hsome, hsome', hs₁⟩
  · simp only [hnone, hnone']
    exact tied_stay
  · simp only [hsome, hsome']
    refine Tied.loosen (Tied.before ?_ h hs₁)
    refine (tied_parseProduct s₁ s₁').after.bind h.size_pos fun rhs s₂ h₂ s₂' h₂' _ => ?_
    exact (tied_parseSumFrom _ s₂ s₂').afterLoose
termination_by 6 * s.size

theorem tied_parseProduct (s s' : Cursor) :
    Tied a b s s' (parseProduct s) (parseProduct s') := by
  refine tied_of_within (within_parseProduct s) fun x pre h => ?_
  rw [parseProduct, parseProduct]
  refine (tied_parseAtom s s').bind h.size_pos fun lhs s₁ h₁ s₁' h₁' _ => ?_
  exact (tied_parseProductFrom lhs s₁ s₁').afterLoose
termination_by 6 * s.size + 2

theorem tied_parseProductFrom (lhs : Expr) (s s' : Cursor) :
    Tied a b s s' (parseProductFrom lhs s) (parseProductFrom lhs s') := by
  refine tied_of_within (within_parseProductFrom lhs s) fun x pre h => ?_
  rw [parseProductFrom.eq_def lhs s, parseProductFrom.eq_def lhs s']
  rcases h.take? Token.multiplicative? with
    ⟨hnone, hnone'⟩ | ⟨op, s₁, h₁, s₁', h₁', hsome, hsome', hs₁⟩
  · simp only [hnone, hnone']
    exact tied_stay
  · simp only [hsome, hsome']
    refine Tied.loosen (Tied.before ?_ h hs₁)
    refine (tied_parseAtom s₁ s₁').after.bind h.size_pos fun rhs s₂ h₂ s₂' h₂' _ => ?_
    exact (tied_parseProductFrom _ s₂ s₂').afterLoose
termination_by 6 * s.size

theorem tied_parseAtom (s s' : Cursor) : Tied a b s s' (parseAtom s) (parseAtom s') := by
  refine tied_of_within (within_parseAtom s) fun x pre h => ?_
  by_cases hx : pre ≠ [] ∨ ∀ name, x.value ≠ .identifier name
  · rw [parseAtom, parseAtom, ← h.seesCall_eq hx, ← h.peek?_eq]
    split
    · refine tied_identifier.bind h.size_pos fun function s₁ h₁ s₁' h₁' _ => ?_
      refine (tied_operator .openParen).after.bind h.size_pos fun _ s₂ h₂ s₂' h₂' _ => ?_
      refine (tied_parseArguments s₂ s₂').afterLoose.bind h.size_pos
        fun arguments s₃ h₃ s₃' h₃' _ => ?_
      refine (tied_operator .closeParen).after.bind h.size_pos fun close s₄ h₄ s₄' h₄' _ => ?_
      exact tied_pure
    · rcases h.take? Token.leaf? with
        ⟨hnone, hnone'⟩ | ⟨leaf, s₁, h₁, s₁', h₁', hsome, hsome', hs₁⟩
      · simp only [hnone, hnone']
        split
        · refine (tied_operator .openParen).bind h.size_pos fun opening s₁ h₁ s₁' h₁' _ => ?_
          refine (tied_parse s₁ s₁').after.bind h.size_pos fun e s₂ h₂ s₂' h₂' _ => ?_
          refine (tied_operator .closeParen).after.bind h.size_pos fun close s₃ h₃ s₃' h₃' _ => ?_
          exact tied_pure
        · exact tied_throw rfl
      · simp only [hsome, hsome']
        exact tied_pure.before h hs₁
  · simp only [not_or, not_not, not_forall] at hx
    obtain ⟨rfl, name, hname⟩ := hx
    have hleft : s.ahead = identifier ⟨name, x.location⟩ :: a := by
      rw [h.left, Grammar.identifier, ← hname]
      rfl
    exact (beyond_parseAtom hleft).tied
termination_by 6 * s.size + 1

theorem tied_parseArguments (s s' : Cursor) :
    Tied a b s s' (parseArguments s) (parseArguments s') := by
  refine tied_of_within (within_parseArguments s) fun x pre h => ?_
  rw [parseArguments, parseArguments, ← h.peek?_eq]
  split
  · exact (tied_parseList s s').loosen
  · exact tied_stay
termination_by 6 * s.size + 5

theorem tied_parseList (s s' : Cursor) : Tied a b s s' (parseList s) (parseList s') := by
  refine tied_of_within (within_parseList s) fun x pre h => ?_
  rw [parseList.eq_def s, parseList.eq_def s']
  refine (tied_parse s s').bind h.size_pos fun e s₁ h₁ s₁' h₁' _ => ?_
  refine tied_match_skip? h₁ h₁'
    (fun t (ht : t.size < s.size) =>
      (parseList t).after ht >>= fun y => pure ⟨e :: y.value, y.next, y.shorter⟩)
    (fun t (ht : t.size < s'.size) =>
      (parseList t).after ht >>= fun y => pure ⟨e :: y.value, y.next, y.shorter⟩)
    tied_pure fun s₂ h₂ s₂' h₂' _ => ?_
  exact (tied_parseList s₂ s₂').after.bind h.size_pos fun _ _ _ _ _ _ => tied_pure
termination_by 6 * s.size + 4

end

end Expr

theorem Condition.tied_parse (s s' : Cursor) :
    Tied a b s s' (Condition.parse s) (Condition.parse s') := by
  refine tied_of_within (Condition.within_parse s) fun x pre h => ?_
  refine (Expr.tied_parse s s').bind h.size_pos fun lhs s₁ h₁ s₁' h₁' _ => ?_
  refine (tied_take rfl).after.bind h.size_pos fun op s₂ h₂ s₂' h₂' _ => ?_
  exact (Expr.tied_parse s₂ s₂').after.bind h.size_pos fun _ _ _ _ _ _ => tied_pure

/-! ## Declarations -/

namespace Declaration

theorem tied_parseText (scope : Scope) (s s' : Cursor) :
    Tied a b s s' (parseText scope s) (parseText scope s') := by
  refine tied_of_within (within_parseText scope s) fun x pre h => ?_
  refine (tied_keyword .string).bind h.size_pos fun _ s₁ h₁ s₁' h₁' _ => ?_
  refine tied_identifier.after.bind h.size_pos fun name s₂ h₂ s₂' h₂' _ => ?_
  refine (tied_operator .assign).after.bind h.size_pos fun _ s₃ h₃ s₃' h₃' _ => ?_
  refine tied_stringLiteral.after.bind h.size_pos fun value s₄ h₄ s₄' h₄' _ => ?_
  exact tied_take_settle (by rfl) fun _ _ _ _ _ => enters_declare.settleAlike

theorem tied_parseNumbers (scope : Scope) (s s' : Cursor) :
    Tied a b s s' (parseNumbers scope s) (parseNumbers scope s') := by
  refine tied_of_within (within_parseNumbers scope s) fun x pre h => ?_
  refine tied_varType.bind h.size_pos fun type s₁ h₁ s₁' h₁' _ => ?_
  refine (tied_names s₁ s₁').after.bind h.size_pos fun names s₂ h₂ s₂' h₂' _ => ?_
  exact tied_take_settle (by rfl) fun _ _ _ _ _ => enters_declareAll.settleAlike

theorem tied_parse (scope : Scope) (s s' : Cursor) :
    Tied a b s s' (parse scope s) (parse scope s') := by
  refine tied_of_within (within_parse scope s) fun x pre h => ?_
  rw [parse, parse, ← h.peek?_eq]
  split
  · exact tied_parseText scope s s'
  · exact tied_parseNumbers scope s s'

theorem tied_parseAll (scope : Scope) (s s' : Cursor) :
    Tied a b s s' (parseAll scope s) (parseAll scope s') := by
  refine tied_of_within (within_parseAll scope s) fun x pre h => ?_
  rw [parseAll.eq_def scope s, parseAll.eq_def scope s', ← h.peek?_eq]
  split
  · refine Tied.loosen ((tied_parse scope s s').bind h.size_pos fun d s₁ h₁ s₁' h₁' _ => ?_)
    have hmore := tied_parseAll d.2 s₁ s₁'
    exact hmore.afterLoose.bind h.size_pos fun _ _ _ _ _ _ => tied_pure
  · exact tied_stay
termination_by s.size

end Declaration

namespace Parameter

theorem tied_parse (scope : Scope) (s s' : Cursor) :
    Tied a b s s' (parse scope s) (parse scope s') := by
  refine tied_of_within (within_parse scope s) fun x pre h => ?_
  refine tied_varType.bind h.size_pos fun type s₁ h₁ s₁' h₁' _ => ?_
  exact tied_take_settle (by rfl) fun _ _ _ _ _ => enters_declare.settleAlike

theorem tied_parseList (scope : Scope) (s s' : Cursor) :
    Tied a b s s' (parseList scope s) (parseList scope s') := by
  refine tied_of_within (within_parseList scope s) fun x pre h => ?_
  rw [parseList.eq_def scope s, parseList.eq_def scope s']
  refine (tied_parse scope s s').bind h.size_pos fun p s₁ h₁ s₁' h₁' _ => ?_
  refine tied_match_skip? h₁ h₁'
    (fun t (ht : t.size < s.size) =>
      (parseList p.2 t).after ht >>= fun y =>
        pure ⟨(p.1 :: y.value.1, y.value.2), y.next, y.shorter⟩)
    (fun t (ht : t.size < s'.size) =>
      (parseList p.2 t).after ht >>= fun y =>
        pure ⟨(p.1 :: y.value.1, y.value.2), y.next, y.shorter⟩)
    tied_pure fun s₂ h₂ s₂' h₂' _ => ?_
  exact (tied_parseList p.2 s₂ s₂').after.bind h.size_pos fun _ _ _ _ _ _ => tied_pure
termination_by s.size

theorem tied_parseAll (scope : Scope) (s s' : Cursor) :
    Tied a b s s' (parseAll scope s) (parseAll scope s') := by
  refine tied_of_within (within_parseAll scope s) fun x pre h => ?_
  rw [parseAll, parseAll, ← h.peek?_eq]
  split
  · exact (tied_parseList scope s s').loosen
  · exact tied_stay

end Parameter

/-! ## Statements -/

namespace Statement

theorem tied_parseAssign (s s' : Cursor) : Tied a b s s' (parseAssign s) (parseAssign s') := by
  refine tied_of_within (within_parseAssign s) fun x pre h => ?_
  refine tied_identifier.bind h.size_pos fun target s₁ h₁ s₁' h₁' _ => ?_
  refine (tied_operator .assign).after.bind h.size_pos fun _ s₂ h₂ s₂' h₂' _ => ?_
  refine (Expr.tied_parse s₂ s₂').after.bind h.size_pos fun value s₃ h₃ s₃' h₃' _ => ?_
  exact (tied_operator .semicolon).after.bind h.size_pos fun _ _ _ _ _ _ => tied_pure

theorem tied_parseReturn (s s' : Cursor) : Tied a b s s' (parseReturn s) (parseReturn s') := by
  refine tied_of_within (within_parseReturn s) fun x pre h => ?_
  refine (tied_keyword .return_).bind h.size_pos fun _ s₁ h₁ s₁' h₁' _ => ?_
  refine (Expr.tied_parse s₁ s₁').after.bind h.size_pos fun value s₂ h₂ s₂' h₂' _ => ?_
  exact (tied_operator .semicolon).after.bind h.size_pos fun _ _ _ _ _ _ => tied_pure

theorem tied_parseNames {k : Keyword} (hk : k ≠ .else_) (form : List (Located String) → Statement)
    (s s' : Cursor) : Tied a b s s' (parseNames k form s) (parseNames k form s') := by
  refine tied_of_within (within_parseNames hk form s) fun x pre h => ?_
  refine (tied_keyword k).bind h.size_pos fun _ s₁ h₁ s₁' h₁' _ => ?_
  refine (tied_operator .openParen).after.bind h.size_pos fun _ s₂ h₂ s₂' h₂' _ => ?_
  refine (tied_names s₂ s₂').after.bind h.size_pos fun names s₃ h₃ s₃' h₃' _ => ?_
  refine (tied_operator .closeParen).after.bind h.size_pos fun _ s₄ h₄ s₄' h₄' _ => ?_
  exact (tied_operator .semicolon).after.bind h.size_pos fun _ _ _ _ _ _ => tied_pure

theorem tied_parseHead {k : Keyword} (hk : k ≠ .else_) (s s' : Cursor) :
    Tied a b s s' (parseHead k s) (parseHead k s') := by
  refine tied_of_within (within_parseHead hk s) fun x pre h => ?_
  refine (tied_keyword k).bind h.size_pos fun _ s₁ h₁ s₁' h₁' hscopes => ?_
  refine (tied_operator .openParen).afterOpened.bind h.size_pos fun _ s₂ h₂ s₂' h₂' _ => ?_
  refine (Condition.tied_parse s₂ s₂').after.bind h.size_pos fun condition s₃ h₃ s₃' h₃' _ => ?_
  refine (tied_operator .closeParen).after.bind h.size_pos fun _ s₄ h₄ s₄' h₄' _ => ?_
  have hopened : s₁.opened.scopes = s₁'.opened.scopes := congrArg (· + 1) hscopes
  rw [hopened]
  exact tied_pure

end Statement

mutual

theorem Block.tied_parse (scope : Scope) (s s' : Cursor) :
    Tied a b s s' (Block.parse scope s) (Block.parse scope s') := by
  refine tied_of_within (Block.within_parse scope s) fun x pre h => ?_
  rw [Block.parse, Block.parse]
  refine (Declaration.tied_parseAll scope s s').bind (Nat.succ_pos _) fun ds s₁ h₁ s₁' h₁' _ => ?_
  have hstmts := Statement.tied_parseAll ds.2 s₁ s₁'
  exact hstmts.afterLoose.bind (Nat.succ_pos _) fun _ _ _ _ _ _ => tied_pure
termination_by 4 * s.size + 3

theorem Statement.tied_parseAll (scope : Scope) (s s' : Cursor) :
    Tied a b s s' (Statement.parseAll scope s) (Statement.parseAll scope s') := by
  refine tied_of_within (Statement.within_parseAll scope s) fun x pre h => ?_
  rw [Statement.parseAll.eq_def scope s, Statement.parseAll.eq_def scope s', ← h.peek?_eq]
  split
  · refine Tied.loosen ((Statement.tied_parse scope s s').bind h.size_pos
      fun st s₁ h₁ s₁' h₁' _ => ?_)
    have hmore := Statement.tied_parseAll scope s₁ s₁'
    exact hmore.afterLoose.bind h.size_pos fun _ _ _ _ _ _ => tied_pure
  · exact tied_stay
termination_by 4 * s.size + 2

theorem Statement.tied_parse (scope : Scope) (s s' : Cursor) :
    Tied a b s s' (Statement.parse scope s) (Statement.parse scope s') := by
  refine tied_of_within (Statement.within_parse scope s) fun x pre h => ?_
  rw [Statement.parse, Statement.parse, ← h.peek?_eq]
  split
  · exact Statement.tied_parseIf scope s s'
  · exact Statement.tied_parseWhile scope s s'
  · exact Statement.tied_parseNames (by decide) .read s s'
  · exact Statement.tied_parseNames (by decide) .write s s'
  · exact Statement.tied_parseReturn s s'
  · exact Statement.tied_parseAssign s s'
termination_by 4 * s.size + 1

theorem Statement.tied_parseIf (scope : Scope) (s s' : Cursor) :
    Tied a b s s' (Statement.parseIf scope s) (Statement.parseIf scope s') := by
  refine tied_of_within (Statement.within_parseIf scope s) fun x pre h => ?_
  rw [Statement.parseIf, Statement.parseIf]
  refine (Statement.tied_parseHead (by decide) s s').bind h.size_pos
    fun head s₁ h₁ s₁' h₁' _ => ?_
  have hbody := Block.tied_parse (scope.nested head.1) s₁ s₁'
  refine hbody.afterLoose.bind h.size_pos fun body s₂ h₂ s₂' h₂' _ => ?_
  refine tied_match_skip? h₂ h₂'
    (fun t (ht : t.opened.size < s.size) =>
      (Block.parse (scope.nested t.opened.scopes) t.opened).afterLoose ht >>= fun y =>
        (y.next.keyword .endIf).after y.shorter >>= fun z =>
          pure ⟨Statement.ifElse head.2 body y.value, z.next, z.shorter⟩)
    (fun t (ht : t.opened.size < s'.size) =>
      (Block.parse (scope.nested t.opened.scopes) t.opened).afterLoose ht >>= fun y =>
        (y.next.keyword .endIf).after y.shorter >>= fun z =>
          pure ⟨Statement.ifElse head.2 body y.value, z.next, z.shorter⟩)
    ((tied_keyword .endIf).after.bind h.size_pos fun _ _ _ _ _ _ => tied_pure)
    fun s₃ h₃ s₃' h₃' hscopes => ?_
  have hsize : s₃.opened.size < s.size := h₃
  have hopened : s₃.opened.scopes = s₃'.opened.scopes := congrArg (· + 1) hscopes
  have halternative := Block.tied_parse (scope.nested s₃.opened.scopes) s₃.opened s₃'.opened
  rw [← hopened]
  refine Tied.bind (Tied.of_opened halternative.afterLoose) h.size_pos
    fun alternative s₄ h₄ s₄' h₄' _ => ?_
  exact (tied_keyword .endIf).after.bind h.size_pos fun _ _ _ _ _ _ => tied_pure
termination_by 4 * s.size

theorem Statement.tied_parseWhile (scope : Scope) (s s' : Cursor) :
    Tied a b s s' (Statement.parseWhile scope s) (Statement.parseWhile scope s') := by
  refine tied_of_within (Statement.within_parseWhile scope s) fun x pre h => ?_
  rw [Statement.parseWhile, Statement.parseWhile]
  refine (Statement.tied_parseHead (by decide) s s').bind h.size_pos
    fun head s₁ h₁ s₁' h₁' _ => ?_
  have hbody := Block.tied_parse (scope.nested head.1) s₁ s₁'
  refine hbody.afterLoose.bind h.size_pos fun body s₂ h₂ s₂' h₂' _ => ?_
  exact (tied_keyword .endWhile).after.bind h.size_pos fun _ _ _ _ _ _ => tied_pure
termination_by 4 * s.size

end

/-! ## Programs -/

namespace Function

theorem tied_parse (outer : Scope) (s s' : Cursor) :
    Tied a b s s' (parse outer s) (parse outer s') := by
  refine tied_of_within (within_parse outer s) fun x pre h => ?_
  refine (tied_keyword .function).bind h.size_pos fun _ s₁ h₁ s₁' h₁' _ => ?_
  refine tied_returnType.after.bind h.size_pos fun returns s₂ h₂ s₂' h₂' _ => ?_
  refine tied_identifier.after.bind h.size_pos fun name s₃ h₃ s₃' h₃' hscopes => ?_
  have hopened : s₃.opened.scopes = s₃'.opened.scopes := congrArg (· + 1) hscopes
  refine (tied_operator .openParen).afterOpened.bind h.size_pos fun _ s₄ h₄ s₄' h₄' _ => ?_
  rw [← hopened]
  refine (Parameter.tied_parseAll _ s₄ s₄').afterLoose.bind h.size_pos
    fun parameters s₅ h₅ s₅' h₅' _ => ?_
  refine (tied_operator .closeParen).after.bind h.size_pos fun _ s₆ h₆ s₆' h₆' _ => ?_
  refine (tied_keyword .begin_).after.bind h.size_pos fun _ s₇ h₇ s₇' h₇' _ => ?_
  refine (Block.tied_parse _ s₇ s₇').afterLoose.bind h.size_pos fun body s₈ h₈ s₈' h₈' _ => ?_
  exact (tied_keyword .end_).after.bind h.size_pos fun _ _ _ _ _ _ => tied_pure

theorem tied_parseAll (outer : Scope) (s s' : Cursor) :
    Tied a b s s' (parseAll outer s) (parseAll outer s') := by
  refine tied_of_within (within_parseAll outer s) fun x pre h => ?_
  rw [parseAll.eq_def outer s, parseAll.eq_def outer s', ← h.peek?_eq]
  split
  · refine Tied.loosen ((tied_parse outer s s').bind h.size_pos fun f s₁ h₁ s₁' h₁' _ => ?_)
    have hmore := tied_parseAll outer s₁ s₁'
    exact hmore.afterLoose.bind h.size_pos fun _ _ _ _ _ _ => tied_pure
  · exact tied_stay
termination_by s.size

end Function

namespace Program

theorem tied_parseWhole (s : Cursor) {s' : Cursor} (hs' : 0 < s'.size) :
    Tied a b s s' (parseWhole s) (parseWhole s') := by
  refine (tied_keyword .program).bind hs' fun _ s₁ h₁ s₁' h₁' _ => ?_
  refine tied_identifier.after.bind hs' fun name s₂ h₂ s₂' h₂' _ => ?_
  refine (tied_keyword .begin_).after.bind hs' fun _ s₃ h₃ s₃' h₃' _ => ?_
  refine (Declaration.tied_parseAll _ s₃ s₃').afterLoose.bind hs' fun globals s₄ h₄ s₄' h₄' _ => ?_
  refine (Function.tied_parseAll _ s₄ s₄').afterLoose.bind hs' fun functions s₅ h₅ s₅' h₅' _ => ?_
  refine (tied_keyword .end_).after.bind hs' fun end_ s₆ h₆ s₆' h₆' _ => ?_
  dsimp only
  constructor
  · intro hle
    split
    · exact .ok hle
    · exact beyond_fault rfl hle
  · intro x pre hs
    have hleft : s₆.ahead.isEmpty = false := by rw [hs.left]; rfl
    have hright : s₆'.ahead.isEmpty = false := by rw [hs.right]; rfl
    rw [hleft, hright]
    exact .error (hs.fault _)

/-- An error depends on the tokens up to the one at which it is reported, and on those of the
declaration alone if a name is declared twice. -/
theorem parse_append_eq_error {pre : Tokens} {stop : Stop} (hpre : pre ≠ [])
    (h : parseWhole { ahead := pre ++ a } = .error stop)
    (hstop : a.length < stop.stop.size ∨
      stop.error.value.isRedeclared = true ∧ a.length ≤ stop.stop.size) :
    parse (pre ++ b) = .error stop.error := by
  obtain ⟨x, pre, rfl⟩ := List.exists_cons_of_ne_nil hpre
  have hs : Along (x :: pre) a b { ahead := x :: pre ++ a } { ahead := x :: pre ++ b } :=
    ⟨rfl, rfl, rfl⟩
  have htogether := (tied_parseWhole _ hs.size_pos).along x pre hs
  rw [h] at htogether
  rw [parse]
  generalize parseWhole { ahead := x :: pre ++ b } = r at htogether ⊢
  cases htogether with
  | error herror => rw [herror]
  | beyond hbeyond =>
    cases hbeyond with
    | error hle hlt =>
      obtain hlt' | ⟨hr, hle'⟩ := hstop
      · omega
      · have hlt' := hlt hr
        omega

end Program

end LittleTiny
