import LittleTiny.Tree.Declaration
import LittleTiny.Tree.Expression

/-!
# What rules of the reader yield

`r.Yields a t` says that a rule succeeds with the value `a` and goes on at the cursor `t`; the proof
that `t` is further on is left out. Chains of rules come apart by `yields_bind`, and each rule that
takes a single token says which token it takes. `Avoids` speaks of the token ahead, by which the
reader decides between rules.
-/

namespace LittleTiny

/-- The tokens do not start with one of the class `p`. -/
def Avoids (p : Token → Prop) (ts : List (Located Token)) : Prop := ∀ t ∈ ts.head?, ¬ p t.value

section Avoids

variable {p q : Token → Prop} {t : Located Token} {ts : List (Located Token)}

@[simp]
theorem avoids_nil : Avoids p [] := by
  simp [Avoids]

@[simp]
theorem avoids_cons : Avoids p (t :: ts) ↔ ¬ p t.value := by
  simp [Avoids]

theorem Avoids.mono (h : Avoids q ts) (hpq : ∀ t, p t → q t) : Avoids p ts :=
  fun t ht hp => h t ht (hpq t.value hp)

end Avoids

namespace Reading

variable {α β γ : Type} {m n : Nat}

/-- The rule succeeds with `a` and goes on at `t`. -/
def Yields (r : Reading (Advance n α)) (a : α) (t : Cursor) : Prop := ∃ h, r = .ok ⟨a, t, h⟩

theorem yields_ok {step : Advance n α} {a : α} {t : Cursor} :
    Yields (.ok step) a t ↔ step.value = a ∧ step.next = t := by
  constructor
  · rintro ⟨_, h⟩
    cases h
    exact ⟨rfl, rfl⟩
  · rintro ⟨rfl, rfl⟩
    exact ⟨step.shorter, rfl⟩

theorem yields_pure {step : Advance n α} {a : α} {t : Cursor} :
    Yields (pure step) a t ↔ step.value = a ∧ step.next = t :=
  yields_ok

theorem not_yields_error {stop : Stop} {a : α} {t : Cursor} :
    ¬ Yields (.error stop : Reading (Advance n α)) a t := by
  rintro ⟨_, h⟩
  cases h

theorem not_yields_throw {stop : Stop} {a : α} {t : Cursor} :
    ¬ Yields (throw stop : Reading (Advance n α)) a t :=
  not_yields_error

theorem yields_if_throw {c : Prop} [Decidable c] {step : Advance n α} {stop : Stop} {a : α}
    {t : Cursor} :
    Yields (if c then pure step else throw stop) a t ↔ c ∧ step.value = a ∧ step.next = t := by
  by_cases h : c
  · rw [if_pos h, yields_pure]
    exact (and_iff_right h).symm
  · rw [if_neg h]
    exact iff_of_false not_yields_throw fun h' => h h'.1

theorem Yields.size_lt {r : Reading (Advance n α)} {a : α} {t : Cursor} (h : r.Yields a t) :
    t.size < n :=
  h.1

/-- A chain yields what its second part makes of what the first one yields. -/
theorem yields_bind {r : Reading (Advance m α)} {f : Advance m α → Reading (Advance n β)} {b : β}
    {t : Cursor} :
    Yields (r >>= f) b t ↔ ∃ a s, ∃ h : Yields r a s, Yields (f ⟨a, s, h.size_lt⟩) b t := by
  constructor
  · intro h
    cases r with
    | error stop => exact absurd h not_yields_error
    | ok step => exact ⟨step.value, step.next, ⟨step.shorter, rfl⟩, h⟩
  · rintro ⟨a, s, ⟨_, rfl⟩, h⟩
    exact h

theorem bind_eq_ok_iff {r : Reading γ} {f : γ → Reading β} {b : β} :
    r >>= f = .ok b ↔ ∃ c, r = .ok c ∧ f c = .ok b := by
  constructor
  · intro h
    cases r with
    | error stop => cases h
    | ok c => exact ⟨c, rfl, h⟩
  · rintro ⟨c, rfl, h⟩
    exact h

/-- The same for a first part that takes no token and only changes a scope. -/
theorem yields_bind_scope {r : Reading Scope} {f : Scope → Reading (Advance n β)} {b : β}
    {t : Cursor} : Yields (r >>= f) b t ↔ ∃ scope, r = .ok scope ∧ Yields (f scope) b t := by
  constructor
  · intro h
    cases r with
    | error stop => exact absurd h not_yields_error
    | ok scope => exact ⟨scope, rfl, h⟩
  · rintro ⟨scope, rfl, h⟩
    exact h

theorem yields_after {s t : Cursor} {h : s.size < n} {r : Reading (Advance s.size α)} {a : α} :
    Yields (r.after h) a t ↔ Yields r a t := by
  cases r with
  | error stop => exact iff_of_false not_yields_error not_yields_error
  | ok step => rw [after, yields_ok, yields_ok]

theorem yields_afterLoose {s t : Cursor} {h : s.size < n} {r : Reading (Advance (s.size + 1) α)}
    {a : α} : Yields (r.afterLoose h) a t ↔ Yields r a t := by
  cases r with
  | error stop => exact iff_of_false not_yields_error not_yields_error
  | ok step => rw [afterLoose, yields_ok, yields_ok]

theorem yields_loosen {t : Cursor} {r : Reading (Advance n α)} {a : α} :
    Yields r.loosen a t ↔ Yields r a t := by
  cases r with
  | error stop => exact iff_of_false not_yields_error not_yields_error
  | ok step => rw [loosen, yields_ok, yields_ok]

theorem yields_stay {s t : Cursor} {a b : α} : Yields (stay s a) b t ↔ a = b ∧ s = t := yields_ok

end Reading

namespace Cursor

open Reading

variable {α : Type} {s t u : Cursor}

/-- A required token is the one ahead, and becomes the last one. -/
theorem yields_take {want : Token → Option α} {e : SyntaxError} {a : Located α} :
    (s.take want e).Yields a t ↔
      ∃ token rest, s.ahead = ⟨token, a.location⟩ :: rest ∧ want token = some a.value ∧
        t = { s with ahead := rest, last := a.location } := by
  obtain ⟨ahead, last, scopes⟩ := s
  cases ahead with
  | nil =>
    refine iff_of_false not_yields_error ?_
    rintro ⟨_, _, h, -⟩
    cases h
  | cons x rest =>
    cases hw : want x.value with
    | none =>
      refine iff_of_false ?_ ?_
      · simp only [take, take?, hw, Option.map_none]
        exact not_yields_error
      · rintro ⟨token, rest', h, hw', -⟩
        cases h
        simp [hw] at hw'
    | some b =>
      simp only [take, take?, hw, Option.map_some, yields_ok]
      constructor
      · rintro ⟨rfl, rfl⟩
        exact ⟨x.value, rest, rfl, hw, rfl⟩
      · rintro ⟨token, rest', h, hw', rfl⟩
        cases h
        obtain rfl : b = a.value := Option.some.inj (hw.symm.trans hw')
        exact ⟨rfl, rfl⟩

theorem yields_expect {token : Token} {u : Located Unit} :
    (s.expect token).Yields u t ↔
      ∃ rest, s.ahead = ⟨token, u.location⟩ :: rest ∧
        t = { s with ahead := rest, last := u.location } := by
  rw [expect, yields_take]
  constructor
  · rintro ⟨token', rest, h, hw, rfl⟩
    split at hw
    · next he => exact ⟨rest, he ▸ h, rfl⟩
    · cases hw
  · rintro ⟨rest, h, rfl⟩
    exact ⟨token, rest, h, if_pos rfl, rfl⟩

theorem yields_keyword {k : Keyword} {u : Located Unit} :
    (s.keyword k).Yields u t ↔
      ∃ rest, s.ahead = ⟨.keyword k, u.location⟩ :: rest ∧
        t = { s with ahead := rest, last := u.location } :=
  yields_expect

theorem yields_operator {o : Operator} {u : Located Unit} :
    (s.operator o).Yields u t ↔
      ∃ rest, s.ahead = ⟨.operator o, u.location⟩ :: rest ∧
        t = { s with ahead := rest, last := u.location } :=
  yields_expect

theorem yields_identifier {name : Located String} :
    s.identifier.Yields name t ↔
      ∃ rest, s.ahead = ⟨.identifier name.value, name.location⟩ :: rest ∧
        t = { s with ahead := rest, last := name.location } := by
  rw [identifier, yields_take]
  constructor
  · rintro ⟨token, rest, h, hw, rfl⟩
    cases token <;> simp at hw
    exact ⟨rest, hw ▸ h, rfl⟩
  · rintro ⟨rest, h, rfl⟩
    exact ⟨_, rest, h, rfl, rfl⟩

theorem yields_stringLiteral {content : Located String} :
    s.stringLiteral.Yields content t ↔
      ∃ rest, s.ahead = ⟨.stringLiteral content.value, content.location⟩ :: rest ∧
        t = { s with ahead := rest, last := content.location } := by
  rw [stringLiteral, yields_take]
  constructor
  · rintro ⟨token, rest, h, hw, rfl⟩
    cases token <;> simp at hw
    exact ⟨rest, hw ▸ h, rfl⟩
  · rintro ⟨rest, h, rfl⟩
    exact ⟨_, rest, h, rfl, rfl⟩

/-! ## Tokens taken -/

/-- From `s` to `t` the tokens `ts` are taken and `k` scopes are opened. -/
def Reads (s : Cursor) (ts : List (Located Token)) (k : Nat) (t : Cursor) : Prop :=
  s.ahead = ts ++ t.ahead ∧ t.scopes = s.scopes + k

theorem Reads.refl (s : Cursor) : s.Reads [] 0 s := ⟨rfl, rfl⟩

theorem Reads.trans {ts ts' : List (Located Token)} {k k' : Nat} (h : s.Reads ts k t)
    (h' : t.Reads ts' k' u) : s.Reads (ts ++ ts') (k + k') u := by
  refine ⟨?_, ?_⟩
  · rw [h.1, h'.1, List.append_assoc]
  · rw [h'.2, h.2, Nat.add_assoc]

theorem reads_take {want : Token → Option α} {e : SyntaxError} {a : Located α}
    (h : (s.take want e).Yields a t) :
    ∃ token, s.Reads [⟨token, a.location⟩] 0 t ∧ want token = some a.value := by
  obtain ⟨token, rest, ha, hw, rfl⟩ := yields_take.1 h
  exact ⟨token, ⟨ha, rfl⟩, hw⟩

theorem reads_keyword {k : Keyword} {u : Located Unit} (h : (s.keyword k).Yields u t) :
    s.Reads [⟨.keyword k, u.location⟩] 0 t := by
  obtain ⟨rest, ha, rfl⟩ := yields_keyword.1 h
  exact ⟨ha, rfl⟩

theorem reads_operator {o : Operator} {u : Located Unit} (h : (s.operator o).Yields u t) :
    s.Reads [⟨.operator o, u.location⟩] 0 t := by
  obtain ⟨rest, ha, rfl⟩ := yields_operator.1 h
  exact ⟨ha, rfl⟩

theorem reads_identifier {name : Located String} (h : s.identifier.Yields name t) :
    s.Reads [⟨.identifier name.value, name.location⟩] 0 t := by
  obtain ⟨rest, ha, rfl⟩ := yields_identifier.1 h
  exact ⟨ha, rfl⟩

theorem reads_stringLiteral {content : Located String} (h : s.stringLiteral.Yields content t) :
    s.Reads [⟨.stringLiteral content.value, content.location⟩] 0 t := by
  obtain ⟨rest, ha, rfl⟩ := yields_stringLiteral.1 h
  exact ⟨ha, rfl⟩

/-! ## Optional tokens -/

theorem any_peek?_iff {p : Token → Bool} :
    s.peek?.any p = true ↔ ¬ Avoids (fun t => p t = true) s.ahead := by
  obtain ⟨ahead, last, scopes⟩ := s
  cases ahead <;> simp [peek?]

theorem peek?_eq_some_iff {token : Token} :
    s.peek? = some token ↔ ¬ Avoids (· = token) s.ahead := by
  obtain ⟨ahead, last, scopes⟩ := s
  cases ahead <;> simp [peek?]

theorem take?_eq_none_iff {want : Token → Option α} :
    s.take? want = none ↔ Avoids (fun t => (want t).isSome) s.ahead := by
  obtain ⟨ahead, last, scopes⟩ := s
  cases ahead <;> simp [take?]

/-- An optional token of a class is taken like a required one. -/
theorem take?_eq_some_iff {want : Token → Option α} {a : Located α} {h : t.size < s.size} :
    s.take? want = some ⟨a, t, h⟩ ↔ (s.take want .unexpectedEnd).Yields a t := by
  rw [take, Yields]
  cases s.take? want <;> simp [h]

theorem exists_take?_eq_some {want : Token → Option α} {token : Token} {l : Location} {a : α}
    {rest : List (Located Token)} (h : s.ahead = ⟨token, l⟩ :: rest) (hw : want token = some a) :
    ∃ g, s.take? want = some ⟨⟨a, l⟩, ⟨rest, l, s.scopes⟩, g⟩ := by
  have hy : (s.take want .unexpectedEnd).Yields ⟨a, l⟩ ⟨rest, l, s.scopes⟩ :=
    yields_take.2 ⟨token, rest, h, hw, rfl⟩
  exact ⟨hy.size_lt, take?_eq_some_iff.2 hy⟩

theorem reads_of_take? {want : Token → Option α} {a : Located α} {h : t.size < s.size}
    (ht : s.take? want = some ⟨a, t, h⟩) :
    ∃ token, s.Reads [⟨token, a.location⟩] 0 t ∧ want token = some a.value :=
  reads_take (take?_eq_some_iff.1 ht)

/-- From `s` to `t` an optional token is taken; it does not become the last one. -/
def Skips (s : Cursor) (token : Token) (t : Cursor) : Prop :=
  ∃ l, s.ahead = ⟨token, l⟩ :: t.ahead ∧ t.last = s.last ∧ t.scopes = s.scopes

theorem Skips.size_lt {token : Token} (h : s.Skips token t) : t.size < s.size := by
  obtain ⟨l, h, -⟩ := h
  rw [size, size, h]
  exact Nat.lt_succ_self _

theorem Skips.reads {token : Token} (h : s.Skips token t) : ∃ l, s.Reads [⟨token, l⟩] 0 t := by
  obtain ⟨l, h, -, hs⟩ := h
  exact ⟨l, h, hs⟩

theorem Skips.unique {token : Token} (h : s.Skips token t) (h' : s.Skips token u) : t = u := by
  obtain ⟨ahead, last, scopes⟩ := t
  obtain ⟨ahead', last', scopes'⟩ := u
  obtain ⟨l, h, rfl, rfl⟩ := h
  obtain ⟨l', h', rfl, rfl⟩ := h'
  cases h.symm.trans h'
  rfl

theorem skip?_eq_none_iff {token : Token} :
    s.skip? token = none ↔ Avoids (· = token) s.ahead := by
  obtain ⟨ahead, last, scopes⟩ := s
  cases ahead <;> simp [skip?]

theorem skip?_eq_some_iff {token : Token} {h : t.size < s.size} :
    s.skip? token = some ⟨t, h⟩ ↔ s.Skips token t := by
  obtain ⟨ahead, last, scopes⟩ := s
  obtain ⟨ahead', last', scopes'⟩ := t
  cases ahead with
  | nil => simp [skip?, Skips]
  | cons x rest =>
    obtain ⟨value, l⟩ := x
    by_cases hx : value = token
    · simp [skip?, Skips, hx, Subtype.ext_iff, eq_comm]
    · simp [skip?, Skips, hx]

/-- A rule that goes one way if an optional token is ahead, and another way if not. -/
theorem yields_match_skip? {n : Nat} {token : Token} {r : Reading (Advance n α)}
    {f : (t : Cursor) → t.size < s.size → Reading (Advance n α)} {a : α} :
    Yields (match s.skip? token with | none => r | some ⟨t, h⟩ => f t h) a u ↔
      (Avoids (· = token) s.ahead ∧ r.Yields a u) ∨
        ∃ t, ∃ h : s.Skips token t, (f t h.size_lt).Yields a u := by
  split
  · next h =>
    rw [skip?_eq_none_iff] at h
    refine ⟨fun hr => .inl ⟨h, hr⟩, ?_⟩
    rintro (⟨-, hr⟩ | ⟨t, ⟨l, ht, -⟩, -⟩)
    · exact hr
    · rw [ht, avoids_cons] at h
      exact absurd rfl h
  · next t ht h =>
    rw [skip?_eq_some_iff] at h
    refine ⟨fun hf => .inr ⟨t, h, hf⟩, ?_⟩
    rintro (⟨hn, -⟩ | ⟨t', h', hf⟩)
    · obtain ⟨l, h, -⟩ := h
      rw [h, avoids_cons] at hn
      exact absurd rfl hn
    · obtain rfl := h.unique h'
      exact hf

end Cursor

end LittleTiny
