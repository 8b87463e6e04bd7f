/-!
# Runs of a machine

A machine is a function that gives the next state, if there is one. Its runs are determined by where
they start, so that a run that comes to rest passes through every state that can be reached from its
start (`exists_steps_of_reaches`). A machine that follows another one (`Follows`) reaches what
matches the states of the other, and comes to rest only behind it.
-/

namespace LittleTiny

universe u v

variable {σ : Type u}

/-- The state after `n` steps, if there are as many. -/
def steps (next : σ → Option σ) : Nat → σ → Option σ
  | 0, s => some s
  | n + 1, s => (next s).bind (steps next n)

/-- The state `b` comes after `a`, or is `a`. -/
def Reaches (next : σ → Option σ) (a b : σ) : Prop := ∃ n, steps next n a = some b

section

variable {next : σ → Option σ} {a b c : σ}

theorem steps_add (m n : Nat) (s : σ) :
    steps next (m + n) s = (steps next m s).bind (steps next n) := by
  induction m generalizing s with
  | zero => rw [Nat.zero_add]; rfl
  | succ m ih =>
    rw [Nat.succ_add, steps, steps]
    cases next s with
    | none => rfl
    | some s' => exact ih s'

theorem steps_one (s : σ) : steps next 1 s = next s := by
  rw [steps]
  cases next s <;> rfl

theorem Reaches.refl (a : σ) : Reaches next a a := ⟨0, rfl⟩

theorem Reaches.of_next (h : next a = some b) : Reaches next a b := ⟨1, (steps_one a).trans h⟩

theorem Reaches.trans (hab : Reaches next a b) (hbc : Reaches next b c) : Reaches next a c := by
  obtain ⟨m, hm⟩ := hab
  obtain ⟨n, hn⟩ := hbc
  refine ⟨m + n, ?_⟩
  rw [steps_add, hm]
  exact hn

theorem Reaches.snoc (hab : Reaches next a b) (hbc : next b = some c) : Reaches next a c :=
  hab.trans (.of_next hbc)

/-- What is left of a run that comes to rest, behind its first `k` steps. -/
theorem exists_steps_of_steps {k n : Nat} (hb : steps next k a = some b)
    (hc : steps next n a = some c) (hrest : next c = none) :
    ∃ m, n = k + m ∧ steps next m b = some c := by
  by_cases h : k ≤ n
  · obtain ⟨m, rfl⟩ := Nat.exists_eq_add_of_le h
    rw [steps_add, hb] at hc
    exact ⟨m, rfl, hc⟩
  · -- The run has come to rest before the `k`th step.
    obtain ⟨m, rfl⟩ := Nat.exists_eq_add_of_lt (Nat.lt_of_not_le h)
    rw [Nat.add_assoc, steps_add, hc, Option.bind_some, steps, hrest] at hb
    cases hb

theorem exists_steps_of_reaches {n : Nat} (hb : Reaches next a b) (hc : steps next n a = some c)
    (hrest : next c = none) : ∃ m ≤ n, steps next m b = some c := by
  obtain ⟨k, hk⟩ := hb
  obtain ⟨m, rfl, hm⟩ := exists_steps_of_steps hk hc hrest
  exact ⟨m, Nat.le_add_left m k, hm⟩

/-- A run that does not begin where it rests has a first step. -/
theorem exists_next_of_steps {n : Nat} (hc : steps next n a = some c) (hne : a ≠ c) :
    ∃ m b, n = m + 1 ∧ next a = some b ∧ steps next m b = some c := by
  cases n with
  | zero => exact absurd (Option.some.inj hc) hne
  | succ m =>
    rw [steps] at hc
    cases ha : next a with
    | none =>
      rw [ha] at hc
      cases hc
    | some b =>
      rw [ha] at hc
      exact ⟨m, b, rfl, rfl, hc⟩

theorem eq_of_steps {n : Nat} (hb : steps next n a = some b) (hrest : next a = none) : a = b := by
  refine Classical.byContradiction fun hne => ?_
  obtain ⟨m, c, -, hc, -⟩ := exists_next_of_steps hb hne
  rw [hrest] at hc
  cases hc

end

/-! ## One machine following another -/

section

variable {τ : Type v} {next : σ → Option σ} {next' : τ → Option τ} {R : σ → τ → Prop}
  {size : σ → Nat}

/-- The second machine answers each step of the first, with no step at all only when the first state
gets smaller. -/
def Follows (next : σ → Option σ) (next' : τ → Option τ) (R : σ → τ → Prop) (size : σ → Nat) :
    Prop :=
  ∀ ⦃a a' : σ⦄ ⦃b : τ⦄, R a b → next a = some a' →
    ∃ n b', steps next' n b = some b' ∧ R a' b' ∧ (n = 0 → size a' < size a)

theorem Follows.reaches (h : Follows next next' R size) {a a' : σ} {b : τ} (hab : R a b)
    (ha : Reaches next a a') : ∃ b', Reaches next' b b' ∧ R a' b' := by
  obtain ⟨n, hn⟩ := ha
  induction n generalizing a b with
  | zero =>
    cases hn
    exact ⟨b, .refl b, hab⟩
  | succ n ih =>
    rw [steps, Option.bind_eq_some_iff] at hn
    obtain ⟨a₁, ha₁, hn⟩ := hn
    obtain ⟨m, b₁, hm, hab₁, -⟩ := h hab ha₁
    obtain ⟨b', hb', hab'⟩ := ih hab₁ hn
    exact ⟨b', Reaches.trans ⟨m, hm⟩ hb', hab'⟩

/-- When the second machine comes to rest, the first one has come to rest before. -/
theorem Follows.exists_rest (h : Follows next next' R size) {n : Nat} {a : σ} {b c : τ}
    (hab : R a b) (hc : steps next' n b = some c) (hrest : next' c = none) :
    ∃ a' b', Reaches next a a' ∧ next a' = none ∧ R a' b' ∧ Reaches next' b' c := by
  -- Either the run of the second machine gets shorter, or the state of the first gets smaller.
  induction n using Nat.strongRecOn generalizing a b with
  | ind n ihn =>
    induction hsize : size a using Nat.strongRecOn generalizing a b with
    | ind k ihk =>
      subst hsize
      cases ha : next a with
      | none => exact ⟨a, b, .refl a, ha, hab, n, hc⟩
      | some a₁ =>
        obtain ⟨m, b₁, hm, hab₁, hsmaller⟩ := h hab ha
        obtain ⟨n', rfl, hc'⟩ := exists_steps_of_steps hm hc hrest
        have hnext : ∃ a' b', Reaches next a₁ a' ∧ next a' = none ∧ R a' b' ∧
            Reaches next' b' c := by
          by_cases hzero : m = 0
          · subst hzero
            rw [Nat.zero_add] at ihk
            exact ihk (size a₁) (hsmaller rfl) hab₁ hc' rfl
          · exact ihn n' (by omega) hab₁ hc'
        obtain ⟨a', b', ha', hrest', hab', hb'⟩ := hnext
        exact ⟨a', b', (Reaches.of_next ha).trans ha', hrest', hab', hb'⟩

end

end LittleTiny
