import LittleTiny.Proofs.Outline
import LittleTiny.Proofs.Reading
import Mathlib.Data.List.Forall2

/-!
# Reading two lists of tokens side by side

Two lists have the same tokens at locations that correspond by a relation `C`. A rule of the reader
then answers alike at both: it yields values that are related, and the cursors behind them see the
same tokens again; or it fails with the same error, at locations that correspond. `Parallel` says so
of a pair of rules. The chain of two pairs is again one (`Reading.Alike.bind`), and the rules that
look at single tokens are the only ones that have to look at the lists.
-/

namespace LittleTiny

/-- The same under `f`. -/
abbrev Same {α β : Type} (f : α → β) (a b : α) : Prop := f a = f b

/-- Related in both components. -/
def Both {α β γ δ : Type} (R : α → β → Prop) (Q : γ → δ → Prop) (x : α × γ) (y : β × δ) : Prop :=
  R x.1 y.1 ∧ Q x.2 y.2

section Relations

variable (C : Location → Location → Prop) {α β : Type}

/-- The same value at corresponding locations. -/
def Located.Alike (x y : Located α) : Prop := x.value = y.value ∧ C x.location y.location

/-- The same tokens ahead, at corresponding locations. -/
structure Cursor.Alike (s t : Cursor) : Prop where
  ahead : List.Forall₂ (Located.Alike C) s.ahead t.ahead
  last : C s.last t.last
  scopes : s.scopes = t.scopes

/-- What was read is related by `R`, and the cursors behind it are alike. -/
def Advance.Alike {m n : Nat} (R : α → β → Prop) (x : Advance m α) (y : Advance n β) : Prop :=
  R x.value y.value ∧ x.next.Alike C y.next

namespace Reading

/-- Both answers are values in the relation, or both are the same error. -/
inductive Alike (R : α → β → Prop) : Reading α → Reading β → Prop
  | ok {a : α} {b : β} (h : R a b) : Alike R (.ok a) (.ok b)
  | error {stop stop' : Stop} (h : stop.error.Alike C stop'.error) :
      Alike R (.error stop) (.error stop')

/-- Both rules go on at alike cursors with values in the relation, or both fail alike. -/
abbrev Parallel {m n : Nat} (R : α → β → Prop) (r : Reading (Advance m α))
    (r' : Reading (Advance n β)) : Prop :=
  Alike C (Advance.Alike C R) r r'

end Reading

end Relations

variable {C : Location → Location → Prop}

namespace Located

variable {α : Type}

theorem Alike.erase_eq {x y : Located α} (h : x.Alike C y) : x.erase = y.erase := erase_eq_iff.2 h.1

theorem map_value_eq {xs ys : List (Located α)} (h : List.Forall₂ (Alike C) xs ys) :
    xs.map value = ys.map value := by
  induction h with
  | nil => rfl
  | cons h _ ih => rw [List.map_cons, List.map_cons, h.1, ih]

theorem map_erase_eq {xs ys : List (Located α)} (h : List.Forall₂ (Alike C) xs ys) :
    xs.map erase = ys.map erase := by
  have hvalues := congrArg (List.map fun v => (⟨v, {}⟩ : Located α)) (map_value_eq h)
  rw [List.map_map, List.map_map] at hvalues
  exact hvalues

end Located

/-! ## Generic rules -/

namespace Reading

variable {α β γ δ : Type} {m n : Nat} {R : α → β → Prop} {Q : γ → δ → Prop}

theorem Alike.bind {r : Reading α} {r' : Reading β} {f : α → Reading γ} {f' : β → Reading δ}
    (h : Alike C R r r') (hf : ∀ a b, R a b → Alike C Q (f a) (f' b)) :
    Alike C Q (r >>= f) (r' >>= f') := by
  cases h with
  | ok h => exact hf _ _ h
  | error h => exact .error h

theorem Parallel.bind {r : Reading (Advance m α)} {r' : Reading (Advance n β)}
    {f : Advance m α → Reading γ} {f' : Advance n β → Reading δ} (h : Parallel C R r r')
    (hf : ∀ a s hs b s' hs', R a b → s.Alike C s' → Alike C Q (f ⟨a, s, hs⟩) (f' ⟨b, s', hs'⟩)) :
    Alike C Q (r >>= f) (r' >>= f') :=
  Alike.bind h fun x y hxy => hf x.value x.next x.shorter y.value y.next y.shorter hxy.1 hxy.2

theorem Parallel.after {s s' : Cursor} {h : s.size < m} {h' : s'.size < n}
    {r : Reading (Advance s.size α)} {r' : Reading (Advance s'.size β)} (hr : Parallel C R r r') :
    Parallel C R (r.after h) (r'.after h') := by
  cases hr with
  | ok h => exact .ok h
  | error h => exact .error h

theorem Parallel.afterLoose {s s' : Cursor} {h : s.size < m} {h' : s'.size < n}
    {r : Reading (Advance (s.size + 1) α)} {r' : Reading (Advance (s'.size + 1) β)}
    (hr : Parallel C R r r') : Parallel C R (r.afterLoose h) (r'.afterLoose h') := by
  cases hr with
  | ok h => exact .ok h
  | error h => exact .error h

theorem Parallel.loosen {r : Reading (Advance m α)} {r' : Reading (Advance n β)}
    (hr : Parallel C R r r') : Parallel C R r.loosen r'.loosen := by
  cases hr with
  | ok h => exact .ok h
  | error h => exact .error h

theorem parallel_stay {s s' : Cursor} {a : α} {b : β} (hs : s.Alike C s') (h : R a b) :
    Parallel C R (stay s a) (stay s' b) :=
  .ok ⟨h, hs⟩

theorem parallel_pure {s s' : Cursor} {a : α} {b : β} {h : s.size < m} {h' : s'.size < n}
    (hs : s.Alike C s') (hab : R a b) :
    Parallel C R (pure ⟨a, s, h⟩) (pure ⟨b, s', h'⟩) :=
  .ok ⟨hab, hs⟩

end Reading

/-! ## Single tokens -/

namespace Cursor

open Reading

variable {α : Type} {s s' : Cursor}

theorem seesCall_iff : s.seesCall = true ↔ ∃ name rest,
    s.ahead.map Located.value = .identifier name :: .operator .openParen :: rest := by
  constructor
  · intro h
    unfold seesCall at h
    split at h
    · next heq => exact ⟨_, _, by rw [heq]; rfl⟩
    · cases h
  · rintro ⟨name, rest, h⟩
    obtain ⟨⟨_, l⟩, _, hs, rfl, h⟩ := List.map_eq_cons_iff.1 h
    obtain ⟨⟨_, l'⟩, _, rfl, rfl, -⟩ := List.map_eq_cons_iff.1 h
    rw [seesCall, hs]

section Ahead

variable (hahead : List.Forall₂ (Located.Alike C) s.ahead s'.ahead)

include hahead

theorem fault_alike (hlast : s.ahead = [] → C s.last s'.last) (e : SyntaxError) :
    (s.fault e).error.Alike C (s'.fault e).error := by
  obtain ⟨ahead, last, scopes⟩ := s
  obtain ⟨ahead', last', scopes'⟩ := s'
  cases hahead with
  | nil => exact ⟨rfl, hlast rfl⟩
  | cons h _ => exact ⟨rfl, h.2⟩

theorem take?_alike (hscopes : s.scopes = s'.scopes) (want : Token → Option α) :
    (s.take? want = none ∧ s'.take? want = none) ∨
      ∃ x t h x' t' h', s.take? want = some ⟨x, t, h⟩ ∧ s'.take? want = some ⟨x', t', h'⟩ ∧
        x.Alike C x' ∧ t.Alike C t' := by
  obtain ⟨ahead, last, scopes⟩ := s
  obtain ⟨ahead', last', scopes'⟩ := s'
  obtain rfl : scopes = scopes' := hscopes
  cases hahead with
  | nil => exact .inl ⟨rfl, rfl⟩
  | @cons t t' rest rest' h hrest =>
    cases hw : want t.value with
    | none =>
      left
      have hw' : want t'.value = none := h.1 ▸ hw
      simp [take?, hw, hw']
    | some a =>
      right
      have hw' : want t'.value = some a := h.1 ▸ hw
      obtain ⟨g, hs⟩ := exists_take?_eq_some (s := ⟨t :: rest, last, scopes⟩) rfl hw
      obtain ⟨g', hs'⟩ := exists_take?_eq_some (s := ⟨t' :: rest', last', scopes⟩) rfl hw'
      exact ⟨_, _, g, _, _, g', hs, hs', ⟨rfl, h.2⟩, hrest, h.2, rfl⟩

/-- At the start no token has been read; then it is enough that there is one. -/
theorem parallel_take_of_ahead (hlast : s.ahead = [] → C s.last s'.last)
    (hscopes : s.scopes = s'.scopes) (want : Token → Option α) (e : SyntaxError) :
    Parallel C (Located.Alike C) (s.take want e) (s'.take want e) := by
  rcases take?_alike hahead hscopes want with ⟨h, h'⟩ | ⟨x, t, _, x', t', _, h, h', hx⟩
  · simp only [take, h, h']
    exact .error (fault_alike hahead hlast e)
  · simp only [take, h, h']
    exact .ok hx

end Ahead

namespace Alike

variable (h : s.Alike C s')

include h

theorem opened : s.opened.Alike C s'.opened :=
  ⟨h.ahead, h.last, congrArg (· + 1) h.scopes⟩

theorem peek?_eq : s.peek? = s'.peek? := by
  rw [Cursor.peek?, Cursor.peek?, ← List.head?_map, ← List.head?_map, Located.map_value_eq h.ahead]

theorem seesCall_eq : s.seesCall = s'.seesCall := by
  rw [Bool.eq_iff_iff, seesCall_iff, seesCall_iff, Located.map_value_eq h.ahead]

theorem fault (e : SyntaxError) : (s.fault e).error.Alike C (s'.fault e).error :=
  fault_alike h.ahead (fun _ => h.last) e

theorem take? (want : Token → Option α) :
    (s.take? want = none ∧ s'.take? want = none) ∨
      ∃ x t h x' t' h', s.take? want = some ⟨x, t, h⟩ ∧ s'.take? want = some ⟨x', t', h'⟩ ∧
        x.Alike C x' ∧ t.Alike C t' :=
  take?_alike h.ahead h.scopes want

theorem take (want : Token → Option α) (e : SyntaxError) :
    Parallel C (Located.Alike C) (s.take want e) (s'.take want e) :=
  parallel_take_of_ahead h.ahead (fun _ => h.last) h.scopes want e

theorem keyword (k : Keyword) : Parallel C (Located.Alike C) (s.keyword k) (s'.keyword k) :=
  h.take _ _

theorem operator (o : Operator) : Parallel C (Located.Alike C) (s.operator o) (s'.operator o) :=
  h.take _ _

theorem identifier : Parallel C (Located.Alike C) s.identifier s'.identifier := h.take _ _

theorem skip? (token : Token) :
    (s.skip? token = none ∧ s'.skip? token = none) ∨
      ∃ t h t' h', s.skip? token = some ⟨t, h⟩ ∧ s'.skip? token = some ⟨t', h'⟩ ∧
        t.Alike C t' := by
  obtain ⟨ahead, last, scopes⟩ := s
  obtain ⟨ahead', last', scopes'⟩ := s'
  obtain ⟨hahead, hlast, hscopes⟩ := h
  cases hahead with
  | nil => exact .inl ⟨rfl, rfl⟩
  | @cons t t' rest rest' ht hrest =>
    by_cases hv : t.value = token
    · right
      have hv' : t'.value = token := ht.1 ▸ hv
      have hs : (Cursor.mk (t :: rest) last scopes).Skips token ⟨rest, last, scopes⟩ :=
        ⟨t.location, by rw [← hv], rfl, rfl⟩
      have hs' : (Cursor.mk (t' :: rest') last' scopes').Skips token ⟨rest', last', scopes'⟩ :=
        ⟨t'.location, by rw [← hv'], rfl, rfl⟩
      exact ⟨_, hs.size_lt, _, hs'.size_lt, skip?_eq_some_iff.2 hs, skip?_eq_some_iff.2 hs', hrest,
        hlast, hscopes⟩
    · left
      have hv' : ¬ t'.value = token := ht.1 ▸ hv
      simp [Cursor.skip?, hv, hv']

end Alike

theorem Alike.names {s s' : Cursor} (h : s.Alike C s') :
    Parallel C (List.Forall₂ (Located.Alike C)) s.names s'.names := by
  rw [Cursor.names.eq_def s, Cursor.names.eq_def s']
  refine h.identifier.bind ?_
  intro name s₁ h₁ name' s₁' h₁' hname hs₁
  rcases hs₁.skip? (.operator .comma) with
    ⟨hnone, hnone'⟩ | ⟨s₂, g, s₂', g', hsome, hsome', hs₂⟩
  · simp only [hnone, hnone']
    exact parallel_pure hs₁ (.cons hname .nil)
  · simp only [hsome, hsome']
    refine (Alike.names hs₂).after.bind ?_
    intro more s₃ h₃ more' s₃' h₃' hmore hs₃
    exact parallel_pure hs₃ (.cons hname hmore)
termination_by s.size

end Cursor

end LittleTiny
