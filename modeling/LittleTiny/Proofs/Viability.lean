import LittleTiny.Proofs.Grammar.Program

/-!
# How far a rule gets

A rule of the reader takes tokens that its part of the grammar derives, and when it fails the tokens
taken so far can still be continued: by any token that the error names, or, when a name was declared
twice, as they are. `Within` says so of a rule and the derivations of its part of the grammar; it
also keeps track of the location at which an early end would be reported. The derivations of a chain
of rules are tuples of derivations (`Within.bind`), which are then read as derivations of the rule
that the chain makes up (`Within.map`).
-/

namespace LittleTiny

open Reading Cursor Grammar

/-- A token that the reader may find and that it does not ask for: an early end behind it is
reported before it. -/
def Token.optional (t : Token) : Bool := t = .operator .comma || t = .keyword .else_

namespace SyntaxError

/-- The tokens that an error asks for. -/
def Expects : SyntaxError → Token → Prop
  | expectedToken token, t => t = token
  | expectedKind kind, t => t.kind = kind
  | expectedVarType, t => t = .keyword .int
  | expectedReturnType, t => t = .keyword .int
  | expectedComparison, t => t.comparison?.isSome
  | illegalExpression, t => t.kind = .intLiteral
  | unexpectedEnd, _ => False
  | trailingInput, _ => False
  | redeclared _, _ => False

/-- Whether the error is about a second declaration. -/
def isRedeclared : SyntaxError → Bool
  | redeclared _ => true
  | _ => false

theorem isRedeclared_of_expects {e : SyntaxError} {x : Token} (h : e.Expects x) :
    e.isRedeclared = false := by
  cases e with
  | redeclared error => exact h.elim
  | _ => rfl

end SyntaxError

namespace Grammar

variable {D E : Type}

/-- The tokens of two derivations, one behind the other. -/
abbrev seq (tokens : D → Tokens) (tokens' : E → Tokens) : D × E → Tokens :=
  fun d => tokens d.1 ++ tokens' d.2

/-- A keyword, anywhere. -/
abbrev aWord (k : Keyword) : Location → Tokens := fun l => [word k l]

/-- An operator, anywhere. -/
abbrev aSign (o : Operator) : Location → Tokens := fun l => [sign o l]

/-- Any name. -/
abbrev aName : Located String → Tokens := fun name => [identifier name]

/-- Any string literal. -/
abbrev aText : Located String → Tokens := fun text => [⟨.stringLiteral text.value, text.location⟩]

end Grammar

namespace Cursor

/-- The location of the last token that is not optional, or the one from before. -/
def lastOf (l : Location) (ts : Tokens) : Location :=
  ts.foldl (fun l t => if t.value.optional then l else t.location) l

/-- From `s` to `t` the tokens `ts` are taken. -/
structure Passes (s : Cursor) (ts : Tokens) (t : Cursor) : Prop where
  ahead : s.ahead = ts ++ t.ahead
  last : t.last = lastOf s.last ts

theorem Passes.refl (s : Cursor) : s.Passes [] s := ⟨rfl, rfl⟩

theorem Passes.trans {s t u : Cursor} {ts us : Tokens} (h : s.Passes ts t) (h' : t.Passes us u) :
    s.Passes (ts ++ us) u where
  ahead := by rw [h.ahead, h'.ahead, List.append_assoc]
  last := by rw [h'.last, h.last, lastOf, lastOf, lastOf, List.foldl_append]

theorem Passes.size_eq {s t : Cursor} {ts : Tokens} (h : s.Passes ts t) :
    s.size = ts.length + t.size := by
  rw [size, h.ahead, List.length_append]
  rfl

theorem stop_fault {s : Cursor} {e : SyntaxError} : (s.fault e).stop = s := by
  unfold fault
  split <;> rfl

theorem isRedeclared_fault {s : Cursor} {e : SyntaxError} (h : e.isRedeclared = false) :
    (s.fault e).error.value.isRedeclared = false := by
  unfold fault
  split
  · rfl
  · exact h

end Cursor

namespace Reading

variable {α β : Type} {m n : Nat} {D E : Type} {tokens : D → Tokens} {tokens' : E → Tokens}
  {s t : Cursor}

/-- The same answer, with another bound on the tokens that are then ahead. -/
inductive Agrees : Reading (Advance m α) → Reading (Advance n α) → Prop
  | ok (a : α) (t : Cursor) (h : t.size < m) (h' : t.size < n) :
      Agrees (.ok ⟨a, t, h⟩) (.ok ⟨a, t, h'⟩)
  | error (stop : Stop) : Agrees (.error stop) (.error stop)

theorem agrees_after {h : t.size < n} {r : Reading (Advance t.size α)} : Agrees r (r.after h) := by
  cases r with
  | ok step => exact .ok ..
  | error stop => exact .error stop

theorem agrees_afterLoose {h : t.size < n} {r : Reading (Advance (t.size + 1) α)} :
    Agrees r (r.afterLoose h) := by
  cases r with
  | ok step => exact .ok ..
  | error stop => exact .error stop

theorem agrees_loosen {r : Reading (Advance n α)} : Agrees r r.loosen := by
  cases r with
  | ok step => exact .ok ..
  | error stop => exact .error stop

/-- The rule takes the tokens of a derivation, or fails behind tokens that a derivation goes on
with. -/
inductive Within (tokens : D → Tokens) (s : Cursor) : Reading (Advance n α) → Prop
  | ok {step : Advance n α} (d : D) (hs : s.Passes (tokens d) step.next) :
      Within tokens s (.ok step)
  | redeclared {stop : Stop} (d : D) (ts more : Tokens) (hs : s.Passes ts stop.stop)
      (he : stop.error.value.isRedeclared = true) (hne : ts ≠ []) (hd : tokens d = ts ++ more) :
      Within tokens s (.error stop)
  | fault {t : Cursor} {e : SyntaxError} (ts : Tokens) (hs : s.Passes ts t)
      (he : ∃ x, e.Expects x)
      (hd : ∀ x : Located Token, e.Expects x.value → ∃ d more, tokens d = ts ++ x :: more) :
      Within tokens s (.error (t.fault e))

/-- The answer leaves the cursor where it is, with a value or with a name declared twice. -/
def Settles (t : Cursor) (r : Reading (Advance n α)) : Prop :=
  (∃ a h, r = .ok ⟨a, t, h⟩) ∨ ∃ error l, r = .error ⟨⟨.redeclared error, l⟩, t⟩

namespace Within

/-- What is before a rule is before its derivations. -/
theorem prepend {ts : Tokens} {r : Reading (Advance n α)} (hs : s.Passes ts t)
    (h : Within tokens t r) : Within (fun d => ts ++ tokens d) s r := by
  cases h with
  | ok d ht => exact .ok d (hs.trans ht)
  | redeclared d us more ht he hne hd =>
    refine .redeclared d (ts ++ us) more (hs.trans ht) he (by simp [hne]) ?_
    rw [hd, List.append_assoc]
  | fault us ht he hd =>
    refine .fault (ts ++ us) (hs.trans ht) he fun x hx => ?_
    obtain ⟨d, more, hd⟩ := hd x hx
    exact ⟨d, more, by rw [hd, List.append_assoc]⟩

theorem map {r : Reading (Advance n α)} (h : Within tokens s r) (g : D → E)
    (hg : ∀ d, tokens' (g d) = tokens d) : Within tokens' s r := by
  cases h with
  | ok d hs => exact .ok (g d) (by rw [hg]; exact hs)
  | redeclared d ts more hs he hne hd => exact .redeclared (g d) ts more hs he hne ((hg d).trans hd)
  | fault ts hs he hd =>
    refine .fault ts hs he fun x hx => ?_
    obtain ⟨d, more, hd⟩ := hd x hx
    exact ⟨g d, more, (hg d).trans hd⟩

/-- What is behind a rule that fails is made up. -/
theorem extend [Nonempty E] {stop : Stop}
    (h : Within tokens s (.error stop : Reading (Advance m α))) :
    Within (seq tokens tokens') s (.error stop : Reading (Advance n β)) := by
  obtain ⟨e⟩ := ‹Nonempty E›
  cases h with
  | redeclared d ts more hs he hne hd =>
    exact .redeclared (d, e) ts (more ++ tokens' e) hs he hne (by simp [seq, hd])
  | fault ts hs he hd =>
    refine .fault ts hs he fun x hx => ?_
    obtain ⟨d, more, hd⟩ := hd x hx
    exact ⟨(d, e), more ++ tokens' e, by simp [seq, hd]⟩

theorem bind [Nonempty E] {r : Reading (Advance m α)} {f : Advance m α → Reading (Advance n β)}
    (hr : Within tokens s r) (hf : ∀ a t h, Within tokens' t (f ⟨a, t, h⟩)) :
    Within (seq tokens tokens') s (r >>= f) := by
  cases r with
  | error stop => exact hr.extend
  | ok step =>
    cases hr with
    | ok d hs =>
      have hrest := (hf step.value step.next step.shorter).prepend hs
      exact hrest.map (fun d' => (d, d')) fun _ => rfl

/-- A rule that ends a chain with its value. -/
theorem yielding {r : Reading (Advance m α)} {f : Advance m α → Reading (Advance n β)}
    (hr : Within tokens s r) (hf : ∀ a t h, ∃ b h', f ⟨a, t, h⟩ = .ok ⟨b, t, h'⟩) :
    Within tokens s (r >>= f) := by
  cases hr with
  | @ok step d hs =>
    obtain ⟨b, h, hok⟩ := hf step.value step.next step.shorter
    have hbind : (.ok step >>= f) = .ok ⟨b, step.next, h⟩ := hok
    rw [hbind]
    exact .ok d hs
  | redeclared d ts more hs he hne hd => exact .redeclared d ts more hs he hne hd
  | fault ts hs he hd => exact .fault ts hs he hd

/-- A rule that only enters names into a scope takes no token; it may fail only behind one. -/
theorem settle {r : Reading (Advance m α)} {f : Advance m α → Reading (Advance n β)}
    (hr : Within tokens s r) (hne : ∀ d, tokens d ≠ [])
    (hf : ∀ a t h, Settles t (f ⟨a, t, h⟩)) : Within tokens s (r >>= f) := by
  cases hr with
  | @ok step d hs =>
    rcases hf step.value step.next step.shorter with ⟨b, h, hok⟩ | ⟨error, l, herror⟩
    · have hbind : (.ok step >>= f) = .ok ⟨b, step.next, h⟩ := hok
      rw [hbind]
      exact .ok d hs
    · have hbind : (.ok step >>= f) = .error ⟨⟨.redeclared error, l⟩, step.next⟩ := herror
      rw [hbind]
      exact .redeclared d (tokens d) [] hs rfl (hne d) (List.append_nil _).symm
  | redeclared d ts more hs he hne hd => exact .redeclared d ts more hs he hne hd
  | fault ts hs he hd => exact .fault ts hs he hd

theorem of_agrees {r : Reading (Advance m α)} {q : Reading (Advance n α)}
    (hr : Within tokens s r) (h : Agrees r q) : Within tokens s q := by
  cases hr with
  | ok d hs =>
    cases h
    exact .ok d hs
  | redeclared d ts more hs he hne hd =>
    cases h
    exact .redeclared d ts more hs he hne hd
  | fault ts hs he hd =>
    cases h
    exact .fault ts hs he hd

theorem after {h : t.size < n} {r : Reading (Advance t.size α)} (hr : Within tokens s r) :
    Within tokens s (r.after h) :=
  hr.of_agrees agrees_after

theorem afterLoose {h : t.size < n} {r : Reading (Advance (t.size + 1) α)}
    (hr : Within tokens s r) : Within tokens s (r.afterLoose h) :=
  hr.of_agrees agrees_afterLoose

theorem loosen {r : Reading (Advance n α)} (hr : Within tokens s r) : Within tokens s r.loosen :=
  hr.of_agrees agrees_loosen

end Within

/-- A cursor with one more scope opened has the same tokens ahead. -/
theorem within_of_opened {r : Reading (Advance n α)} (h : Within tokens s.opened r) :
    Within tokens s r := by
  cases h with
  | ok d hs => exact .ok d ⟨hs.ahead, hs.last⟩
  | redeclared d ts more hs he hne hd => exact .redeclared d ts more ⟨hs.ahead, hs.last⟩ he hne hd
  | fault ts hs he hd => exact .fault ts ⟨hs.ahead, hs.last⟩ he hd

theorem Within.afterOpened {h : s.size < n} {r : Reading (Advance s.opened.size α)}
    (hr : Within tokens s.opened r) : Within tokens s (@Reading.after α n s h r) :=
  within_of_opened (Within.after (t := s) hr)

theorem within_pure {a : α} {h : s.size < n} :
    Within (fun _ : Unit => []) s (pure ⟨a, s, h⟩ : Reading (Advance n α)) :=
  .ok () (.refl s)

theorem within_stay {a : α} : Within (fun _ : Unit => []) s (stay s a) :=
  .ok () (.refl s)

/-- As `Within`, for a rule that also asks that nothing is behind it. -/
def WithinWhole (tokens : D → Tokens) (s : Cursor) (r : Reading (Advance n α)) : Prop :=
  Within tokens s r ∨
    ∃ d t, s.Passes (tokens d) t ∧ t.ahead ≠ [] ∧ r = .error (t.fault .trailingInput)

theorem WithinWhole.map {r : Reading (Advance n α)} (h : WithinWhole tokens s r) (g : D → E)
    (hg : ∀ d, tokens' (g d) = tokens d) : WithinWhole tokens' s r := by
  obtain h | ⟨d, t, hs, ht, hr⟩ := h
  · exact .inl (h.map g hg)
  · exact .inr ⟨g d, t, (hg d).symm ▸ hs, ht, hr⟩

theorem Within.bindWhole [Nonempty E] {r : Reading (Advance m α)}
    {f : Advance m α → Reading (Advance n β)} (hr : Within tokens s r)
    (hf : ∀ a t h, WithinWhole tokens' t (f ⟨a, t, h⟩)) :
    WithinWhole (seq tokens tokens') s (r >>= f) := by
  cases r with
  | error stop => exact .inl hr.extend
  | ok step =>
    cases hr with
    | ok d hs =>
      obtain hrest | ⟨d', t, ht, hne, herror⟩ := hf step.value step.next step.shorter
      · exact .inl ((hrest.prepend hs).map (fun d' => (d, d')) fun _ => rfl)
      · exact .inr ⟨(d, d'), t, hs.trans ht, hne, herror⟩

end Reading

/-! ## Single tokens -/

namespace Cursor

variable {α D : Type} {s t : Cursor}

theorem passes_cons {x : Located Token} {rest : Tokens} (h : s.ahead = x :: rest)
    (hx : x.value.optional = false) : s.Passes [x] { s with ahead := rest, last := x.location } :=
  ⟨h, by simp [lastOf, hx]⟩

/-- A token that is taken is not an optional one. -/
def Requires (want : Token → Option α) : Prop := ∀ t a, want t = some a → t.optional = false

theorem passes_of_take? {want : Token → Option α} (hwant : Requires want) {a : Located α}
    {h : t.size < s.size} (ht : s.take? want = some ⟨a, t, h⟩) :
    ∃ token, want token = some a.value ∧ s.Passes [⟨token, a.location⟩] t := by
  obtain ⟨token, rest, hahead, hw, rfl⟩ := yields_take.1 (take?_eq_some_iff.1 ht)
  exact ⟨token, hw, passes_cons hahead (hwant token _ hw)⟩

theorem passes_of_skip? {token : Token} (htoken : token.optional = true) {h : t.size < s.size}
    (ht : s.skip? token = some ⟨t, h⟩) : ∃ l, s.Passes [⟨token, l⟩] t := by
  obtain ⟨l, hahead, hlast, -⟩ := skip?_eq_some_iff.1 ht
  exact ⟨l, hahead, by simp [lastOf, htoken, hlast]⟩

/-- The token of a rule that takes a single one; where it fails, it asks for such a token. -/
theorem within_take {want : Token → Option α} {e : SyntaxError} {tokens : D → Tokens}
    (hwant : Requires want)
    (htokens : ∀ (token : Token) (a : α) (l : Location), want token = some a →
      ∃ d, tokens d = [⟨token, l⟩])
    (hexpects : ∀ token, e.Expects token → (want token).isSome) (he : ∃ token, e.Expects token) :
    Within tokens s (s.take want e) := by
  unfold take
  cases ht : s.take? want with
  | none =>
    refine .fault [] (.refl s) he fun x hx => ?_
    obtain ⟨a, ha⟩ := Option.isSome_iff_exists.1 (hexpects x.value hx)
    obtain ⟨d, hd⟩ := htokens x.value a x.location ha
    exact ⟨d, [], hd⟩
  | some step =>
    obtain ⟨token, hw, hs⟩ := passes_of_take? hwant ht
    obtain ⟨d, hd⟩ := htokens token _ step.value.location hw
    exact .ok d (hd ▸ hs)

theorem within_expect {token : Token} (htoken : token.optional = false) :
    Within (fun l : Location => [⟨token, l⟩]) s (s.expect token) := by
  refine within_take ?_ ?_ ?_ ⟨token, rfl⟩
  · intro t a ht
    dsimp only at ht
    split at ht
    · next h => rwa [h]
    · cases ht
  · intro t a l ht
    split at ht
    · next h => exact ⟨l, by rw [h]⟩
    · cases ht
  · rintro t rfl
    rw [if_pos rfl]
    rfl

theorem within_keyword (k : Keyword) (hk : k ≠ .else_ := by decide) :
    Within (aWord k) s (s.keyword k) :=
  within_expect (by simp [Token.optional, hk])

theorem within_operator (o : Operator) (ho : o ≠ .comma := by decide) :
    Within (aSign o) s (s.operator o) :=
  within_expect (by simp [Token.optional, ho])

theorem within_identifier : Within aName s s.identifier := by
  refine within_take ?_ ?_ ?_ ⟨.identifier "", rfl⟩
  · intro t a ht
    cases t <;> cases ht
    rfl
  · intro t a l ht
    cases t <;> cases ht
    exact ⟨⟨a, l⟩, rfl⟩
  · intro t ht
    cases t <;> cases ht
    rfl

theorem within_stringLiteral : Within aText s s.stringLiteral := by
  refine within_take ?_ ?_ ?_ ⟨.stringLiteral "", rfl⟩
  · intro t a ht
    cases t <;> cases ht
    rfl
  · intro t a l ht
    cases t <;> cases ht
    exact ⟨⟨a, l⟩, rfl⟩
  · intro t ht
    cases t <;> cases ht
    rfl

end Cursor

end LittleTiny
