import LittleTiny.Token.Scan
import Mathlib.Tactic.ByContra
import Mathlib.Tactic.SplitIfs

/-!
# How tokens are spelled

`Token.Spelled` says which texts a token can have: a name is a word that is not reserved, a numeral
has digits and at most one dot, and a text has no quote and no newline in it. The automaton keeps
what it has read of a token in a form that leads to such a token (`State.spelled_move`), so that all
the tokens of a stream are spelled in this way (`Scan.spelled_of_scan`).
-/

namespace LittleTiny

open Scan

/-! ## Texts of tokens -/

/-- A letter, and then letters and digits. -/
def IsWord (cs : List Char) : Prop :=
  cs.head?.any isLetter ∧ ∀ c ∈ cs, isLetter c || isDigit c

/-- Digits, one at least. -/
def IsWhole (cs : List Char) : Prop := cs ≠ [] ∧ ∀ c ∈ cs, isDigit c

/-- Digits, one at least, and one dot before, between or behind them. -/
def IsDecimal (cs : List Char) : Prop :=
  cs.count '.' = 1 ∧ (∃ c ∈ cs, isDigit c) ∧ ∀ c ∈ cs, isDigit c ∨ c = '.'

/-- A numeral is a whole number or a decimal. -/
def IsNumeral (cs : List Char) : Prop := IsWhole cs ∨ IsDecimal cs

instance (cs : List Char) : Decidable (IsWord cs) :=
  decidable_of_iff (cs.head?.any isLetter ∧ cs.all fun c => isLetter c || isDigit c)
    (by simp [IsWord])

instance (cs : List Char) : Decidable (IsWhole cs) :=
  decidable_of_iff (cs ≠ [] ∧ cs.all isDigit) (by simp [IsWhole])

instance (cs : List Char) : Decidable (IsDecimal cs) :=
  decidable_of_iff (cs.count '.' = 1 ∧ cs.any isDigit ∧ cs.all fun c => isDigit c || c == '.')
    (by simp [IsDecimal])

instance (cs : List Char) : Decidable (IsNumeral cs) :=
  inferInstanceAs (Decidable (_ ∨ _))

/-- The texts that tokens of each class have. -/
def Token.Spelled : Token → Prop
  | identifier name => IsWord name.toList ∧ Keyword.ofText? name = none
  | keyword _ => True
  | intLiteral digits => IsWhole digits.toList
  | floatLiteral digits => IsDecimal digits.toList
  | stringLiteral content => ∀ c ∈ content.toList, c ≠ '"' ∧ c ≠ '\n'
  | operator _ => True

instance (t : Token) : Decidable t.Spelled :=
  match t with
  | .identifier _ => inferInstanceAs (Decidable (_ ∧ _))
  | .keyword _ => inferInstanceAs (Decidable True)
  | .intLiteral _ => inferInstanceAs (Decidable (IsWhole _))
  | .floatLiteral _ => inferInstanceAs (Decidable (IsDecimal _))
  | .stringLiteral content =>
    decidable_of_iff (content.toList.all fun c => c != '"' && c != '\n') (by simp [Token.Spelled])
  | .operator _ => inferInstanceAs (Decidable True)

theorem ne_dot_of_isDigit {c : Char} (h : isDigit c) : c ≠ '.' := by
  rintro rfl
  exact absurd h (by decide)

theorem isDigit_eq_false_of_isLetter {c : Char} (h : isLetter c) : isDigit c = false := by
  simp only [isLetter, isDigit, Bool.or_eq_true, Bool.and_eq_true, decide_eq_true_eq, Char.le_def,
    UInt32.le_iff_toNat_le] at h ⊢
  -- All the letters stand behind the digits.
  have hnine : '9'.val.toNat = 57 := rfl
  have hupper : 'A'.val.toNat = 65 := rfl
  have hlower : 'a'.val.toNat = 97 := rfl
  rw [Bool.and_eq_false_iff, decide_eq_false_iff_not, decide_eq_false_iff_not]
  omega

theorem IsWord.snoc {cs : List Char} {c : Char} (h : IsWord cs) (hc : isLetter c || isDigit c) :
    IsWord (cs ++ [c]) := by
  obtain ⟨hfirst, hall⟩ := h
  refine ⟨?_, ?_⟩
  · cases cs with
    | nil => simp at hfirst
    | cons d ds => exact hfirst
  · intro d hd
    rcases List.mem_append.1 hd with hd | hd
    · exact hall d hd
    · rw [List.mem_singleton.1 hd]
      exact hc

/-- A numeral begins with a digit or the dot. -/
theorem IsNumeral.head {cs : List Char} (h : IsNumeral cs) :
    ∃ c rest, cs = c :: rest ∧ (isDigit c ∨ c = '.') := by
  cases cs with
  | nil =>
    rcases h with ⟨hne, -⟩ | ⟨hdot, -⟩
    · exact absurd rfl hne
    · cases hdot
  | cons c rest =>
    refine ⟨c, rest, rfl, ?_⟩
    rcases h with ⟨-, hall⟩ | ⟨-, -, hall⟩
    · exact .inl (hall c List.mem_cons_self)
    · exact hall c List.mem_cons_self

namespace Scan

/-! ## Tokens in the making -/

/-- What has been read of a token can become the text of one. -/
def Lexeme.Spelled : Lexeme → Prop
  | dash => True
  | pair _ _ => True
  | number digits dot =>
    digits ≠ [] ∧ digits.count '.' = dot.toNat ∧ ∀ c ∈ digits, isDigit c ∨ c = '.'
  | word letters => IsWord letters.reverse
  | text content => ∀ c ∈ content, c ≠ '"' ∧ c ≠ '\n'

theorem spelled_ofWord {word : String} (h : IsWord word.toList) : (Lexeme.ofWord word).Spelled := by
  unfold Lexeme.ofWord
  cases hk : Keyword.ofText? word with
  | some k => trivial
  | none => exact ⟨h, hk⟩

/-- A numeral without a dot is whole; one with a dot has a digit unless it is the dot alone. -/
theorem spelled_number {digits : List Char} {dot : Bool} (h : (Lexeme.number digits dot).Spelled)
    (hdot : digits ≠ ['.']) :
    if dot then IsDecimal digits.reverse else IsWhole digits.reverse := by
  obtain ⟨hne, hcount, hall⟩ := h
  cases dot with
  | false =>
    refine ⟨by simpa using hne, fun c hc => ?_⟩
    rw [List.mem_reverse] at hc
    refine (hall c hc).resolve_right ?_
    rintro rfl
    exact List.count_eq_zero.1 hcount hc
  | true =>
    refine ⟨by rwa [List.count_reverse], ?_, fun c hc => hall c (List.mem_reverse.1 hc)⟩
    by_contra hdigit
    -- Without a digit all the characters are dots, and there is one of them.
    have hdots : ∀ c ∈ digits, '.' = c := by
      intro c hc
      refine ((hall c hc).resolve_left fun hd => ?_).symm
      exact hdigit ⟨c, List.mem_reverse.2 hc, hd⟩
    have hlength : digits.length = 1 := (List.count_eq_length.2 hdots).symm.trans hcount
    obtain ⟨c, rfl⟩ := List.length_eq_one_iff.1 hlength
    exact hdot (by rw [hdots c List.mem_cons_self])

theorem Lexeme.spelled_finish {l : Lexeme} (h : l.Spelled) {token : Token}
    (ht : l.finish = .ok token) : token.Spelled := by
  cases l with
  | dash => cases ht; trivial
  | pair long short => cases short <;> cases ht; trivial
  | number digits dot =>
    rw [finish] at ht
    split_ifs at ht with hdigits hdot
    · cases ht
      simpa [Token.Spelled, hdot] using spelled_number h hdigits
    · cases ht
      simpa [Token.Spelled, hdot] using spelled_number h hdigits
  | word letters =>
    cases ht
    refine spelled_ofWord ?_
    rw [String.toList_ofList]
    exact h
  | text content => cases ht

/-! ## Moves -/

/-- The state holds what can become the text of a token. -/
def State.Spelled : State → Prop
  | between => True
  | comment => True
  | inside lexeme _ _ => lexeme.Spelled

/-- The move goes to such a state, or gives a token spelled as it should be. -/
def Move.Spelled : Move → Prop
  | goOn next => next.Spelled
  | take token => token.value.Spelled
  | leave token => token.value.Spelled
  | fail _ => True

theorem spelled_ite {q : Prop} [Decidable q] {o o' : Opening} {p : Position}
    (h : q → (o.move p).Spelled) (h' : ¬ q → (o'.move p).Spelled) :
    ((if q then o else o').move p).Spelled := by
  by_cases hq : q
  · rw [if_pos hq]
    exact h hq
  · rw [if_neg hq]
    exact h' hq

theorem spelled_opening (c : Char) (p : Position) : ((opening c).move p).Spelled := by
  unfold opening
  refine spelled_ite (fun _ => trivial) fun _ => ?_
  refine spelled_ite (fun _ d hd => nomatch hd) fun _ => ?_
  -- The signs that may begin a longer operator or a comment.
  iterate 5 refine spelled_ite (fun _ => trivial) fun _ => ?_
  refine spelled_ite (fun hletter => ⟨hletter, by simp [hletter]⟩) fun _ => ?_
  refine spelled_ite (fun hdigit => ⟨List.cons_ne_nil _ _, ?_, by simp [hdigit]⟩) fun _ => ?_
  · rw [List.count_singleton, if_neg (by simpa using ne_dot_of_isDigit hdigit)]
    rfl
  refine spelled_ite (fun hdot => ?_) fun _ => ?_
  · subst hdot
    exact ⟨List.cons_ne_nil _ _, rfl, by simp⟩
  · cases single? c <;> trivial

theorem spelled_stop {result : Except ScanError Token} (first last p : Position)
    (h : ∀ token, result = .ok token → token.Spelled) :
    ((Lexeme.Step.stop result).move first last p).Spelled := by
  cases result with
  | ok token => exact h token rfl
  | error e => trivial

theorem Lexeme.spelled_step {l : Lexeme} (h : l.Spelled) (c : Char) (first last p : Position) :
    ((l.step c).move first last p).Spelled := by
  cases l with
  | dash =>
    rw [step]
    split_ifs
    · trivial
    · exact spelled_stop first last p fun token => spelled_finish h
  | pair long short =>
    rw [step]
    split_ifs
    · trivial
    · exact spelled_stop first last p fun token => spelled_finish h
  | number digits dot =>
    have ⟨_, hcount, hall⟩ := h
    rw [step]
    split_ifs with hdigit hc hdot
    · refine ⟨List.cons_ne_nil _ _, ?_, List.forall_mem_cons.2 ⟨.inl hdigit, hall⟩⟩
      rw [List.count_cons_of_ne (ne_dot_of_isDigit hdigit), hcount]
    · trivial
    · subst hc
      refine ⟨List.cons_ne_nil _ _, ?_, List.forall_mem_cons.2 ⟨.inr rfl, hall⟩⟩
      rw [List.count_cons_self, hcount, Bool.eq_false_iff.2 hdot]
      rfl
    · exact spelled_stop first last p fun token => spelled_finish h
  | word letters =>
    rw [step]
    split_ifs with hc
    · show IsWord (c :: letters).reverse
      rw [List.reverse_cons]
      exact IsWord.snoc h hc
    · exact spelled_stop first last p fun token => spelled_finish h
  | text content =>
    rw [step]
    split_ifs with hquote hline
    · intro d hd
      rw [String.toList_ofList, List.mem_reverse] at hd
      exact h d hd
    · trivial
    · exact List.forall_mem_cons.2 ⟨⟨hquote, hline⟩, h⟩

theorem State.spelled_move {s : State} (h : s.Spelled) (c : Char) (p : Position) :
    (s.move c p).Spelled := by
  cases s with
  | between => exact spelled_opening c p
  | comment =>
    unfold State.move
    split_ifs <;> trivial
  | inside lexeme first last => exact lexeme.spelled_step h c first last p

/-! ## Streams -/

theorem spelled_resume {cs : List (Char × Position)} : ∀ {s : State} {token : Located Token},
    s.Spelled → (resume s cs).1 = some (.ok token) → token.value.Spelled := by
  induction cs with
  | nil =>
    intro s token h ht
    cases s with
    | between => cases ht
    | comment => cases ht
    | inside lexeme first last =>
      unfold resume State.close at ht
      dsimp only at ht
      split at ht
      · next t hfinish =>
        cases ht
        exact lexeme.spelled_finish h hfinish
      · cases ht
  | cons x cs ih =>
    obtain ⟨c, p⟩ := x
    intro s token h ht
    have hmove := s.spelled_move h c p
    rw [resume] at ht
    split at ht
    · next hm =>
      rw [hm] at hmove
      exact ih hmove ht
    · next hm =>
      cases ht
      rw [hm] at hmove
      exact hmove
    · next hm =>
      cases ht
      rw [hm] at hmove
      exact hmove
    · cases ht

theorem spelled_items {cs : List (Char × Position)} {token : Located Token}
    (h : .ok token ∈ items cs) : token.value.Spelled := by
  fun_induction items cs with
  | case1 => cases h
  | case2 cs item rest hnext hlt ih =>
    rcases List.mem_cons.1 h with rfl | h
    · have hfirst : (next cs).1 = some (.ok token) := by rw [hnext]
      exact @spelled_resume cs .between token trivial hfirst
    · exact ih h

/-- The tokens of a stream are spelled as tokens of their classes are. -/
theorem spelled_of_scan {cs : List (Char × Position)} {tokens : List (Located Token)}
    (h : scan cs = .ok tokens) : ∀ token ∈ tokens, token.value.Spelled := by
  intro token ht
  unfold scan collect at h
  split at h
  · cases h
    obtain ⟨item, hitem, hi⟩ := List.mem_filterMap.1 ht
    cases item with
    | ok token' =>
      cases hi
      exact spelled_items hitem
    | error e => cases hi
  · cases h

end Scan

end LittleTiny
