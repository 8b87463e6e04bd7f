import LittleTiny.Proofs.Lexemes
import Mathlib.Tactic.ByContra

/-!
# The automaton and the lexical grammar

The automaton, which sees one character at a time and keeps what it has read of a token, yields the
items that the lexical grammar gives, on every stream (`Scan.items_eq_lexemes`). For a lexeme that
is read in parts, the invariant is that the part read so far and what is still to come make the item
that the grammar gives for both together (`matches_word`, `matches_number`, `matches_quoted`).
-/

namespace LittleTiny

open Scan

/-! ## The table of operators -/

namespace Operator

theorem ofText?_eq_some_iff {s : String} {o : Operator} : ofText? s = some o ↔ o.text = s := by
  constructor
  · intro h
    simpa using List.find?_some h
  · rintro rfl
    cases o <;> decide

/-- The operator that a character makes with an equals sign behind it. -/
def withEqual? : Char → Option Operator
  | ':' => some assign
  | '!' => some notEqual
  | '<' => some lessEqual
  | '>' => some greaterEqual
  | _ => none

/-- Every operator of two characters ends with an equals sign. -/
theorem ofText?_pair (c d : Char) :
    ofText? (String.ofList [c, d]) = if d = '=' then withEqual? c else none := by
  ext o
  rw [ofText?_eq_some_iff, ← String.toList_inj, String.toList_ofList]
  by_cases hd : d = '='
  · rw [if_pos hd]
    unfold withEqual?
    split <;> cases o <;> simp_all [text, eq_comm]
  · rw [if_neg hd]
    cases o <;> simp_all [text, eq_comm]

theorem ofText?_single {c : Char} (hdash : c ≠ '-') (hless : c ≠ '<') (hgreater : c ≠ '>') :
    ofText? (String.ofList [c]) = single? c := by
  ext o
  rw [ofText?_eq_some_iff, ← String.toList_inj, String.toList_ofList]
  unfold single?
  split <;> cases o <;> simp_all [text, eq_comm]

end Operator

namespace Lexemes

/-! ## Skipped lines -/

theorem items_blank {c : Char} (hc : Text.isBlank c) (p : Position) (rest : Chars) :
    items ((c, p) :: rest) = items rest := by
  rw [items_cons, if_pos hc]

theorem discardLine_cons {c : Char} (hc : c ≠ '\n') (p : Position) (rest : Chars) :
    discardLine ((c, p) :: rest) = discardLine rest :=
  List.dropWhile_cons_of_pos (by simpa using hc)

/-- The newline at the end of a discarded line is blank. -/
theorem items_afterLine (cs : Chars) : items (afterLine cs) = items (discardLine cs) := by
  induction cs with
  | nil => rfl
  | cons x rest ih =>
    obtain ⟨c, p⟩ := x
    by_cases hc : c = '\n'
    · subst hc
      exact (items_blank (by decide) p rest).symm
    · rw [afterLine, if_neg hc, discardLine_cons hc, ih]

theorem discardLine_dropWhile {q : Char × Position → Bool} (hq : ∀ x, q x → x.1 ≠ '\n')
    (cs : Chars) : discardLine (cs.dropWhile q) = discardLine cs := by
  induction cs with
  | nil => rfl
  | cons x rest ih =>
    by_cases hx : q x
    · rw [List.dropWhile_cons_of_pos hx, ih, discardLine_cons (hq x hx)]
    · rw [List.dropWhile_cons_of_neg hx]

/-! ## Lexemes read in parts -/

/-- The automaton brings out the item, and goes on where the same items are left. -/
def Matches (r : Option Item × Chars) (x : Item × Chars) : Prop :=
  r.1 = some x.1 ∧ items r.2 = items x.2

/-- What a lexeme from `first` to `last` makes when nothing more belongs to it. -/
def closed (first last : Position) (rest : Chars) : Except ScanError Token → Item × Chars
  | .ok t => token t first last rest
  | .error e => failure e (ahead last rest) rest

section

variable {c : Char} {p : Position} {rest : Chars}

theorem next_blank (hc : Text.isBlank c) (p : Position) (rest : Chars) :
    next ((c, p) :: rest) = next rest := by
  rw [next, resume, State.move, opening, if_pos hc]
  rfl

theorem next_enter {l : Lexeme} (h : opening c = .enter l) :
    next ((c, p) :: rest) = resume (.inside l p p) rest := by
  rw [next, resume, State.move, h]
  rfl

theorem next_complete {t : Token} (h : opening c = .complete t) :
    next ((c, p) :: rest) = (some (.ok ⟨t, .point p⟩), rest) := by
  rw [next, resume, State.move, h]
  rfl

theorem next_refuse {e : ScanError} (h : opening c = .refuse e) :
    next ((c, p) :: rest) = (some (.error ⟨e, .point p⟩), afterLine ((c, p) :: rest)) := by
  rw [next, resume, State.move, h]
  rfl

end

theorem matches_failure (e : ScanError) (p : Position) (rest : Chars) :
    Matches (some (.error ⟨e, .point p⟩), afterLine rest) (failure e p rest) :=
  ⟨rfl, items_afterLine rest⟩

section

variable {l : Lexeme} {first last : Position}

theorem resume_grow {l' : Lexeme} {c : Char} (h : l.step c = .grow l') (p : Position)
    (rest : Chars) :
    resume (.inside l first last) ((c, p) :: rest) = resume (.inside l' first p) rest := by
  rw [resume, State.move, h]
  rfl

theorem resume_complete {t : Token} {c : Char} (h : l.step c = .complete t) (p : Position)
    (rest : Chars) :
    resume (.inside l first last) ((c, p) :: rest) = (some (.ok ⟨t, ⟨first, p⟩⟩), rest) := by
  rw [resume, State.move, h]
  rfl

theorem resume_fail {e : ScanError} {c : Char} (h : l.step c = .stop (.error e)) (p : Position)
    (rest : Chars) :
    resume (.inside l first last) ((c, p) :: rest) =
      (some (.error ⟨e, .point p⟩), afterLine ((c, p) :: rest)) := by
  rw [resume, State.move, h]
  rfl

/-- A lexeme to which nothing ahead belongs, before the end of the stream or at it. -/
theorem matches_stop {cs : Chars} (h : ∀ x ∈ cs.head?, l.step x.1 = .stop l.finish) :
    Matches (resume (.inside l first last) cs) (closed first last cs l.finish) := by
  cases cs with
  | nil =>
    rw [resume, State.close]
    cases l.finish with
    | ok t => exact ⟨rfl, rfl⟩
    | error e => exact matches_failure e last []
  | cons x rest =>
    obtain ⟨c, p⟩ := x
    rw [resume, State.move, h (c, p) rfl]
    cases l.finish with
    | ok t => exact ⟨rfl, rfl⟩
    | error e => exact matches_failure e p ((c, p) :: rest)

end

section

variable {q : Char × Position → Bool} {run rest : Chars}

/-- A run of a class ends where a character of another class follows. -/
theorem takeWhile_run (hrun : ∀ x ∈ run, q x) (hrest : ∀ x ∈ rest.head?, ¬ q x) :
    (run ++ rest).takeWhile q = run := by
  rw [List.takeWhile_append_of_pos hrun]
  cases rest with
  | nil => exact List.append_nil run
  | cons x rest => rw [List.takeWhile_cons_of_neg (hrest x rfl), List.append_nil]

theorem dropWhile_run (hrun : ∀ x ∈ run, q x) (hrest : ∀ x ∈ rest.head?, ¬ q x) :
    (run ++ rest).dropWhile q = rest := by
  rw [List.dropWhile_append_of_pos hrun]
  cases rest with
  | nil => rfl
  | cons x rest => exact List.dropWhile_cons_of_neg (hrest x rfl)

theorem forall_mem_snoc {x : Char × Position} (hrun : ∀ x ∈ run, q x) (hx : q x) :
    ∀ y ∈ run ++ [x], q y :=
  List.forall_mem_append.2 ⟨hrun, List.forall_mem_singleton.2 hx⟩

end

theorem lastOf_snoc (first : Position) (run : Chars) (x : Char × Position) :
    lastOf first (run ++ [x]) = x.2 := by
  simp [lastOf]

theorem reverse_snoc (run : Chars) (c : Char) (p : Position) :
    ((run ++ [(c, p)]).map Prod.fst).reverse = c :: (run.map Prod.fst).reverse := by
  simp

/-! ### Words -/

theorem ofWord_eq (s : String) :
    Lexeme.ofWord s = (Keyword.ofText? s).elim (Token.identifier s) Token.keyword := by
  unfold Lexeme.ofWord
  cases Keyword.ofText? s <;> rfl

theorem matches_word_stop {run rest : Chars} (hrun : ∀ x ∈ run, inWord x)
    (hrest : ∀ x ∈ rest.head?, ¬ inWord x) (first : Position) :
    Matches (resume (.inside (.word (run.map Prod.fst).reverse) first (lastOf first run)) rest)
      (word first (run ++ rest)) := by
  have hstep : ∀ x ∈ rest.head?, (Lexeme.word (run.map Prod.fst).reverse).step x.1 =
      .stop (Lexeme.word (run.map Prod.fst).reverse).finish :=
    fun x hx => if_neg (hrest x hx)
  have hstop := @matches_stop _ first (lastOf first run) _ hstep
  rw [word, takeWhile_run hrun hrest, dropWhile_run hrun hrest]
  simpa [Lexeme.finish, closed, ofWord_eq, text] using hstop

theorem matches_word (first : Position) (cs : Chars) : ∀ {run : Chars}, (∀ x ∈ run, inWord x) →
    Matches (resume (.inside (.word (run.map Prod.fst).reverse) first (lastOf first run)) cs)
      (word first (run ++ cs)) := by
  induction cs with
  | nil => exact fun hrun => matches_word_stop hrun (by simp) first
  | cons x rest ih =>
    intro run hrun
    obtain ⟨c, p⟩ := x
    by_cases hc : inWord (c, p)
    · have hmore := ih (forall_mem_snoc hrun hc)
      have hstep : (Lexeme.word (run.map Prod.fst).reverse).step c = .grow _ := if_pos hc
      rw [reverse_snoc, lastOf_snoc, List.append_assoc] at hmore
      rw [resume_grow hstep]
      exact hmore
    · exact matches_word_stop hrun (by simpa using hc) first

/-! ### Numbers -/

theorem ne_newline_of_inNumber (x : Char × Position) (h : inNumber x) : x.1 ≠ '\n' := by
  intro hx
  rw [inNumber, isDot, hx] at h
  exact absurd h (by decide)

theorem not_isDot_of_isDigit {c : Char} (h : isDigit c) (p : Position) : ¬ isDot (c, p) := by
  intro hdot
  obtain rfl : c = '.' := of_decide_eq_true hdot
  exact absurd h (by decide)

/-- Without a dot in it, a run is not the dot alone. -/
theorem ne_lone_dot {run : Chars} (hdots : run.filter isDot = []) :
    (run.map Prod.fst).reverse ≠ ['.'] := by
  intro hlone
  have hmem : '.' ∈ (run.map Prod.fst).reverse := hlone ▸ List.mem_singleton_self '.'
  obtain ⟨x, hx, hdot⟩ := List.mem_map.1 (List.mem_reverse.1 hmem)
  have hfilter : x ∈ run.filter isDot := List.mem_filter.2 ⟨hx, decide_eq_true hdot⟩
  rw [hdots] at hfilter
  cases hfilter

/-- With one dot in it, a run of digits and dots has a digit unless it is the dot alone. -/
theorem any_isDigit_iff {run : Chars} {d : Char × Position} (hrun : ∀ x ∈ run, inNumber x)
    (hdots : run.filter isDot = [d]) :
    run.any (fun x => isDigit x.1) = true ↔ (run.map Prod.fst).reverse ≠ ['.'] := by
  constructor
  · intro hany hlone
    obtain ⟨x, hx, hdigit⟩ := List.any_eq_true.1 hany
    have hmem : x.1 ∈ (run.map Prod.fst).reverse := List.mem_reverse.2 (List.mem_map_of_mem hx)
    rw [hlone, List.mem_singleton] at hmem
    exact not_isDot_of_isDigit hdigit x.2 (decide_eq_true hmem)
  · intro hlone
    by_contra hany
    -- Without a digit all the characters are dots, and there is one of them.
    have hall : ∀ x ∈ run, isDot x := by
      intro x hx
      have hdigit : isDigit x.1 = false := by
        simpa using fun h => hany (List.any_eq_true.2 ⟨x, hx, h⟩)
      simpa [inNumber, hdigit] using hrun x hx
    rw [List.filter_eq_self.2 hall] at hdots
    subst hdots
    have hd : d.1 = '.' := of_decide_eq_true (hall d List.mem_cons_self)
    exact hlone (by simp [hd])

theorem matches_number_stop {run rest : Chars} {dot : Bool} (hrun : ∀ x ∈ run, inNumber x)
    (hdots : (run.filter isDot).length = dot.toNat) (hrest : ∀ x ∈ rest.head?, ¬ inNumber x)
    (first : Position) :
    Matches
      (resume (.inside (.number (run.map Prod.fst).reverse dot) first (lastOf first run)) rest)
      (number first (run ++ rest)) := by
  have hstep : ∀ x ∈ rest.head?, (Lexeme.number (run.map Prod.fst).reverse dot).step x.1 =
      .stop (Lexeme.number (run.map Prod.fst).reverse dot).finish := by
    intro x hx
    have hother := hrest x hx
    simp only [inNumber, isDot, Bool.or_eq_true, decide_eq_true_eq, not_or] at hother
    rw [Lexeme.step, if_neg hother.1, if_neg hother.2]
  have hstop := @matches_stop _ first (lastOf first run) _ hstep
  rw [number, takeWhile_run hrun hrest, dropWhile_run hrun hrest]
  cases dot with
  | false =>
    have hnil := List.length_eq_zero_iff.1 hdots
    simpa [hnil, Lexeme.finish, closed, ne_lone_dot hnil, text] using hstop
  | true =>
    obtain ⟨d, hd⟩ := List.length_eq_one_iff.1 hdots
    simp only [hd, any_isDigit_iff hrun hd]
    by_cases hlone : (run.map Prod.fst).reverse = ['.']
    · simpa [Lexeme.finish, closed, hlone] using hstop
    · simpa [Lexeme.finish, closed, hlone, text] using hstop

/-- A second dot is an error where it stands. -/
theorem matches_number_dot {run rest : Chars} (hrun : ∀ x ∈ run, inNumber x)
    (hdots : (run.filter isDot).length = 1) (first p : Position) :
    Matches (some (.error ⟨.malformedNumber, .point p⟩), afterLine (('.', p) :: rest))
      (number first (run ++ ('.', p) :: rest)) := by
  have hc : inNumber ('.', p) = true := rfl
  obtain ⟨d, hd⟩ := List.length_eq_one_iff.1 hdots
  rw [number, List.takeWhile_append_of_pos hrun, List.takeWhile_cons_of_pos hc,
    List.dropWhile_append_of_pos hrun, List.dropWhile_cons_of_pos hc, List.filter_append, hd,
    List.filter_cons_of_pos rfl]
  refine ⟨rfl, ?_⟩
  show _ = items (discardLine _)
  rw [discardLine_dropWhile ne_newline_of_inNumber, items_afterLine, discardLine_cons (by decide)]

theorem matches_number (first : Position) (cs : Chars) : ∀ {run : Chars} {dot : Bool},
    (∀ x ∈ run, inNumber x) → (run.filter isDot).length = dot.toNat →
    Matches (resume (.inside (.number (run.map Prod.fst).reverse dot) first (lastOf first run)) cs)
      (number first (run ++ cs)) := by
  induction cs with
  | nil => exact fun hrun hdots => matches_number_stop hrun hdots (by simp) first
  | cons x rest ih =>
    intro run dot hrun hdots
    obtain ⟨c, p⟩ := x
    by_cases hdigit : isDigit c
    · have hc : inNumber (c, p) := by simp [inNumber, hdigit]
      have hmore := @ih (run ++ [(c, p)]) dot (forall_mem_snoc hrun hc)
        (by simpa [not_isDot_of_isDigit hdigit p] using hdots)
      have hstep : (Lexeme.number (run.map Prod.fst).reverse dot).step c = .grow _ := if_pos hdigit
      rw [reverse_snoc, lastOf_snoc, List.append_assoc] at hmore
      rw [resume_grow hstep]
      exact hmore
    by_cases hdot : c = '.'
    · subst hdot
      cases dot with
      | false =>
        have hmore := @ih (run ++ [('.', p)]) true (forall_mem_snoc hrun rfl)
          (by simpa [isDot] using hdots)
        have hstep : (Lexeme.number (run.map Prod.fst).reverse false).step '.' = .grow _ := rfl
        rw [reverse_snoc, lastOf_snoc, List.append_assoc] at hmore
        rw [resume_grow hstep]
        exact hmore
      | true =>
        rw [resume_fail rfl]
        exact matches_number_dot hrun hdots first p
    · refine matches_number_stop hrun hdots ?_ first
      simp [inNumber, isDot, hdigit, hdot]

/-! ### Texts -/

theorem matches_quoted (first : Position) (cs : Chars) : ∀ {run : Chars}, (∀ x ∈ run, inText x) →
    Matches (resume (.inside (.text (run.map Prod.fst).reverse) first (lastOf first run)) cs)
      (quoted first (run ++ cs)) := by
  induction cs with
  | nil =>
    intro run hrun
    have hstop := @matches_stop (.text (run.map Prod.fst).reverse) first (lastOf first run) []
      (by simp)
    rw [quoted, takeWhile_run hrun (by simp), dropWhile_run hrun (by simp)]
    exact hstop
  | cons x rest ih =>
    intro run hrun
    obtain ⟨c, p⟩ := x
    by_cases hquote : c = '"'
    · subst hquote
      have hrest : ∀ x ∈ (('"', p) :: rest).head?, ¬ inText x := by simp [inText]
      rw [resume_complete rfl, quoted, takeWhile_run hrun hrest, dropWhile_run hrun hrest]
      simp [Matches, token, text]
    by_cases hline : c = '\n'
    · subst hline
      have hrest : ∀ x ∈ (('\n', p) :: rest).head?, ¬ inText x := by simp [inText]
      rw [resume_fail rfl, quoted, takeWhile_run hrun hrest, dropWhile_run hrun hrest]
      exact matches_failure _ _ _
    · have hc : inText (c, p) := by simp [inText, hquote, hline]
      have hmore := ih (forall_mem_snoc hrun hc)
      have hstep : (Lexeme.text (run.map Prod.fst).reverse).step c =
          .grow (.text (c :: (run.map Prod.fst).reverse)) := by
        rw [Lexeme.step, if_neg hquote, if_neg hline]
      rw [reverse_snoc, lastOf_snoc, List.append_assoc] at hmore
      rw [resume_grow hstep]
      exact hmore

/-! ### Operators -/

section

variable {c : Char} {p : Position} {rest : Chars}

theorem sign_some {o : Operator} (h : Operator.ofText? (String.ofList [c]) = some o) :
    sign c p rest = token (.operator o) p p rest := by
  rw [sign, h]

theorem operator_eq_sign (h : ∀ x ∈ rest.head?, Operator.ofText? (String.ofList [c, x.1]) = none) :
    operator c p rest = sign c p rest := by
  cases rest with
  | nil => rfl
  | cons x rest => rw [operator, h x rfl]

/-- A sign that becomes the operator `long` with an equals sign, and `short` without. -/
theorem matches_pair {long : Operator} {short : Option Operator}
    (hlong : Operator.withEqual? c = some long)
    (hshort : Operator.ofText? (String.ofList [c]) = short)
    (hc : short = none → c = ':' ∨ c = '!') :
    Matches (resume (.inside (.pair long short) p p) rest) (operator c p rest) := by
  by_cases heq : ∃ q after, rest = ('=', q) :: after
  · obtain ⟨q, after, rfl⟩ := heq
    rw [resume_complete rfl, operator, Operator.ofText?_pair, if_pos rfl, hlong]
    exact ⟨rfl, rfl⟩
  · have hne : ∀ x ∈ rest.head?, x.1 ≠ '=' := by
      rintro ⟨d, q⟩ hx rfl
      obtain ⟨after, rfl⟩ := List.head?_eq_some_iff.1 hx
      exact heq ⟨q, after, rfl⟩
    have hpair : ∀ x ∈ rest.head?, Operator.ofText? (String.ofList [c, x.1]) = none := by
      intro x hx
      rw [Operator.ofText?_pair, if_neg (hne x hx)]
    have hstop := @matches_stop (.pair long short) p p rest fun x hx => if_neg (hne x hx)
    rw [operator_eq_sign hpair, sign, hshort]
    cases short with
    | some o => exact hstop
    | none =>
      dsimp only
      rw [if_pos (hc rfl)]
      exact hstop

theorem operator_eq_sign_of_withEqual? (h : Operator.withEqual? c = none) :
    operator c p rest = sign c p rest :=
  operator_eq_sign fun x _ => by rw [Operator.ofText?_pair, h, ite_self]

/-- A dash that begins no comment. -/
theorem matches_dash (hcomment : rest.head?.map Prod.fst ≠ some '-') :
    Matches (resume (.inside .dash p p) rest) (operator '-' p rest) := by
  have hne : ∀ x ∈ rest.head?, x.1 ≠ '-' := by
    rintro ⟨d, q⟩ hx rfl
    exact hcomment (Option.map_eq_some_iff.2 ⟨_, hx, rfl⟩)
  have hstop := @matches_stop .dash p p rest fun x hx => if_neg (hne x hx)
  rw [operator_eq_sign_of_withEqual? rfl, sign_some rfl]
  exact hstop

end

/-- The first lexeme of a stream that starts with neither a blank nor a comment. -/
theorem matches_lexeme {c : Char} {p : Position} {rest : Chars} (hblank : ¬ Text.isBlank c)
    (hcomment : ¬ (c = '-' ∧ rest.head?.map Prod.fst = some '-')) :
    Matches (next ((c, p) :: rest)) (lexeme c p rest) := by
  by_cases hquote : c = '"'
  · subst hquote
    rw [next_enter rfl]
    exact @matches_quoted p rest [] (by simp)
  by_cases hdash : c = '-'
  · subst hdash
    rw [next_enter rfl]
    exact matches_dash fun h => hcomment ⟨rfl, h⟩
  by_cases hcolon : c = ':'
  · subst hcolon
    rw [next_enter rfl]
    exact matches_pair rfl rfl fun _ => .inl rfl
  by_cases hbang : c = '!'
  · subst hbang
    rw [next_enter rfl]
    exact matches_pair rfl rfl fun _ => .inr rfl
  by_cases hless : c = '<'
  · subst hless
    rw [next_enter rfl]
    exact matches_pair rfl rfl fun h => nomatch h
  by_cases hgreater : c = '>'
  · subst hgreater
    rw [next_enter rfl]
    exact matches_pair rfl rfl fun h => nomatch h
  by_cases hdot : c = '.'
  · subst hdot
    rw [next_enter rfl]
    exact @matches_number p rest [('.', p)] true (by simp [inNumber, isDot]) rfl
  -- What is left is told apart by the classes of characters, and by the table of operators.
  have hopening : opening c = if isLetter c then .enter (.word [c])
      else if isDigit c then .enter (.number [c] false)
      else (single? c).elim (.refuse (.badCharacter c)) fun o => .complete (.operator o) := by
    simp only [opening, if_neg hblank, if_neg hquote, if_neg hdash, if_neg hcolon, if_neg hbang,
      if_neg hless, if_neg hgreater, if_neg hdot]
    cases single? c <;> rfl
  by_cases hletter : isLetter c
  · have hrun : ∀ x ∈ [(c, p)], inWord x := by simp [inWord, hletter]
    rw [next_enter (hopening.trans (if_pos hletter)), lexeme, if_pos hletter]
    exact matches_word p rest hrun
  rw [if_neg hletter] at hopening
  by_cases hdigit : isDigit c
  · have hc : inNumber (c, p) := by simp [inNumber, hdigit]
    rw [next_enter (hopening.trans (if_pos hdigit)), lexeme, if_neg hletter, if_pos hc]
    refine @matches_number p rest [(c, p)] false (by simpa using hc) ?_
    simp [not_isDot_of_isDigit hdigit p]
  rw [if_neg hdigit] at hopening
  have hc : ¬ inNumber (c, p) := by simp [inNumber, isDot, hdigit, hdot]
  have hlong : Operator.withEqual? c = none := by
    unfold Operator.withEqual?
    split
    all_goals first | contradiction | rfl
  have hsign := Operator.ofText?_single hdash hless hgreater
  rw [lexeme, if_neg hletter, if_neg hc, if_neg hquote, operator_eq_sign_of_withEqual? hlong]
  cases hsingle : single? c with
  | some o =>
    rw [hsingle] at hopening hsign
    rw [next_complete hopening, sign_some hsign]
    exact ⟨rfl, rfl⟩
  | none =>
    have hline : c ≠ '\n' := by
      rintro rfl
      exact hblank rfl
    rw [hsingle] at hopening hsign
    rw [next_refuse hopening, afterLine, if_neg hline, sign, hsign]
    dsimp only
    rw [if_neg (by simp [hcolon, hbang])]
    exact matches_failure _ p rest

/-! ## Streams -/

theorem resume_comment (cs : Chars) : resume .comment cs = next (afterLine cs) := by
  induction cs with
  | nil => rfl
  | cons x rest ih =>
    obtain ⟨c, p⟩ := x
    rw [resume, State.move, afterLine]
    by_cases hc : c = '\n'
    · simp only [if_pos hc]
      rfl
    · simp only [if_neg hc]
      exact ih

/-- Two dashes, and what is left behind the line. -/
theorem next_comment {p : Position} {rest : Chars} (h : rest.head?.map Prod.fst = some '-') :
    next (('-', p) :: rest) = next (afterLine rest) := by
  obtain ⟨⟨d, q⟩, hd, rfl⟩ := Option.map_eq_some_iff.1 h
  obtain ⟨after, rfl⟩ := List.head?_eq_some_iff.1 hd
  exact resume_comment after

end Lexemes

namespace Scan

open Lexemes

variable {cs cs' : Chars}

theorem items_of_none (h : (next cs).1 = none) : items cs = [] := by
  unfold items
  split
  · rfl
  · next hnext =>
    rw [hnext] at h
    cases h

theorem items_of_some {item : Item} (h : (next cs).1 = some item) :
    items cs = item :: items (next cs).2 := by
  rw [items]
  split
  · next hnext =>
    rw [hnext] at h
    cases h
  · next item' rest hnext =>
    rw [hnext] at h
    cases h
    exact congrArg (fun r => item :: items r.2) hnext.symm

/-- What is left to come depends on the next item and on what stands behind it. -/
theorem items_congr (h : next cs = next cs') : items cs = items cs' := by
  cases hitem : (next cs').1 with
  | none => rw [items_of_none hitem, items_of_none (h ▸ hitem)]
  | some item => rw [items_of_some hitem, items_of_some (h ▸ hitem), h]

/-- The automaton yields the items that the lexical grammar gives, on every stream. -/
theorem items_eq_lexemes (cs : List (Char × Position)) : items cs = Lexemes.items cs := by
  induction hn : cs.length using Nat.strongRecOn generalizing cs with
  | ind n ih =>
    subst hn
    cases cs with
    | nil => rw [items_of_none rfl, Lexemes.items_nil]
    | cons x rest =>
      obtain ⟨c, p⟩ := x
      have hlength : ((c, p) :: rest).length = rest.length + 1 := List.length_cons
      rw [Lexemes.items_cons]
      split_ifs with hblank hcomment
      · have hnext : next ((c, p) :: rest) = next rest := next_blank hblank p rest
        rw [items_congr hnext]
        exact ih rest.length (by omega) rest rfl
      · obtain ⟨rfl, hhead⟩ := hcomment
        have hline := length_afterLine_le rest
        rw [items_congr (next_comment hhead), ← items_afterLine]
        exact ih (afterLine rest).length (by omega) _ rfl
      · have hlexeme := @matches_lexeme c p rest hblank hcomment
        have hlt : (next ((c, p) :: rest)).2.length < ((c, p) :: rest).length :=
          length_next_lt (Prod.ext hlexeme.1 rfl)
        rw [items_of_some hlexeme.1, ih _ hlt _ rfl, hlexeme.2]

end Scan

end LittleTiny
