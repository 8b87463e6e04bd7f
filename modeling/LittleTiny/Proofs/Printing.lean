import LittleTiny.Proofs.Lexemes.Automaton
import LittleTiny.Proofs.Lines
import LittleTiny.Proofs.Spelling

/-!
# Scanning what has been printed

`Spaced tokens text` says that a text consists of the given tokens, in order, with white space and
comments around them. White space stands behind every token, unless the text ends there: this is
what keeps a token from running into the next one, or into a comment. Scanning such a text gives the
tokens back (`scan_of_spaced`). A carriage return that is lost with the end of its line is never a
part of a token, since a text ends with its quote.
-/

namespace LittleTiny

open Scan Lexemes

/-- The text starts with white space, or is empty. -/
def StartsBlank (text : List Char) : Prop := ∀ c ∈ text.head?, Text.isBlank c

/-- The text has these tokens in it, and apart from them only white space and comments that a
newline closes. -/
inductive Spaced : List Token → List Char → Prop
  | nil : Spaced [] []
  | blank {ts : List Token} {rest : List Char} (c : Char) (hc : Text.isBlank c)
      (h : Spaced ts rest) : Spaced ts (c :: rest)
  | comment {ts : List Token} {rest : List Char} (content : List Char) (hc : '\n' ∉ content)
      (h : Spaced ts rest) : Spaced ts ('-' :: '-' :: (content ++ '\n' :: rest))
  | token {ts : List Token} {rest : List Char} (t : Token) (hrest : StartsBlank rest)
      (h : Spaced ts rest) : Spaced (t :: ts) (t.text.toList ++ rest)

/-! ## Classes of characters -/

section

variable {c : Char}

theorem isLetter_eq_false_of_isDigit (h : isDigit c) : isLetter c = false := by
  by_contra hletter
  rw [isDigit_eq_false_of_isLetter (Bool.not_eq_false _ ▸ hletter)] at h
  cases h

/-- No blank is a letter or a digit. -/
theorem isBlank_eq_false (h : isLetter c || isDigit c) : Text.isBlank c = false := by
  simp only [isLetter, isDigit, Bool.or_eq_true, Bool.and_eq_true, decide_eq_true_eq, Char.le_def,
    UInt32.le_iff_toNat_le] at h
  have hdigits : '0'.val.toNat = 48 ∧ '9'.val.toNat = 57 := ⟨rfl, rfl⟩
  have hupper : 'A'.val.toNat = 65 ∧ 'Z'.val.toNat = 90 := ⟨rfl, rfl⟩
  have hlower : 'a'.val.toNat = 97 ∧ 'z'.val.toNat = 122 := ⟨rfl, rfl⟩
  have hc : c.toNat = c.val.toNat := rfl
  simp only [Text.isBlank, hc, Bool.or_eq_false_iff, Bool.and_eq_false_iff, decide_eq_false_iff_not,
    beq_eq_false_iff_ne]
  omega

/-- A character of a class is another one than those outside the class. -/
theorem ne_of_class {q : Char → Bool} (h : q c) {d : Char} (hd : q d = false) : c ≠ d := by
  rintro rfl
  rw [hd] at h
  cases h

theorem opening_of_isLetter (h : isLetter c) : opening c = .enter (.word [c]) := by
  have hblank : ¬ Text.isBlank c := by simp [isBlank_eq_false, h]
  simp only [opening, if_neg hblank, if_neg (ne_of_class h (rfl : isLetter '"' = false)),
    if_neg (ne_of_class h (rfl : isLetter '-' = false)),
    if_neg (ne_of_class h (rfl : isLetter ':' = false)),
    if_neg (ne_of_class h (rfl : isLetter '!' = false)),
    if_neg (ne_of_class h (rfl : isLetter '<' = false)),
    if_neg (ne_of_class h (rfl : isLetter '>' = false)), if_pos h]

theorem opening_of_isDigit (h : isDigit c) : opening c = .enter (.number [c] false) := by
  have hblank : ¬ Text.isBlank c := by simp [isBlank_eq_false, h]
  have hletter : ¬ isLetter c := by simp [isLetter_eq_false_of_isDigit h]
  simp only [opening, if_neg hblank, if_neg (ne_of_class h (rfl : isDigit '"' = false)),
    if_neg (ne_of_class h (rfl : isDigit '-' = false)),
    if_neg (ne_of_class h (rfl : isDigit ':' = false)),
    if_neg (ne_of_class h (rfl : isDigit '!' = false)),
    if_neg (ne_of_class h (rfl : isDigit '<' = false)),
    if_neg (ne_of_class h (rfl : isDigit '>' = false)), if_neg hletter, if_pos h]

/-- White space belongs to no token but a text in quotes. -/
theorem step_of_isBlank {l : Lexeme} (hl : ∀ content, l ≠ .text content) (h : Text.isBlank c) :
    l.step c = .stop l.finish := by
  have hword : ¬ (isLetter c || isDigit c) := by
    intro hc
    rw [isBlank_eq_false hc] at h
    cases h
  have hdigit : ¬ isDigit c := fun hc => hword (by simp [hc])
  have hdash := ne_of_class h (rfl : Text.isBlank '-' = false)
  have hequal := ne_of_class h (rfl : Text.isBlank '=' = false)
  have hdot := ne_of_class h (rfl : Text.isBlank '.' = false)
  cases l with
  | dash => rw [Lexeme.step, if_neg hdash]
  | pair long short => rw [Lexeme.step, if_neg hequal]
  | number digits dot => rw [Lexeme.step, if_neg hdigit, if_neg hdot]
  | word letters => rw [Lexeme.step, if_neg hword]
  | text content => exact absurd rfl (hl content)

end

/-! ## One token -/

/-- The next item of the stream `run ++ rest` is the token `t`, and `rest` is left behind it. -/
def Printed (t : Token) (run rest : Chars) : Prop :=
  ∃ l, next (run ++ rest) = (some (.ok ⟨t, l⟩), rest)

section

variable {rest : Chars}

/-- The automaton goes along a run of characters that all belong to the lexeme. -/
theorem resume_run (grown : List Char → Lexeme) {q : Char → Bool}
    (hgrow : ∀ cs c, q c → (grown cs).step c = .grow (grown (c :: cs))) :
    ∀ (run : Chars) (cs : List Char) (first last : Position), (∀ c ∈ run.map Prod.fst, q c) →
      ∃ last', resume (.inside (grown cs) first last) (run ++ rest) =
        resume (.inside (grown ((run.map Prod.fst).reverse ++ cs)) first last') rest
  | [], cs, first, last, _ => ⟨last, rfl⟩
  | (c, p) :: run, cs, first, last, h => by
    obtain ⟨hc, hrun⟩ := List.forall_mem_cons.1 h
    obtain ⟨last', hlast⟩ := resume_run grown hgrow run (c :: cs) first p hrun
    refine ⟨last', ?_⟩
    rw [List.cons_append, resume_grow (hgrow cs c hc), hlast]
    simp

/-- A lexeme that ends before white space, or with the stream. -/
theorem resume_stop {l : Lexeme} {t : Token} (hl : ∀ content, l ≠ .text content)
    (hfinish : l.finish = .ok t) (hrest : StartsBlank (rest.map Prod.fst)) (first last : Position) :
    resume (.inside l first last) rest = (some (.ok ⟨t, ⟨first, last⟩⟩), rest) := by
  cases rest with
  | nil => rw [resume, State.close, hfinish]
  | cons x rest =>
    obtain ⟨c, p⟩ := x
    have hstep := step_of_isBlank hl (hrest c rfl)
    rw [resume, State.move, hstep, hfinish]
    rfl

theorem printed_word {t : Token} {run : Chars} (hword : IsWord (run.map Prod.fst))
    (ht : Lexeme.ofWord (String.ofList (run.map Prod.fst)) = t)
    (hrest : StartsBlank (rest.map Prod.fst)) : Printed t run rest := by
  obtain ⟨hfirst, hall⟩ := hword
  cases run with
  | nil => cases hfirst
  | cons x run =>
    obtain ⟨c, p⟩ := x
    have hletter : isLetter c := hfirst
    obtain ⟨last, hrun⟩ := @resume_run rest Lexeme.word _ (fun cs c hc => if_pos hc) run [c] p p
      (List.forall_mem_cons.1 hall).2
    refine ⟨⟨p, last⟩, ?_⟩
    rw [List.cons_append, next_enter (opening_of_isLetter hletter), hrun]
    apply resume_stop (by simp) _ hrest
    simpa [Lexeme.finish] using ht

theorem grow_digit (dot : Bool) (cs : List Char) (c : Char) (hc : isDigit c) :
    (Lexeme.number cs dot).step c = .grow (.number (c :: cs) dot) :=
  if_pos hc

theorem finish_number {digits : List Char} {dot : Bool} (h : digits ≠ ['.']) :
    (Lexeme.number digits dot).finish =
      .ok (if dot then .floatLiteral (String.ofList digits.reverse)
        else .intLiteral (String.ofList digits.reverse)) := by
  cases dot <;> simp [Lexeme.finish, h]

theorem printed_whole {run : Chars} (h : IsWhole (run.map Prod.fst))
    (hrest : StartsBlank (rest.map Prod.fst)) :
    Printed (.intLiteral (String.ofList (run.map Prod.fst))) run rest := by
  obtain ⟨hne, hall⟩ := h
  cases run with
  | nil => exact absurd rfl hne
  | cons x run =>
    obtain ⟨c, p⟩ := x
    obtain ⟨hc, hdigits⟩ := List.forall_mem_cons.1 hall
    obtain ⟨last, hrun⟩ :=
      @resume_run rest (.number · false) _ (grow_digit false) run [c] p p hdigits
    have hlone : (run.map Prod.fst).reverse ++ [c] ≠ ['.'] := by
      intro hdot
      have hmem : c ∈ ['.'] := hdot ▸ List.mem_append_right _ List.mem_cons_self
      exact ne_dot_of_isDigit hc (List.mem_singleton.1 hmem)
    refine ⟨⟨p, last⟩, ?_⟩
    rw [List.cons_append, next_enter (opening_of_isDigit hc), hrun]
    apply resume_stop (by simp) _ hrest
    simp [finish_number hlone]

/-- A numeral with one dot is digits, the dot, and digits again. -/
theorem IsDecimal.exists_parts {cs : List Char} (h : IsDecimal cs) :
    ∃ before after, cs = before ++ '.' :: after ∧ (∀ c ∈ before, isDigit c) ∧
      ∀ c ∈ after, isDigit c := by
  obtain ⟨hcount, -, hall⟩ := h
  have hdot : '.' ∈ cs := List.count_pos_iff.1 (by omega)
  obtain ⟨before, after, rfl⟩ := List.append_of_mem hdot
  rw [List.count_append, List.count_cons_self] at hcount
  refine ⟨before, after, rfl, fun c hc => ?_, fun c hc => ?_⟩
  · refine (hall c (List.mem_append_left _ hc)).resolve_right ?_
    rintro rfl
    have := List.count_pos_iff.2 hc
    omega
  · refine (hall c (List.mem_append_right _ (List.mem_cons_of_mem _ hc))).resolve_right ?_
    rintro rfl
    have := List.count_pos_iff.2 hc
    omega

/-- The automaton goes over the dot and the digits behind it. -/
theorem resume_fraction {read : List Char} {dot : Char × Position} {after : Chars}
    (hdot : dot.1 = '.') (hafter : ∀ c ∈ after.map Prod.fst, isDigit c) (first last : Position) :
    ∃ last', resume (.inside (.number read false) first last) (dot :: (after ++ rest)) =
      resume (.inside (.number ((after.map Prod.fst).reverse ++ '.' :: read) true) first last')
        rest := by
  obtain ⟨c, p⟩ := dot
  obtain rfl : c = '.' := hdot
  have hgrow : (Lexeme.number read false).step '.' = .grow (.number ('.' :: read) true) := rfl
  rw [resume_grow hgrow]
  exact resume_run (.number · true) (grow_digit true) after ('.' :: read) first p hafter

theorem printed_decimal {run : Chars} (h : IsDecimal (run.map Prod.fst))
    (hrest : StartsBlank (rest.map Prod.fst)) :
    Printed (.floatLiteral (String.ofList (run.map Prod.fst))) run rest := by
  obtain ⟨before, after, hrun, hbefore, hafter⟩ := h.exists_parts
  obtain ⟨-, ⟨d, hd, hdigit⟩, -⟩ := h
  have hlone : (run.map Prod.fst).reverse ≠ ['.'] := by
    intro hdot
    have hmem : d ∈ ['.'] := hdot ▸ List.mem_reverse.2 hd
    exact ne_dot_of_isDigit hdigit (List.mem_singleton.1 hmem)
  obtain ⟨run₁, run₂, rfl, rfl, hrun₂⟩ := List.map_eq_append_iff.1 hrun
  obtain ⟨dot, run₃, rfl, hdot, rfl⟩ := List.map_eq_cons_iff.1 hrun₂
  -- Whether the numeral begins with the dot or with a digit, all of it is read in the end.
  have hread : ∃ first last, next (run₁ ++ dot :: run₃ ++ rest) =
      resume (.inside (.number ((run₁ ++ dot :: run₃).map Prod.fst).reverse true) first last)
        rest := by
    obtain ⟨c, p⟩ := dot
    obtain rfl : c = '.' := hdot
    cases run₁ with
    | nil =>
      obtain ⟨last, hlast⟩ := @resume_run rest (.number · true) _ (grow_digit true) run₃ ['.'] p p
        hafter
      refine ⟨p, last, ?_⟩
      rw [List.nil_append, List.cons_append, next_enter rfl, hlast]
      simp
    | cons x run₁ =>
      obtain ⟨c, q⟩ := x
      obtain ⟨hc, hmore⟩ := List.forall_mem_cons.1 hbefore
      obtain ⟨last₁, hlast₁⟩ := @resume_run (('.', p) :: (run₃ ++ rest)) (.number · false) _
        (grow_digit false) run₁ [c] q q hmore
      obtain ⟨last, hlast⟩ :=
        @resume_fraction rest ((run₁.map Prod.fst).reverse ++ [c]) ('.', p) run₃ rfl hafter q last₁
      refine ⟨q, last, ?_⟩
      rw [List.append_assoc, List.cons_append, List.cons_append, next_enter (opening_of_isDigit hc),
        hlast₁, hlast]
      simp
  obtain ⟨first, last, hnext⟩ := hread
  refine ⟨⟨first, last⟩, ?_⟩
  rw [hnext]
  apply resume_stop (by simp) _ hrest
  rw [finish_number hlone, if_pos rfl, List.reverse_reverse]

/-- A text in quotes ends with its quote, whatever stands behind it. -/
theorem printed_text {content : String} {run : Chars}
    (hcontent : ∀ c ∈ content.toList, c ≠ '"' ∧ c ≠ '\n')
    (hrun : run.map Prod.fst = '"' :: (content.toList ++ ['"'])) :
    Printed (.stringLiteral content) run rest := by
  obtain ⟨⟨c, p⟩, more, rfl, rfl, hmore⟩ := List.map_eq_cons_iff.1 hrun
  obtain ⟨inner, quote, rfl, hinner, hquote⟩ := List.map_eq_append_iff.1 hmore
  obtain ⟨⟨d, q⟩, rfl, rfl⟩ := List.map_eq_singleton_iff.1 hquote
  have hgrow : ∀ cs c, (c ≠ '"' && c ≠ '\n') →
      (Lexeme.text cs).step c = .grow (.text (c :: cs)) := by
    intro cs c hc
    simp only [ne_eq, decide_not, Bool.and_eq_true, Bool.not_eq_eq_eq_not, Bool.not_true,
      decide_eq_false_iff_not] at hc
    rw [Lexeme.step, if_neg hc.1, if_neg hc.2]
  obtain ⟨last, hlast⟩ := @resume_run (('"', q) :: rest) Lexeme.text _ hgrow inner [] p p
    (by simpa [hinner] using hcontent)
  refine ⟨⟨p, q⟩, ?_⟩
  rw [List.cons_append, List.append_assoc, List.singleton_append, next_enter rfl, hlast,
    resume_complete rfl, hinner]
  simp

/-- An operator of one character that begins no longer one. -/
theorem printed_single {o : Operator} {c : Char} {run : Chars}
    (hc : opening c = .complete (.operator o)) (hrun : run.map Prod.fst = [c]) :
    Printed (.operator o) run rest := by
  obtain ⟨⟨d, p⟩, rfl, rfl⟩ := List.map_eq_singleton_iff.1 hrun
  exact ⟨.point p, next_complete hc⟩

/-- An operator of one character that could have become a longer one. -/
theorem printed_short {o : Operator} {l : Lexeme} {c : Char} {run : Chars}
    (hc : opening c = .enter l) (hl : ∀ content, l ≠ .text content)
    (hfinish : l.finish = .ok (.operator o)) (hrun : run.map Prod.fst = [c])
    (hrest : StartsBlank (rest.map Prod.fst)) : Printed (.operator o) run rest := by
  obtain ⟨⟨d, p⟩, rfl, rfl⟩ := List.map_eq_singleton_iff.1 hrun
  exact ⟨⟨p, p⟩, (next_enter hc).trans (resume_stop hl hfinish hrest p p)⟩

theorem printed_long {o : Operator} {short : Option Operator} {c : Char} {run : Chars}
    (hc : opening c = .enter (.pair o short)) (hrun : run.map Prod.fst = [c, '=']) :
    Printed (.operator o) run rest := by
  obtain ⟨⟨d, p⟩, more, rfl, rfl, hmore⟩ := List.map_eq_cons_iff.1 hrun
  obtain ⟨⟨e, q⟩, rfl, rfl⟩ := List.map_eq_singleton_iff.1 hmore
  exact ⟨⟨p, q⟩, (next_enter hc).trans (resume_complete rfl q rest)⟩

theorem printed_operator {o : Operator} {run : Chars} (hrun : run.map Prod.fst = o.text.toList)
    (hrest : StartsBlank (rest.map Prod.fst)) : Printed (.operator o) run rest := by
  cases o with
  | assign => exact printed_long rfl hrun
  | notEqual => exact printed_long rfl hrun
  | lessEqual => exact printed_long rfl hrun
  | greaterEqual => exact printed_long rfl hrun
  | minus => exact printed_short rfl (by simp) rfl hrun hrest
  | less => exact printed_short rfl (by simp) rfl hrun hrest
  | greater => exact printed_short rfl (by simp) rfl hrun hrest
  | plus => exact printed_single rfl hrun
  | times => exact printed_single rfl hrun
  | divide => exact printed_single rfl hrun
  | equal => exact printed_single rfl hrun
  | openParen => exact printed_single rfl hrun
  | closeParen => exact printed_single rfl hrun
  | semicolon => exact printed_single rfl hrun
  | comma => exact printed_single rfl hrun

theorem isWord_keyword (k : Keyword) : IsWord k.text.toList := by
  cases k <;> decide

theorem ofWord_keyword (k : Keyword) : Lexeme.ofWord k.text = .keyword k := by
  cases k <;> decide

/-- A token with white space behind it is the next item of a stream that starts with its text. -/
theorem printed_of_spelled {t : Token} (ht : t.Spelled) {run : Chars}
    (hrun : run.map Prod.fst = t.text.toList) (hrest : StartsBlank (rest.map Prod.fst)) :
    Printed t run rest := by
  have htext : String.ofList (run.map Prod.fst) = t.text := by rw [hrun, String.ofList_toList]
  cases t with
  | identifier name =>
    obtain ⟨hword, hname⟩ := ht
    refine printed_word (hrun ▸ hword) ?_ hrest
    rw [htext, ofWord_eq]
    show (Keyword.ofText? name).elim (Token.identifier name) Token.keyword = _
    rw [hname]
    rfl
  | keyword k =>
    refine printed_word (hrun ▸ isWord_keyword k) ?_ hrest
    rw [htext]
    exact ofWord_keyword k
  | intLiteral digits =>
    have hdigits : String.ofList (run.map Prod.fst) = digits := htext
    rw [← hdigits]
    exact printed_whole (hrun ▸ ht) hrest
  | floatLiteral digits =>
    have hdigits : String.ofList (run.map Prod.fst) = digits := htext
    rw [← hdigits]
    exact printed_decimal (hrun ▸ ht) hrest
  | stringLiteral content =>
    refine printed_text ht ?_
    rw [hrun]
    simp [Token.text]
  | operator o => exact printed_operator hrun hrest

end

/-! ## Whole texts -/

theorem startsBlank_cons {c : Char} {rest : List Char} (h : Text.isBlank c) :
    StartsBlank (c :: rest) := by
  rintro d hd
  cases hd
  exact h

/-- Only a text in quotes has white space in it. -/
theorem isBlank_eq_false_of_mem_text {t : Token} (ht : t.Spelled)
    (htext : ∀ content, t ≠ .stringLiteral content) :
    ∀ c ∈ t.text.toList, Text.isBlank c = false := by
  intro c hc
  cases t with
  | identifier name => exact isBlank_eq_false (ht.1.2 c hc)
  | keyword k => exact isBlank_eq_false ((isWord_keyword k).2 c hc)
  | intLiteral digits =>
    have hdigit : isDigit c := ht.2 c hc
    exact isBlank_eq_false (by simp [hdigit])
  | floatLiteral digits =>
    have hdigit : isDigit c ∨ c = '.' := ht.2.2 c hc
    rcases hdigit with hdigit | rfl
    · exact isBlank_eq_false (by simp [hdigit])
    · rfl
  | stringLiteral content => exact absurd rfl (htext content)
  | operator o =>
    have hall : o.text.toList.all fun c => !Text.isBlank c := by cases o <;> decide
    simpa using List.all_eq_true.1 hall c hc

/-- No token loses a carriage return, whatever stands behind it. -/
theorem stripReturns_text {t : Token} (ht : t.Spelled) (rest : List Char) :
    Source.stripReturns (t.text.toList ++ rest) = t.text.toList ++ Source.stripReturns rest := by
  by_cases htext : ∃ content, t = .stringLiteral content
  · obtain ⟨content, rfl⟩ := htext
    have hlast : (Token.stringLiteral content).text.toList.getLast? = some '"' := by
      rw [Token.text, String.toList_append, List.getLast?_append]
      rfl
    apply Source.stripReturns_append
    · intro hmem
      simp only [Token.text, String.toList_append, List.mem_append] at hmem
      rcases hmem with (hmem | hmem) | hmem
      · exact absurd hmem (by decide)
      · exact (ht _ hmem).2 rfl
      · exact absurd hmem (by decide)
    · rw [hlast]
      simp
  · have hblank := isBlank_eq_false_of_mem_text ht fun content h => htext ⟨content, h⟩
    apply Source.stripReturns_append
    · exact fun hmem => absurd (hblank _ hmem) (by decide)
    · exact fun hlast => absurd (hblank _ (List.mem_of_getLast? hlast)) (by decide)

theorem afterLine_append {line : Chars} (hline : '\n' ∉ line.map Prod.fst) (p : Position)
    (rest : Chars) : afterLine (line ++ ('\n', p) :: rest) = rest := by
  induction line with
  | nil => rfl
  | cons x line ih =>
    rw [List.map_cons, List.mem_cons, not_or] at hline
    rw [List.cons_append, afterLine, if_neg (Ne.symm hline.1), ih hline.2]

namespace Spaced

open Source

variable {ts : List Token} {text : List Char}

/-- A newline at the end is one more blank. -/
theorem snoc_newline (h : Spaced ts text) : Spaced ts (text ++ ['\n']) := by
  induction h with
  | nil => exact .blank '\n' rfl .nil
  | blank c hc _ ih => exact .blank c hc ih
  | comment content hc _ ih =>
    simp only [List.cons_append, List.append_assoc]
    exact .comment content hc ih
  | @token ts rest t hrest _ ih =>
    rw [List.append_assoc]
    refine .token t ?_ ih
    cases rest with
    | nil => exact startsBlank_cons rfl
    | cons c rest => exact hrest

theorem closeLast (h : Spaced ts text) : Spaced ts (closeLast text) := by
  unfold Source.closeLast
  split
  · exact h
  · exact h.snoc_newline

theorem startsBlank_stripReturns {rest : List Char} (h : StartsBlank rest) :
    StartsBlank (Source.stripReturns rest) := by
  cases rest with
  | nil => exact h
  | cons c rest =>
    rw [Source.stripReturns]
    split
    · next hc =>
      obtain ⟨more, rfl⟩ := List.head?_eq_some_iff.1 hc.2
      rw [Source.stripReturns, if_neg (by simp)]
      exact startsBlank_cons rfl
    · exact startsBlank_cons (h c rfl)

/-- A comment may lose a carriage return at its end. -/
theorem exists_stripReturns_comment {content : List Char} (hc : '\n' ∉ content) (rest : List Char) :
    ∃ content', '\n' ∉ content' ∧ Source.stripReturns ('-' :: '-' :: (content ++ '\n' :: rest)) =
      '-' :: '-' :: (content' ++ '\n' :: Source.stripReturns rest) := by
  refine ⟨Source.closeLine content.reverse, ?_, ?_⟩
  · exact fun h => hc (List.mem_reverse.1 (Source.mem_of_mem_closeLine h))
  · have hline := @Source.stripReturns_line content.reverse rest (by simpa using hc)
    have hdashes := @Source.stripReturns_append ['-', '-'] (content ++ '\n' :: rest) (by decide)
      (by simp)
    rw [List.reverse_reverse] at hline
    rw [hline] at hdashes
    exact hdashes

protected theorem stripReturns (ht : ∀ t ∈ ts, t.Spelled) (h : Spaced ts text) :
    Spaced ts (Source.stripReturns text) := by
  induction h with
  | nil => exact .nil
  | blank c hc _ ih =>
    rw [Source.stripReturns]
    split
    · exact ih ht
    · exact .blank c hc (ih ht)
  | @comment ts rest content hc _ ih =>
    obtain ⟨content', hc', heq⟩ := exists_stripReturns_comment hc rest
    rw [heq]
    exact .comment content' hc' (ih ht)
  | token t hrest _ ih =>
    obtain ⟨hfirst, hmore⟩ := List.forall_mem_cons.1 ht
    rw [stripReturns_text hfirst]
    exact .token t (startsBlank_stripReturns hrest) (ih hmore)

/-- The items of a stream that has the tokens in it are these tokens. -/
theorem exists_items_eq (ht : ∀ t ∈ ts, t.Spelled) (h : Spaced ts text) :
    ∀ cs : Chars, cs.map Prod.fst = text →
      ∃ located : List (Located Token), Scan.items cs = located.map .ok ∧
        located.map Located.value = ts := by
  induction h with
  | nil =>
    intro cs hcs
    obtain rfl := List.map_eq_nil_iff.1 hcs
    exact ⟨[], items_of_none rfl, rfl⟩
  | blank c hc _ ih =>
    intro cs hcs
    obtain ⟨⟨d, p⟩, rest, rfl, rfl, hrest⟩ := List.map_eq_cons_iff.1 hcs
    rw [items_congr (next_blank hc p rest)]
    exact ih ht rest hrest
  | comment content hc _ ih =>
    intro cs hcs
    obtain ⟨⟨d, p⟩, cs₁, rfl, rfl, hcs₁⟩ := List.map_eq_cons_iff.1 hcs
    obtain ⟨⟨d, q⟩, cs₂, rfl, rfl, hcs₂⟩ := List.map_eq_cons_iff.1 hcs₁
    obtain ⟨line, cs₃, rfl, rfl, hcs₃⟩ := List.map_eq_append_iff.1 hcs₂
    obtain ⟨⟨d, r⟩, rest, rfl, rfl, hrest⟩ := List.map_eq_cons_iff.1 hcs₃
    have hline : '\n' ∉ (('-', q) :: line).map Prod.fst := by simpa using hc
    rw [items_congr (next_comment rfl), ← List.cons_append, afterLine_append hline]
    exact ih ht rest hrest
  | token t hrest _ ih =>
    intro cs hcs
    obtain ⟨hfirst, hmore⟩ := List.forall_mem_cons.1 ht
    obtain ⟨run, rest, rfl, hrun, rfl⟩ := List.map_eq_append_iff.1 hcs
    obtain ⟨l, hnext⟩ := printed_of_spelled hfirst hrun hrest
    obtain ⟨located, hitems, hvalues⟩ := ih hmore rest rfl
    refine ⟨⟨t, l⟩ :: located, ?_, by rw [List.map_cons, hvalues]⟩
    rw [items_of_some (congrArg Prod.fst hnext), hnext, hitems]
    rfl

end Spaced

namespace Scan

theorem scan_of_items {cs : Chars} {located : List (Located Token)}
    (h : items cs = located.map .ok) : scan cs = .ok located := by
  have herrors : (located.map (.ok : Located Token → Item)).filterMap Item.error? = [] := by
    simp [List.filterMap_map, Item.error?, Function.comp_def]
  have htokens : (located.map (.ok : Located Token → Item)).filterMap Item.token? = located := by
    simp [List.filterMap_map, Item.token?, Function.comp_def]
  rw [scan, collect, h, herrors, htokens]

/-- Scanning a text gives the tokens back that are printed in it. -/
theorem scan_of_spaced {tokens : List Token} {text : String} (name : String)
    (ht : ∀ t ∈ tokens, t.Spelled) (h : Spaced tokens text.toList) :
    ∃ located, scan (Source.ofText name text).chars = .ok located ∧
      located.map Located.value = tokens := by
  have hchars := Source.map_fst_chars_ofText name text
  obtain ⟨located, hitems, hvalues⟩ := (h.stripReturns ht).closeLast.exists_items_eq ht _ hchars
  exact ⟨located, scan_of_items hitems, hvalues⟩

/-- Scanning undoes printing, and yields only tokens that can be printed. -/
theorem scan_undoes_printing :
    (∀ (name text : String) (tokens : List Token), (∀ t ∈ tokens, t.Spelled) →
      Spaced tokens text.toList → ∃ located, scan (Source.ofText name text).chars = .ok located ∧
        located.map Located.value = tokens) ∧
    ∀ (source : Source) (located : List (Located Token)), scan source.chars = .ok located →
      ∀ t ∈ located, t.value.Spelled :=
  ⟨fun name _ _ ht h => scan_of_spaced name ht h, fun _ _ => spelled_of_scan⟩

/-- Signs that must not be joined, a comment behind a dash, and carriage returns in a text and
before a newline. -/
theorem scan_undoes_printing_signs :
    ∃ located, scan (Source.ofText "signs" "x < =\x0d\n- --\"\x0d\n7. .5 \"--\x0d\"").chars =
        .ok located ∧
      located.map Located.value = [.identifier "x", .operator .less, .operator .equal,
        .operator .minus, .floatLiteral "7.", .floatLiteral ".5", .stringLiteral "--\x0d"] ∧
      ∀ t ∈ located, t.value.Spelled := by
  have hspaced : Spaced [.identifier "x", .operator .less, .operator .equal, .operator .minus,
      .floatLiteral "7.", .floatLiteral ".5", .stringLiteral "--\x0d"]
      "x < =\x0d\n- --\"\x0d\n7. .5 \"--\x0d\"".toList := by
    have hblank : ∀ c rest, Text.isBlank c → StartsBlank (c :: rest) :=
      fun c rest => startsBlank_cons
    refine .token (.identifier "x") (hblank ' ' _ rfl) (.blank ' ' rfl ?_)
    refine .token (.operator .less) (hblank ' ' _ rfl) (.blank ' ' rfl ?_)
    refine .token (.operator .equal) (hblank '\x0d' _ rfl) (.blank '\x0d' rfl (.blank '\n' rfl ?_))
    refine .token (.operator .minus) (hblank ' ' _ rfl) (.blank ' ' rfl ?_)
    refine .comment ['"', '\x0d'] (by decide) ?_
    refine .token (.floatLiteral "7.") (hblank ' ' _ rfl) (.blank ' ' rfl ?_)
    refine .token (.floatLiteral ".5") (hblank ' ' _ rfl) (.blank ' ' rfl ?_)
    exact .token (.stringLiteral "--\x0d") (by simp [StartsBlank]) .nil
  obtain ⟨located, hscan, hvalues⟩ := scan_undoes_printing.1 "signs" _ _ (by decide) hspaced
  exact ⟨located, hscan, hvalues, scan_undoes_printing.2 _ _ hscan⟩

end Scan

end LittleTiny
