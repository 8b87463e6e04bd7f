import LittleTiny.Proofs.Printing

/-!
# Where the items of a stream stand

The automaton comes to its next item in one of three ways (`Outcome`). It finds nothing but white
space and comments; or it skips some of these and takes a run of characters that is the text of a
token, which goes from the first of them to the last; or it takes a run that becomes no token and
fails at the character behind. The invariant is that the state holds the characters taken since the
last gap ended (`State.Holds`); each move keeps it or brings one of the outcomes about.
-/

namespace LittleTiny

open Scan Lexemes

/-- Only white space and comments, each with the newline that closes it. -/
abbrev Gap (text : List Char) : Prop := Spaced [] text

theorem Gap.append {a b : List Char} (ha : Gap a) (hb : Gap b) : Gap (a ++ b) := by
  have hspaced : ∀ {ts}, Spaced ts a → ts = [] → Gap (a ++ b) := by
    clear ha
    intro ts h hts
    induction h with
    | nil => exact hb
    | blank c hc _ ih => exact .blank c hc (ih hts)
    | comment content hc _ ih =>
      rw [List.cons_append, List.cons_append, List.append_assoc]
      exact .comment content hc (ih hts)
    | token => cases hts
  exact hspaced ha rfl

namespace Scan

/-! ## Tokens in the making -/

/-- The characters `cs` have been read of the lexeme. -/
def Lexeme.Holds (cs : List Char) : Lexeme → Prop
  | dash => cs = ['-']
  | pair long short => long.text.toList = cs ++ ['='] ∧ ∀ o ∈ short, o.text.toList = cs
  | number digits _ => digits.reverse = cs
  | word letters => letters.reverse = cs
  | text content => '"' :: content.reverse = cs

theorem text_ofWord (word : String) : (Lexeme.ofWord word).text = word := by
  unfold Lexeme.ofWord
  cases h : Keyword.ofText? word with
  | none => rfl
  | some k =>
    have hk := List.find?_some h
    exact beq_iff_eq.1 hk

theorem Lexeme.text_of_finish {l : Lexeme} {cs : List Char} {t : Token} (h : l.Holds cs)
    (ht : l.finish = .ok t) : t.text.toList = cs := by
  cases l with
  | dash =>
    cases ht
    exact h.symm
  | pair long short =>
    cases short with
    | none => cases ht
    | some o =>
      cases ht
      exact h.2 o rfl
  | number digits dot =>
    rw [finish] at ht
    split_ifs at ht <;> cases ht <;> exact String.toList_ofList.trans h
  | word letters =>
    cases ht
    rw [text_ofWord, String.toList_ofList]
    exact h
  | text content => cases ht

/-! ## Moves -/

/-- There is a first character, and it is not blank. -/
def StartsInk (cs : Chars) : Prop := ∃ x ∈ cs.head?, Text.isBlank x.1 = false

/-- The token stands on these characters of a line: they are its text, and it goes from the first of
them to the last. -/
structure StandsOn (t : Located Token) (run : Chars) : Prop where
  text : run.map Prod.fst = t.value.text.toList
  first : run.head?.map Prod.snd = some t.location.first
  last : run.getLast?.map Prod.snd = some t.location.last
  startsInk : StartsInk run
  inLine : '\n' ∉ run.map Prod.fst

/-- A run of characters of a token, from `first` to `last`. -/
structure Run (run : Chars) (first last : Position) : Prop where
  first : run.head?.map Prod.snd = some first
  last : run.getLast?.map Prod.snd = some last
  startsInk : StartsInk run
  inLine : '\n' ∉ run.map Prod.fst

/-- The state holds the characters that have been taken since the last gap ended. -/
def State.Holds (run : Chars) : State → Prop
  | between => run = []
  | comment => ∃ content, run.map Prod.fst = '-' :: '-' :: content ∧ '\n' ∉ content
  | inside lexeme first last => lexeme.Holds (run.map Prod.fst) ∧ Run run first last

/-- What a move at the character `x` does with the characters that the state holds: it keeps them
together with `x`, or they end a gap, or they are a token, with `x` or without, or none. -/
def Move.Keeps (run : Chars) (x : Char × Position) : Move → Prop
  | goOn next => next.Holds (run ++ [x]) ∨ next = .between ∧ Gap ((run ++ [x]).map Prod.fst)
  | take token => StandsOn token (run ++ [x])
  | leave token => StandsOn token run
  | fail _ => StartsInk (run ++ [x]) ∧ '\n' ∉ run.map Prod.fst

theorem run_singleton {c : Char} {p : Position} (hc : Text.isBlank c = false) :
    Run [(c, p)] p p where
  first := rfl
  last := rfl
  startsInk := ⟨(c, p), rfl, hc⟩
  inLine := by
    rintro h
    obtain rfl := List.mem_singleton.1 h
    exact absurd hc (by decide)

theorem StartsInk.append {run : Chars} (h : StartsInk run) (more : Chars) :
    StartsInk (run ++ more) := by
  obtain ⟨x, hx, hink⟩ := h
  obtain ⟨rest, rfl⟩ := List.head?_eq_some_iff.1 hx
  exact ⟨x, rfl, hink⟩

theorem Run.snoc {run : Chars} {first last : Position} (h : Run run first last) {c : Char}
    (hc : c ≠ '\n') (p : Position) : Run (run ++ [(c, p)]) first p where
  first := by
    obtain ⟨x, hx, -⟩ := h.startsInk
    obtain ⟨rest, rfl⟩ := List.head?_eq_some_iff.1 hx
    exact h.first
  last := by simp
  startsInk := h.startsInk.append _
  inLine := by
    rw [List.map_append, List.mem_append, not_or]
    exact ⟨h.inLine, by simpa using hc.symm⟩

theorem Run.standsOn {run : Chars} {first last : Position} (h : Run run first last) {t : Token}
    (ht : t.text.toList = run.map Prod.fst) : StandsOn ⟨t, ⟨first, last⟩⟩ run :=
  ⟨ht.symm, h.first, h.last, h.startsInk, h.inLine⟩

theorem text_of_single? {c : Char} {o : Operator} (h : single? c = some o) :
    o.text.toList = [c] := by
  unfold single? at h
  split at h <;> cases h <;> rfl

theorem keeps_opening (c : Char) (p : Position) :
    ((opening c).move p).Keeps [] (c, p) := by
  by_cases hblank : Text.isBlank c
  · rw [opening, if_pos hblank]
    exact .inr ⟨rfl, .blank c hblank .nil⟩
  · have hink : Text.isBlank c = false := by simpa using hblank
    have hrun := @run_singleton c p hink
    have henter : ∀ l : Lexeme, l.Holds [c] → ((Opening.enter l).move p).Keeps [] (c, p) :=
      fun l hl => .inl ⟨hl, hrun⟩
    unfold opening
    rw [if_neg hblank]
    split_ifs with hquote hdash hcolon hbang hless hgreater hletter hdigit hdot
    · exact henter _ (by simp [Lexeme.Holds, hquote])
    · exact henter _ (by simp [Lexeme.Holds, hdash])
    · exact henter _ (by simp [Lexeme.Holds, hcolon, Operator.text])
    · exact henter _ (by simp [Lexeme.Holds, hbang, Operator.text])
    · exact henter _ (by simp [Lexeme.Holds, hless, Operator.text])
    · exact henter _ (by simp [Lexeme.Holds, hgreater, Operator.text])
    · exact henter _ rfl
    · exact henter _ rfl
    · exact henter _ rfl
    · cases hsingle : single? c with
      | none => exact ⟨⟨(c, p), rfl, hink⟩, by simp⟩
      | some o => exact hrun.standsOn (text_of_single? hsingle)

section

variable {run : Chars} {first last : Position}

/-- Nothing more belongs to the lexeme. -/
theorem keeps_stop {l : Lexeme} (hl : l.Holds (run.map Prod.fst)) (h : Run run first last)
    (x : Char × Position) {result : Except ScanError Token}
    (hresult : ∀ t, result = .ok t → l.finish = .ok t) :
    ((Lexeme.Step.stop result).move first last x.2).Keeps run x := by
  cases result with
  | error e => exact ⟨h.startsInk.append _, h.inLine⟩
  | ok t => exact h.standsOn (l.text_of_finish hl (hresult t rfl))

theorem keeps_grow {l : Lexeme} {c : Char} {p : Position}
    (hl : l.Holds ((run ++ [(c, p)]).map Prod.fst)) (h : Run run first last) (hc : c ≠ '\n') :
    ((Lexeme.Step.grow l).move first last p).Keeps run (c, p) :=
  .inl ⟨hl, h.snoc hc p⟩

theorem keeps_complete {t : Token} {c : Char} {p : Position}
    (ht : t.text.toList = (run ++ [(c, p)]).map Prod.fst) (h : Run run first last)
    (hc : c ≠ '\n') : ((Lexeme.Step.complete t).move first last p).Keeps run (c, p) :=
  (h.snoc hc p).standsOn ht

theorem map_fst_snoc (run : Chars) (c : Char) (p : Position) :
    (run ++ [(c, p)]).map Prod.fst = run.map Prod.fst ++ [c] := by
  simp

theorem Lexeme.keeps_step {l : Lexeme} (hl : l.Holds (run.map Prod.fst)) (h : Run run first last)
    (c : Char) (p : Position) : ((l.step c).move first last p).Keeps run (c, p) := by
  have hnewline : ∀ {q : Char → Bool}, q '\n' = false → q c → c ≠ '\n' :=
    fun hq hc => ne_of_class hc hq
  cases l with
  | dash =>
    rw [step]
    split_ifs with hc
    · refine .inl ⟨[], ?_, by simp⟩
      have hrun : run.map Prod.fst = ['-'] := hl
      rw [map_fst_snoc, hrun, hc]
      rfl
    · exact keeps_stop hl h _ fun t ht => ht
  | pair long short =>
    rw [step]
    split_ifs with hc
    · refine keeps_complete ?_ h (by simp [hc])
      rw [map_fst_snoc, hc]
      exact hl.1
    · exact keeps_stop hl h _ fun t ht => ht
  | number digits dot =>
    have hgrown : ∀ dot', (Lexeme.number (c :: digits) dot').Holds
        ((run ++ [(c, p)]).map Prod.fst) := by
      intro dot'
      have hrun : digits.reverse = run.map Prod.fst := hl
      rw [map_fst_snoc, ← hrun]
      exact List.reverse_cons
    rw [step]
    split_ifs with hdigit hc hdot
    · exact keeps_grow (hgrown dot) h (hnewline rfl hdigit)
    · refine keeps_stop hl h _ fun t ht => ?_
      cases ht
    · exact keeps_grow (hgrown true) h (by simp [hc])
    · exact keeps_stop hl h _ fun t ht => ht
  | word letters =>
    rw [step]
    split_ifs with hc
    · refine keeps_grow ?_ h (hnewline (q := fun c => isLetter c || isDigit c) rfl hc)
      have hrun : letters.reverse = run.map Prod.fst := hl
      rw [map_fst_snoc, ← hrun]
      exact List.reverse_cons
    · exact keeps_stop hl h _ fun t ht => ht
  | text content =>
    have hrun : '"' :: content.reverse = run.map Prod.fst := hl
    rw [step]
    split_ifs with hquote hline
    · refine keeps_complete ?_ h (by simp [hquote])
      rw [map_fst_snoc, ← hrun, hquote]
      simp [Token.text]
    · exact keeps_stop hl h _ fun t ht => ht
    · refine keeps_grow ?_ h hline
      rw [map_fst_snoc, ← hrun]
      simp [Holds]

end

theorem State.keeps_move {s : State} {run : Chars} (h : s.Holds run) (c : Char) (p : Position) :
    (s.move c p).Keeps run (c, p) := by
  cases s with
  | between =>
    obtain rfl : run = [] := h
    exact keeps_opening c p
  | comment =>
    obtain ⟨content, hrun, hcontent⟩ := h
    unfold State.move
    split_ifs with hc
    · refine .inr ⟨rfl, ?_⟩
      rw [map_fst_snoc, hrun, hc]
      exact .comment content hcontent .nil
    · refine .inl ⟨content ++ [c], ?_, ?_⟩
      · rw [map_fst_snoc, hrun]
        rfl
      · rw [List.mem_append, not_or]
        exact ⟨hcontent, by simpa using Ne.symm hc⟩
  | inside lexeme first last => exact lexeme.keeps_step h.1 h.2 c p

/-! ## The next item -/

/-- A comment that the stream ends in. -/
def OpenComment (text : List Char) : Prop :=
  ∃ content, text = '-' :: '-' :: content ∧ '\n' ∉ content

/-- How the automaton comes to its next item on the stream `cs`, if there is one, and what it leaves
behind it. -/
inductive Outcome (cs : Chars) : Option Item × Chars → Prop
  | nothing (gap tail : Chars) (hcs : cs = gap ++ tail) (hgap : Gap (gap.map Prod.fst))
      (htail : tail = [] ∨ OpenComment (tail.map Prod.fst)) : Outcome cs (none, [])
  | token (gap run rest : Chars) {t : Located Token} (hcs : cs = gap ++ (run ++ rest))
      (hgap : Gap (gap.map Prod.fst)) (ht : StandsOn t run) : Outcome cs (some (.ok t), rest)
  | error (gap run rest : Chars) {e : ScanError} {p : Position} (hcs : cs = gap ++ (run ++ rest))
      (hgap : Gap (gap.map Prod.fst)) (hink : StartsInk (run ++ rest))
      (hline : '\n' ∉ run.map Prod.fst) (hat : rest ≠ [] → rest.head?.map Prod.snd = some p) :
      Outcome cs (some (.error ⟨e, .point p⟩), afterLine rest)

theorem Outcome.gap {gap cs : Chars} {r : Option Item × Chars} (hgap : Gap (gap.map Prod.fst))
    (h : Outcome cs r) : Outcome (gap ++ cs) r := by
  have hmore : ∀ {gap' : Chars}, Gap (gap'.map Prod.fst) → Gap ((gap ++ gap').map Prod.fst) := by
    intro gap' hgap'
    rw [List.map_append]
    exact Gap.append hgap hgap'
  cases h with
  | nothing _ _ hcs hgap' htail =>
    exact .nothing _ _ (by rw [hcs, List.append_assoc]) (hmore hgap') htail
  | token _ _ _ hcs hgap' ht => exact .token _ _ _ (by rw [hcs, List.append_assoc]) (hmore hgap') ht
  | error _ _ _ hcs hgap' hink hline hat =>
    exact .error _ _ _ (by rw [hcs, List.append_assoc]) (hmore hgap') hink hline hat

/-- The stream ends in a state that holds the rest of it. -/
theorem outcome_close {s : State} {run : Chars} (h : s.Holds run) : Outcome run (s.close, []) := by
  cases s with
  | between =>
    obtain rfl : run = [] := h
    exact .nothing [] [] rfl .nil (.inl rfl)
  | comment => exact .nothing [] run rfl .nil (.inr h)
  | inside lexeme first last =>
    obtain ⟨hlexeme, hrun⟩ := h
    unfold State.close
    dsimp only
    cases hfinish : lexeme.finish with
    | ok t =>
      exact .token [] run [] (List.append_nil run).symm .nil
        (hrun.standsOn (lexeme.text_of_finish hlexeme hfinish))
    | error e =>
      exact .error [] run [] (List.append_nil run).symm .nil (hrun.startsInk.append _) hrun.inLine
        (fun h => absurd rfl h)

theorem outcome_resume (cs : Chars) : ∀ {s : State} {run : Chars}, s.Holds run →
    Outcome (run ++ cs) (resume s cs) := by
  induction cs with
  | nil =>
    intro s run h
    rw [List.append_nil]
    exact outcome_close h
  | cons x cs ih =>
    obtain ⟨c, p⟩ := x
    intro s run h
    have hmove := s.keeps_move h c p
    have hsnoc : run ++ (c, p) :: cs = (run ++ [(c, p)]) ++ cs := by simp
    rw [resume]
    split
    · next next hm =>
      rw [hm] at hmove
      rw [hsnoc]
      rcases hmove with hnext | ⟨rfl, hgap⟩
      · exact ih hnext
      · exact (@ih .between [] rfl).gap hgap
    · next token hm =>
      rw [hm] at hmove
      exact .token [] (run ++ [(c, p)]) cs hsnoc .nil hmove
    · next token hm =>
      rw [hm] at hmove
      exact .token [] run _ rfl .nil hmove
    · next e hm =>
      rw [hm] at hmove
      refine .error [] run _ rfl .nil ?_ hmove.2 (fun _ => rfl)
      rw [hsnoc]
      exact hmove.1.append cs

/-- The next item of a stream comes about in one of the three ways. -/
theorem outcome_next (cs : Chars) : Outcome cs (next cs) :=
  @outcome_resume cs .between [] rfl

end Scan

end LittleTiny
