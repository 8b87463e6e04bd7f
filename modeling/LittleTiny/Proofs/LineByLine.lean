import LittleTiny.Proofs.Bytes
import LittleTiny.Proofs.Extents
import Mathlib.Data.List.Forall2

/-!
# Scanning line by line

No token, comment or error goes on behind a newline: there the automaton is between tokens again,
whatever it has been in. So a stream can be cut behind any newline and scanned in parts
(`items_append`), a line has one error at most, behind which nothing comes (`items_line`), and the
errors of a source are those of its lines.
-/

namespace LittleTiny

open Scan Lexemes

namespace Source

/-- The sources that there are: those made of a text, and those made of bytes. -/
def Made (s : Source) : Prop :=
  (∃ name text, s = ofText name text) ∨ ∃ name bytes, ofBytes name bytes = .ok s

/-- No line has a newline in it. -/
def Cut (s : Source) : Prop := ∀ line ∈ s.lines, '\n' ∉ line.toList

theorem newline_notMem_splitFrom {line text : List Char} (hline : '\n' ∉ line) :
    ∀ l ∈ splitFrom line text, '\n' ∉ l := by
  induction text generalizing line with
  | nil =>
    intro l hl
    rw [splitFrom] at hl
    split at hl
    · cases hl
    · rw [List.mem_singleton.1 hl, List.mem_reverse]
      exact hline
  | cons c rest ih =>
    rw [splitFrom]
    split
    · refine List.forall_mem_cons.2 ⟨fun h => hline (mem_of_mem_closeLine h), ih (by simp)⟩
    · next hc =>
      apply ih
      simpa [eq_comm, hc] using hline

theorem cut_ofText (name text : String) : (ofText name text).Cut := by
  intro line hline
  obtain ⟨l, hl, rfl⟩ := List.mem_map.1 hline
  rw [String.toList_ofList]
  exact newline_notMem_splitFrom (by simp) l hl

theorem Made.cut {s : Source} (h : s.Made) : s.Cut := by
  rcases h with ⟨name, text, rfl⟩ | ⟨name, bytes, hbytes⟩
  · exact cut_ofText name text
  · obtain ⟨text, -, rfl⟩ := ofBytes_eq_ok_iff.1 hbytes
    exact cut_ofText name text

theorem lineChars_eq (n : UInt32) (line : List Char) :
    lineChars n line =
      line.zipIdx.map (fun x => (x.1, ⟨n, .ofNat x.2⟩)) ++ [('\n', ⟨n, .ofNat line.length⟩)] := by
  simp [lineChars, List.zipIdx_append]

theorem line_of_mem_lineChars {n : UInt32} {line : List Char} {x : Char × Position}
    (h : x ∈ lineChars n line) : x.2.line = n := by
  obtain ⟨y, -, rfl⟩ := List.mem_map.1 h
  rfl

end Source

namespace Scan

/-! ## Streams that end with a line -/

/-- The stream is empty or ends with a newline. -/
def Closed (cs : Chars) : Prop := ∀ x ∈ cs.getLast?, x.1 = '\n'

theorem closed_snoc (cs : Chars) (p : Position) : Closed (cs ++ [('\n', p)]) := by
  intro x hx
  rw [List.getLast?_concat] at hx
  cases hx
  rfl

theorem Closed.of_suffix {cs rest : Chars} (h : Closed cs) (hrest : rest <:+ cs) : Closed rest := by
  obtain ⟨front, rfl⟩ := hrest
  intro x hx
  apply h
  rw [List.getLast?_append, hx]
  rfl

theorem Closed.append {a b : Chars} (ha : Closed a) (hb : Closed b) : Closed (a ++ b) := by
  intro x hx
  rw [List.getLast?_append, Option.mem_def, Option.or_eq_some_iff] at hx
  rcases hx with hx | ⟨-, hx⟩
  · exact hb x hx
  · exact ha x hx

theorem afterLine_suffix (cs : Chars) : afterLine cs <:+ cs := by
  induction cs with
  | nil => exact List.suffix_refl _
  | cons x rest ih =>
    rw [afterLine]
    split
    · exact List.suffix_cons x rest
    · exact ih.trans (List.suffix_cons x rest)

theorem next_suffix (cs : Chars) : (next cs).2 <:+ cs := by
  have houtcome := outcome_next cs
  generalize next cs = r at houtcome
  cases houtcome with
  | nothing => exact List.nil_suffix
  | token gap run rest hcs =>
    rw [hcs, ← List.append_assoc]
    exact List.suffix_append _ _
  | error gap run rest hcs =>
    rw [hcs, ← List.append_assoc]
    exact (afterLine_suffix rest).trans (List.suffix_append _ _)

theorem afterLine_append_of_mem {a : Chars} (ha : '\n' ∈ a.map Prod.fst) (b : Chars) :
    afterLine (a ++ b) = afterLine a ++ b := by
  induction a with
  | nil => cases ha
  | cons x rest ih =>
    rw [List.cons_append, afterLine, afterLine]
    split
    · rfl
    · next hx =>
      rcases List.mem_cons.1 ha with hnewline | hrest
      · exact absurd hnewline.symm hx
      · exact ih hrest

/-- A newline brings the automaton back between tokens, if it goes on behind it at all. -/
theorem State.eq_between_of_move {s next : State} {p : Position}
    (h : s.move '\n' p = .goOn next) : next = .between := by
  cases s with
  | between =>
    cases h
    rfl
  | comment =>
    cases h
    rfl
  | inside l first last =>
    have hstop : ∃ result, l.step '\n' = .stop result := by
      by_cases htext : ∃ content, l = .text content
      · obtain ⟨content, rfl⟩ := htext
        exact ⟨_, rfl⟩
      · exact ⟨_, step_of_isBlank (fun content hl => htext ⟨content, hl⟩) rfl⟩
    obtain ⟨result, hresult⟩ := hstop
    rw [State.move, hresult] at h
    cases result <;> cases h

/-- What stands behind a closed stream is not looked at before the items of the stream are out. -/
theorem resume_append {a : Chars} (ha : Closed a) (hne : a ≠ []) (s : State) (b : Chars) :
    resume s (a ++ b) =
      (resume s a).1.elim (next b) fun item => (some item, (resume s a).2 ++ b) := by
  induction a generalizing s with
  | nil => exact absurd rfl hne
  | cons x rest ih =>
    obtain ⟨c, p⟩ := x
    have hnewline : '\n' ∈ ((c, p) :: rest).map Prod.fst := by
      have hlast := ha _ (List.getLast?_eq_some_getLast hne)
      exact hlast ▸ List.mem_map_of_mem (List.getLast_mem hne)
    have hfail := afterLine_append_of_mem hnewline b
    rw [List.cons_append] at hfail ⊢
    rw [resume, resume]
    cases hm : s.move c p with
    | take token => rfl
    | leave token => rfl
    | fail e =>
      dsimp only
      rw [hfail]
      rfl
    | goOn next =>
      cases rest with
      | nil =>
        obtain rfl : c = '\n' := ha (c, p) rfl
        obtain rfl := s.eq_between_of_move hm
        rfl
      | cons y rest =>
        exact ih (ha.of_suffix (List.suffix_cons _ _)) (List.cons_ne_nil _ _) next

theorem items_nil : items [] = [] :=
  items_of_none rfl

/-- A stream can be cut behind a newline and scanned in two parts. -/
theorem items_append {a : Chars} (ha : Closed a) (b : Chars) :
    items (a ++ b) = items a ++ items b := by
  induction hn : a.length using Nat.strongRecOn generalizing a with
  | ind n ih =>
    subst hn
    by_cases hne : a = []
    · subst hne
      rw [items_nil]
      rfl
    have happend : next (a ++ b) = _ := resume_append ha hne .between b
    cases hitem : (next a).1 with
    | none =>
      have hnext : next (a ++ b) = next b := by
        rw [happend]
        exact congrArg (Option.elim · (next b) _) hitem
      rw [items_of_none hitem, items_congr hnext]
      rfl
    | some item =>
      have hnext : next (a ++ b) = (some item, (next a).2 ++ b) := by
        rw [happend]
        exact congrArg (Option.elim · (next b) _) hitem
      have hshorter : (next a).2.length < a.length := length_next_lt (Prod.ext hitem rfl)
      have hclosed := ha.of_suffix (next_suffix a)
      rw [items_of_some hitem, items_of_some (congrArg Prod.fst hnext), hnext,
        ih _ hshorter hclosed rfl]
      rfl

theorem items_flatMap {α : Type} {f : α → Chars} (hf : ∀ a, Closed (f a)) (as : List α) :
    items (as.flatMap f) = as.flatMap fun a => items (f a) := by
  induction as with
  | nil => exact items_nil
  | cons a as ih => rw [List.flatMap_cons, List.flatMap_cons, items_append (hf a), ih]

/-! ## One line -/

section

variable {body : Chars} {p : Position}

/-- What is left of a line is nothing, or a line again. -/
theorem eq_nil_or_line_of_suffix {rest : Chars} (hbody : '\n' ∉ body.map Prod.fst)
    (h : rest <:+ body ++ [('\n', p)]) :
    rest = [] ∨ ∃ body', rest = body' ++ [('\n', p)] ∧ '\n' ∉ body'.map Prod.fst := by
  rcases List.suffix_concat_iff.1 h with rfl | ⟨body', rfl, hsuffix⟩
  · exact .inl rfl
  · refine .inr ⟨body', rfl, fun hmem => hbody ?_⟩
    exact (hsuffix.sublist.map Prod.fst).subset hmem

theorem afterLine_of_suffix {rest : Chars} (hbody : '\n' ∉ body.map Prod.fst)
    (h : rest <:+ body ++ [('\n', p)]) : afterLine rest = [] := by
  rcases eq_nil_or_line_of_suffix hbody h with rfl | ⟨body', rfl, hbody'⟩
  · rfl
  · exact afterLine_append hbody' p []

/-- A line has one error at most, and it comes last. -/
theorem items_line (hbody : '\n' ∉ body.map Prod.fst) :
    ∃ tokens : List (Located Token), items (body ++ [('\n', p)]) = tokens.map .ok ∨
      ∃ e, items (body ++ [('\n', p)]) = tokens.map .ok ++ [.error e] := by
  induction hn : body.length using Nat.strongRecOn generalizing body with
  | ind n ih =>
    subst hn
    have houtcome := outcome_next (body ++ [('\n', p)])
    generalize hnext : next (body ++ [('\n', p)]) = r at houtcome
    cases houtcome with
    | nothing => exact ⟨[], .inl (items_of_none (congrArg Prod.fst hnext))⟩
    | @token gap run rest t hcs hgap ht =>
      have hsuffix : rest <:+ body ++ [('\n', p)] := by
        simpa [hnext] using next_suffix (body ++ [('\n', p)])
      have hitems := items_of_some (congrArg Prod.fst hnext)
      rw [hnext] at hitems
      rcases eq_nil_or_line_of_suffix hbody hsuffix with rfl | ⟨body', rfl, hbody'⟩
      · exact ⟨[t], .inl (hitems.trans (by rw [items_nil]; rfl))⟩
      · have hlt := length_next_lt hnext
        have hshorter : body'.length < body.length := by simpa using hlt
        obtain ⟨tokens, htokens | ⟨e, he⟩⟩ := ih _ hshorter hbody' rfl
        · exact ⟨t :: tokens, .inl (hitems.trans (by rw [htokens]; rfl))⟩
        · exact ⟨t :: tokens, .inr ⟨e, hitems.trans (by rw [he]; rfl)⟩⟩
    | @error gap run rest e q hcs hgap hink hline hat =>
      have hsuffix : rest <:+ body ++ [('\n', p)] := by
        rw [hcs, ← List.append_assoc]
        exact List.suffix_append _ _
      have hitems := items_of_some (congrArg Prod.fst hnext)
      rw [hnext, afterLine_of_suffix hbody hsuffix, items_nil] at hitems
      exact ⟨[], .inr ⟨_, hitems⟩⟩

end

/-! ## Tokens or errors -/

theorem map_ok_of_error?_eq_nil {is : List Item} (h : is.filterMap Item.error? = []) :
    is = (is.filterMap Item.token?).map .ok := by
  induction is with
  | nil => rfl
  | cons item is ih =>
    cases item with
    | error e => cases h
    | ok t => exact congrArg (.ok t :: ·) (ih h)

theorem scan_eq_ok_iff {cs : Chars} {tokens : List (Located Token)} :
    scan cs = .ok tokens ↔ items cs = tokens.map .ok := by
  refine ⟨fun h => ?_, scan_of_items⟩
  unfold scan collect at h
  split at h
  · next hnone =>
    cases h
    exact map_ok_of_error?_eq_nil hnone
  · cases h

theorem scan_eq_error_iff {cs : Chars} {es : List (Located ScanError)} :
    scan cs = .error es ↔ es ≠ [] ∧ (items cs).filterMap Item.error? = es := by
  unfold scan collect
  split
  · next hnone =>
    refine iff_of_false (fun h => nomatch h) ?_
    rintro ⟨hne, hes⟩
    exact hne (hes.symm.trans hnone)
  · next hsome =>
    constructor
    · intro h
      cases h
      exact ⟨fun h => hsome h, rfl⟩
    · rintro ⟨-, rfl⟩
      rfl

/-- The errors that are reported for a stream. -/
def errors (cs : Chars) : List (Located ScanError) :=
  match scan cs with
  | .ok _ => []
  | .error es => es

theorem errors_eq (cs : Chars) : errors cs = (items cs).filterMap Item.error? := by
  unfold errors
  split
  · next tokens hscan =>
    rw [scan_eq_ok_iff.1 hscan]
    simp [List.filterMap_map, Item.error?, Function.comp_def]
  · next es hscan => exact (scan_eq_error_iff.1 hscan).2.symm

/-- Each item of a stream comes about somewhere behind its beginning. -/
theorem exists_outcome_of_mem_items {cs : Chars} {item : Item} (h : item ∈ items cs) :
    ∃ front later rest, cs = front ++ later ∧ Outcome later (some item, rest) := by
  induction hn : cs.length using Nat.strongRecOn generalizing cs with
  | ind n ih =>
    subst hn
    cases hitem : (next cs).1 with
    | none =>
      rw [items_of_none hitem] at h
      cases h
    | some first =>
      rw [items_of_some hitem] at h
      have hnext : next cs = (some first, (next cs).2) := Prod.ext hitem rfl
      rcases List.mem_cons.1 h with rfl | hlater
      · exact ⟨[], cs, _, rfl, hnext ▸ outcome_next cs⟩
      · obtain ⟨front, later, rest, hrest, houtcome⟩ := ih _ (length_next_lt hnext) hlater rfl
        obtain ⟨before, hbefore⟩ := next_suffix cs
        refine ⟨before ++ front, later, rest, ?_, houtcome⟩
        rw [← hbefore, hrest, List.append_assoc]

/-- An error of a closed stream stands at one of its characters, and there or before it stands one
that is not blank. -/
theorem exists_point_of_mem_items {cs : Chars} (hcs : Closed cs) {e : Located ScanError}
    (h : .error e ∈ items cs) :
    ∃ front x back, cs = front ++ x :: back ∧ e.location = .point x.2 ∧
      ∃ y ∈ front ++ [x], Text.isBlank y.1 = false := by
  obtain ⟨front, later, rest, rfl, houtcome⟩ := exists_outcome_of_mem_items h
  cases houtcome with
  | @error gap run rest e p hlater hgap hink hline hat =>
    cases rest with
    | nil =>
      -- Then the stream would end with the run, which has no newline.
      rw [List.append_nil] at hink hlater
      have hrun : run ≠ [] := by
        rintro rfl
        obtain ⟨y, hy, -⟩ := hink
        cases hy
      have hlast : run.getLast hrun ∈ (front ++ later).getLast? := by
        simp [hlater, List.getLast?_append, List.getLast?_eq_some_getLast hrun]
      have hnewline : (run.getLast hrun).1 = '\n' := hcs _ hlast
      exact absurd (hnewline ▸ List.mem_map_of_mem (List.getLast_mem hrun)) hline
    | cons x back =>
      have hp : x.2 = p := Option.some.inj (hat (List.cons_ne_nil _ _))
      obtain ⟨y, hy, hblank⟩ := hink
      refine ⟨front ++ gap ++ run, x, back, by simp [hlater], by rw [hp], y, ?_, hblank⟩
      cases run <;> cases hy <;> simp

/-! ## Sources -/

/-- A line of a source, with the newline that closes it, by itself. -/
abbrev lineOf (x : String × Nat) : Chars := Source.lineChars (.ofNat x.2) x.1.toList

theorem closed_lineOf (x : String × Nat) : Closed (lineOf x) := by
  rw [lineOf, Source.lineChars_eq]
  exact closed_snoc _ _

theorem items_chars (source : Source) :
    items source.chars = (source.lines.zipIdx 1).flatMap fun x => items (lineOf x) :=
  items_flatMap closed_lineOf _

theorem errors_chars (source : Source) :
    errors source.chars = (source.lines.zipIdx 1).flatMap fun x => errors (lineOf x) := by
  rw [errors_eq, items_chars, List.filterMap_flatMap]
  exact congrArg (List.flatMap · _) (funext fun x => (errors_eq (lineOf x)).symm)

/-- The error is the only one of the line by itself, and stands in it. -/
def IsErrorOf (x : String × Nat) (e : Located ScanError) : Prop :=
  scan (lineOf x) = .error [e] ∧ e.location.line = .ofNat x.2

theorem errors_line {x : String × Nat} (hx : '\n' ∉ x.1.toList) :
    (scan (lineOf x)).isOk ∧ errors (lineOf x) = [] ∨
      ¬ (scan (lineOf x)).isOk ∧ ∃ e, errors (lineOf x) = [e] ∧ IsErrorOf x e := by
  have hbody : '\n' ∉ (x.1.toList.zipIdx.map fun y =>
      (y.1, (⟨.ofNat x.2, .ofNat y.2⟩ : Position))).map Prod.fst := by
    have hfst : (Prod.fst ∘ fun (y : Char × Nat) =>
        (y.1, (⟨.ofNat x.2, .ofNat y.2⟩ : Position))) = Prod.fst := rfl
    rw [List.map_map, hfst, List.zipIdx_map_fst]
    exact hx
  have hitems := @items_line _ ⟨.ofNat x.2, .ofNat x.1.toList.length⟩ hbody
  rw [← Source.lineChars_eq] at hitems
  obtain ⟨tokens, htokens | ⟨e, he⟩⟩ := hitems
  · have hscan : scan (lineOf x) = .ok tokens := scan_eq_ok_iff.2 htokens
    left
    simp [errors, hscan, Except.isOk, Except.toBool]
  · have herrors : (items (lineOf x)).filterMap Item.error? = [e] := by
      rw [he, List.filterMap_append, List.filterMap_map]
      simp [Item.error?, Function.comp_def]
    have hscan : scan (lineOf x) = .error [e] := scan_eq_error_iff.2 ⟨by simp, herrors⟩
    right
    refine ⟨by simp [hscan, Except.isOk, Except.toBool], e, by simp [errors, hscan], hscan, ?_⟩
    have hmem : .error e ∈ items (lineOf x) := by simp [lineOf, he]
    obtain ⟨front, y, back, hline, hat, -⟩ := exists_point_of_mem_items (closed_lineOf x) hmem
    have hy : y ∈ lineOf x := by simp [hline]
    rw [hat]
    exact Source.line_of_mem_lineChars hy

/-- The lines of a source that do not scan by themselves, with their numbers. -/
def badLines (source : Source) : List (String × Nat) :=
  (source.lines.zipIdx 1).filter fun x => !(scan (lineOf x)).isOk

theorem forall₂_badLines {source : Source} (h : source.Cut) :
    List.Forall₂ IsErrorOf (badLines source) (errors source.chars) := by
  have hlines : ∀ x ∈ source.lines.zipIdx 1, '\n' ∉ x.1.toList :=
    fun x hx => h x.1 (List.fst_mem_of_mem_zipIdx hx)
  rw [errors_chars, badLines]
  generalize source.lines.zipIdx 1 = xs at hlines
  induction xs with
  | nil => exact .nil
  | cons x xs ih =>
    obtain ⟨hx, hxs⟩ := List.forall_mem_cons.1 hlines
    rw [List.flatMap_cons]
    rcases errors_line hx with ⟨hok, hnone⟩ | ⟨hok, e, he, herror⟩
    · rw [List.filter_cons_of_neg (by simp [hok]), hnone]
      exact ih hxs
    · rw [List.filter_cons_of_pos (by simp [hok]), he]
      exact .cons herror (ih hxs)

/-- Scanning goes line by line, with one error for each bad line: a stream can be cut behind any
newline; a line has one error at most, as its last item; the answer is all the tokens, or else all
the errors; and the errors of a source belong, in order, to its lines that do not scan by
themselves. -/
theorem scan_line_by_line :
    (∀ a b : Chars, Closed a → items (a ++ b) = items a ++ items b) ∧
    (∀ (body : Chars) (p : Position), '\n' ∉ body.map Prod.fst →
      ∃ tokens : List (Located Token), items (body ++ [('\n', p)]) = tokens.map .ok ∨
        ∃ e, items (body ++ [('\n', p)]) = tokens.map .ok ++ [.error e]) ∧
    (∀ (cs : Chars) (tokens : List (Located Token)) (es : List (Located ScanError)),
      (scan cs = .ok tokens ↔ items cs = tokens.map .ok) ∧
      (scan cs = .error es ↔ es ≠ [] ∧ (items cs).filterMap Item.error? = es)) ∧
    ∀ source : Source, source.Made →
      List.Forall₂ IsErrorOf (badLines source) (errors source.chars) :=
  ⟨fun _ b ha => items_append ha b, fun _ _ hbody => items_line hbody,
    fun _ _ _ => ⟨scan_eq_ok_iff, scan_eq_error_iff⟩, fun _ h => forall₂_badLines h.cut⟩

/-- A text that is left open at the end of its line, with a dash behind it; and between two bad
lines a good one and an empty one. -/
theorem scan_line_by_line_open_text :
    (items ([('"', ⟨1, 0⟩)] ++ [('\n', ⟨1, 1⟩)] ++ [('-', ⟨2, 0⟩)]) =
        items ([('"', ⟨1, 0⟩)] ++ [('\n', ⟨1, 1⟩)]) ++ items [('-', ⟨2, 0⟩)]) ∧
      (∃ tokens : List (Located Token),
        items ([('"', ⟨1, 0⟩)] ++ [('\n', ⟨1, 1⟩)]) = tokens.map .ok ∨
          ∃ e, items ([('"', ⟨1, 0⟩)] ++ [('\n', ⟨1, 1⟩)]) = tokens.map .ok ++ [.error e]) ∧
      badLines (.ofText "open" "a \"--\nb - -1\n\nc ? \"") = [("a \"--", 1), ("c ? \"", 4)] ∧
      List.Forall₂ IsErrorOf [("a \"--", 1), ("c ? \"", 4)]
        (errors (Source.ofText "open" "a \"--\nb - -1\n\nc ? \"").chars) := by
  have hbad : badLines (.ofText "open" "a \"--\nb - -1\n\nc ? \"") =
      [("a \"--", 1), ("c ? \"", 4)] := by
    decide +kernel
  have herrors := scan_line_by_line.2.2.2 (.ofText "open" "a \"--\nb - -1\n\nc ? \"")
    (.inl ⟨_, _, rfl⟩)
  rw [hbad] at herrors
  refine ⟨scan_line_by_line.1 _ _ (closed_snoc _ _), ?_, hbad, herrors⟩
  exact scan_line_by_line.2.1 _ _ (by decide)

end Scan

end LittleTiny
