import LittleTiny.Source

/-!
# The characters of a source

The characters that a source gives to the scanner, without their positions. They are those of its
text, except that a carriage return just before a newline is dropped (`stripReturns`), and that the
last line is closed by a newline if the text leaves it open (`closeLast`).
-/

namespace LittleTiny.Source

/-- The text without the carriage returns that stand just before a newline. -/
def stripReturns : List Char → List Char
  | [] => []
  | c :: rest =>
    if c = '\x0d' ∧ rest.head? = some '\n' then stripReturns rest else c :: stripReturns rest

/-- The text with a newline at its end, unless it is empty or has one there. -/
def closeLast (text : List Char) : List Char :=
  if text.getLast?.all (· = '\n') then text else text ++ ['\n']

theorem map_fst_lineChars (n : UInt32) (line : List Char) :
    (lineChars n line).map Prod.fst = line ++ ['\n'] := by
  have hfst : (Prod.fst ∘ fun (x : Char × Nat) => (x.1, (⟨n, .ofNat x.2⟩ : Position))) =
      Prod.fst := rfl
  rw [lineChars, List.map_map, hfst]
  exact List.zipIdx_map_fst 0 _

theorem map_fst_chars (s : Source) :
    s.chars.map Prod.fst = s.lines.flatMap fun line => line.toList ++ ['\n'] := by
  rw [chars, List.map_flatMap]
  simp only [map_fst_lineChars]
  generalize 1 = n
  induction s.lines generalizing n with
  | nil => rfl
  | cons line lines ih =>
    rw [List.zipIdx_cons, List.flatMap_cons, List.flatMap_cons, ih]

/-! ## Carriage returns -/

/-- A part without a newline stays as it is, unless it ends with a carriage return that the newline
behind it takes along. -/
theorem stripReturns_append {part rest : List Char} (hpart : '\n' ∉ part)
    (hlast : part.getLast? = some '\x0d' → rest.head? ≠ some '\n') :
    stripReturns (part ++ rest) = part ++ stripReturns rest := by
  induction part with
  | nil => rfl
  | cons c part ih =>
    have hkept : ¬ (c = '\x0d' ∧ (part ++ rest).head? = some '\n') := by
      rintro ⟨rfl, hnext⟩
      cases part with
      | nil => exact hlast rfl hnext
      | cons d part =>
        obtain rfl : d = '\n' := Option.some.inj hnext
        simp at hpart
    rw [List.cons_append, stripReturns, if_neg hkept, List.cons_append]
    congr 1
    apply ih
    · exact fun h => hpart (List.mem_cons_of_mem c h)
    · intro h
      apply hlast
      rw [List.getLast?_cons, h]
      rfl

theorem closeLine_of_head?_ne {line : List Char} (h : line.head? ≠ some '\x0d') :
    closeLine line = line.reverse := by
  unfold closeLine
  split
  · exact absurd rfl h
  · rfl

theorem mem_of_mem_closeLine {c : Char} {line : List Char} (h : c ∈ closeLine line) : c ∈ line := by
  unfold closeLine at h
  split at h
  · exact List.mem_cons_of_mem _ (List.mem_reverse.1 h)
  · exact List.mem_reverse.1 h

/-- The newline behind a line takes a carriage return along. -/
theorem stripReturns_line {line rest : List Char} (hline : '\n' ∉ line) :
    stripReturns (line.reverse ++ '\n' :: rest) = closeLine line ++ '\n' :: stripReturns rest := by
  have hnewline : stripReturns ('\n' :: rest) = '\n' :: stripReturns rest := by
    rw [stripReturns, if_neg (by simp)]
  by_cases hlast : ∃ part, line = '\x0d' :: part
  · obtain ⟨part, rfl⟩ := hlast
    have hpart : '\n' ∉ part.reverse := by simpa using hline
    have hreturn : stripReturns ('\x0d' :: '\n' :: rest) = '\n' :: stripReturns rest := by
      rw [stripReturns, if_pos ⟨rfl, rfl⟩, hnewline]
    rw [List.reverse_cons, List.append_assoc, List.singleton_append,
      stripReturns_append hpart (by simp), hreturn]
    rfl
  · have hhead : line.head? ≠ some '\x0d' := fun h => hlast (List.head?_eq_some_iff.1 h)
    have hend : line.reverse.getLast? ≠ some '\x0d' := by rwa [List.getLast?_reverse]
    rw [stripReturns_append (by simpa using hline) (fun h => absurd h hend), hnewline,
      closeLine_of_head?_ne hhead]

/-! ## The last line -/

theorem closeLast_append_newline (part rest : List Char) :
    closeLast (part ++ '\n' :: rest) = part ++ '\n' :: closeLast rest := by
  unfold closeLast
  rw [List.getLast?_append, List.getLast?_cons]
  cases hrest : rest.getLast? with
  | none => simp
  | some c =>
    by_cases hc : c = '\n'
    · simp [hc]
    · simp [hc]

theorem flatMap_splitFrom {line : List Char} (hline : '\n' ∉ line) (text : List Char) :
    (splitFrom line text).flatMap (fun l => l ++ ['\n']) =
      closeLast (stripReturns (line.reverse ++ text)) := by
  induction text generalizing line with
  | nil =>
    have hstrip := @stripReturns_append line.reverse [] (by simpa using hline) (by simp)
    rw [hstrip, splitFrom, closeLast]
    cases line with
    | nil => rfl
    | cons c line =>
      have hc : c ≠ '\n' := by
        rintro rfl
        simp at hline
      simp [stripReturns, hc]
  | cons c rest ih =>
    rw [splitFrom]
    split
    · next hc =>
      subst hc
      rw [stripReturns_line hline, closeLast_append_newline, List.flatMap_cons, ih (by simp)]
      simp
    · next hc =>
      have hmore : '\n' ∉ c :: line := by simpa [eq_comm, hc] using hline
      rw [ih hmore, List.reverse_cons, List.append_assoc, List.singleton_append]

/-- The characters of the source of a text. -/
theorem map_fst_chars_ofText (name text : String) :
    (ofText name text).chars.map Prod.fst = closeLast (stripReturns text.toList) := by
  have hlines := @flatMap_splitFrom [] (by simp) text.toList
  rw [map_fst_chars, ofText, List.flatMap_map]
  simpa [splitLines] using hlines

end LittleTiny.Source
