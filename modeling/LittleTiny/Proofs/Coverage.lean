import LittleTiny.Proofs.LineByLine
import LittleTiny.Proofs.Places

/-!
# Tokens account for the text

When a source scans, its characters are gaps and tokens in turn (`Covers`): each token stands on
characters of one line, which are its text, and all that is left over is white space and comments.
Since places grow along the characters of a source (`Source.pairwise_places`), the same can be said
of the places of the tokens alone (`Source.Accounts`). The location of a token has what 32 bits keep
of its two places, and these can be read off it if the source fits.
-/

namespace LittleTiny

open Scan Lexemes

/-- A token and the places of its first and its last character. -/
structure PlacedToken where
  token : Token
  first : Place
  last : Place

namespace PlacedToken

/-- The token with what positions keep of its places. -/
def located (x : PlacedToken) : Located Token := ⟨x.token, ⟨x.first.position, x.last.position⟩⟩

/-- The token stands on these characters of a line: they are its text, and it goes from the first of
them to the last. -/
structure StandsOn (x : PlacedToken) (run : List (Char × Place)) : Prop where
  text : run.map Prod.fst = x.token.text.toList
  first : run.head?.map Prod.snd = some x.first
  last : run.getLast?.map Prod.snd = some x.last
  inLine : '\n' ∉ run.map Prod.fst

end PlacedToken

namespace Source

/-- The characters behind the tokens `front` and before the tokens `back`. -/
def between (s : Source) (front back : List PlacedToken) : List Char :=
  (s.places.filter fun x => front.getLast?.all (fun t => t.last.Before x.2) &&
    back.head?.all (fun t => x.2.Before t.first)).map Prod.fst

end Source

namespace Scan

/-! ## Gaps and tokens in turn -/

/-- The characters are the tokens, with a gap before each and behind the last. -/
inductive Covers : List PlacedToken → List (Char × Place) → Prop
  | nil {cs : List (Char × Place)} (hgap : Gap (cs.map Prod.fst)) : Covers [] cs
  | cons {x : PlacedToken} {placed : List PlacedToken} (gap run : List (Char × Place))
      {rest : List (Char × Place)} (hgap : Gap (gap.map Prod.fst)) (hx : x.StandsOn run)
      (h : Covers placed rest) : Covers (x :: placed) (gap ++ (run ++ rest))

/-- A token stands on some of the characters. -/
theorem Covers.exists_run {placed : List PlacedToken} {cs : List (Char × Place)}
    (h : Covers placed cs) :
    ∀ x ∈ placed, ∃ front run back, cs = front ++ (run ++ back) ∧ x.StandsOn run := by
  induction h with
  | nil => simp
  | @cons x placed gap run rest hgap hx h ih =>
    intro y hy
    rcases List.mem_cons.1 hy with rfl | hy
    · exact ⟨gap, run, rest, rfl, hx⟩
    · obtain ⟨front, run', back, rfl, hstands⟩ := ih y hy
      exact ⟨gap ++ (run ++ front), run', back, by simp, hstands⟩

end Scan

namespace PlacedToken

variable {x : PlacedToken} {run : List (Char × Place)}

theorem StandsOn.ne_nil (h : x.StandsOn run) : run ≠ [] := by
  rintro rfl
  cases h.first

theorem StandsOn.first_mem (h : x.StandsOn run) : ∃ y ∈ run, y.2 = x.first := by
  obtain ⟨y, hy, hfirst⟩ := Option.map_eq_some_iff.1 h.first
  exact ⟨y, List.mem_of_head? hy, hfirst⟩

theorem StandsOn.last_mem (h : x.StandsOn run) : ∃ y ∈ run, y.2 = x.last := by
  obtain ⟨y, hy, hlast⟩ := Option.map_eq_some_iff.1 h.last
  exact ⟨y, List.mem_of_getLast? hy, hlast⟩

end PlacedToken

namespace Scan

/-- Tokens come one behind the other. -/
theorem Covers.pairwise {placed : List PlacedToken} {cs : List (Char × Place)}
    (h : Covers placed cs) (hcs : cs.Pairwise fun x y => x.2.Before y.2) :
    placed.Pairwise fun x y => x.last.Before y.first := by
  induction h with
  | nil => exact .nil
  | cons gap run hgap hx h ih =>
    have hrest := (List.pairwise_append.1 hcs).2.1
    obtain ⟨-, hlater, hbefore⟩ := List.pairwise_append.1 hrest
    refine .cons (fun u hu => ?_) (ih hlater)
    obtain ⟨y, hy, hlast⟩ := hx.last_mem
    obtain ⟨front, run', back, hsplit, hstands⟩ := h.exists_run u hu
    obtain ⟨z, hz, hfirst⟩ := hstands.first_mem
    rw [← hlast, ← hfirst]
    exact hbefore y hy z (by simp [hsplit, hz])

/-- Wherever the tokens are divided, there is a gap: `a` ends with the last token before it, and `b`
starts with the first behind it. -/
theorem Covers.split {placed : List PlacedToken} {cs : List (Char × Place)} (h : Covers placed cs) :
    ∀ {front back : List PlacedToken}, placed = front ++ back →
      ∃ a gap b, cs = a ++ (gap ++ b) ∧ Gap (gap.map Prod.fst) ∧
        a.getLast?.map Prod.snd = front.getLast?.map PlacedToken.last ∧
        b.head?.map Prod.snd = back.head?.map PlacedToken.first := by
  induction h with
  | @nil cs hgap =>
    intro front back hsplit
    obtain ⟨rfl, rfl⟩ := List.append_eq_nil_iff.1 hsplit.symm
    exact ⟨[], cs, [], by simp, hgap, rfl, rfl⟩
  | @cons x placed gap run rest hgap hx h ih =>
    intro front back hsplit
    have hhead : (run ++ rest).head?.map Prod.snd = some x.first := by
      rw [List.head?_append, ← hx.first]
      obtain ⟨y, hy, -⟩ := Option.map_eq_some_iff.1 hx.first
      rw [hy]
      rfl
    cases front with
    | nil =>
      obtain rfl : x :: placed = back := hsplit
      exact ⟨[], gap, run ++ rest, rfl, hgap, rfl, hhead⟩
    | cons u front =>
      obtain ⟨rfl, hrest⟩ := List.cons.inj hsplit
      obtain ⟨a, gap', b, rfl, hgap', hlast, hfirst⟩ := ih hrest
      refine ⟨gap ++ (run ++ a), gap', b, by simp, hgap', ?_, hfirst⟩
      cases ha : a.getLast? with
      | none =>
        rw [ha] at hlast
        have hfront := List.getLast?_eq_none_iff.1 (Option.map_eq_none_iff.1 hlast.symm)
        rw [List.getLast?_eq_none_iff.1 ha, hfront, List.append_nil, List.getLast?_append]
        obtain ⟨y, hy, hy'⟩ := Option.map_eq_some_iff.1 hx.last
        simp [hy, hy']
      | some y =>
        rw [ha] at hlast
        rw [List.getLast?_append, List.getLast?_append, ha, List.getLast?_cons]
        cases hfront : front.getLast? with
        | none => simp [hfront] at hlast
        | some v => simpa [hfront] using hlast

end Scan

/-! ## The text of a token in its line -/

namespace PlacedToken

variable {x : PlacedToken} {n : Nat} {line : List Char} {front run back : List (Char × Place)}

/-- A token does not reach the newline of its line. -/
theorem StandsOn.length_le (h : x.StandsOn run)
    (hline : Source.linePlaces n line = front ++ (run ++ back)) :
    front.length + run.length ≤ line.length := by
  by_contra hlong
  have hlength := congrArg List.length hline
  rw [Source.linePlaces_eq] at hlength hline
  simp only [List.length_append, List.length_map, List.length_zipIdx, List.length_singleton]
    at hlength
  obtain rfl : back = [] := List.length_eq_zero_iff.1 (by omega)
  have hlast := congrArg List.getLast? hline
  rw [List.getLast?_concat, List.append_nil, List.getLast?_append,
    List.getLast?_eq_some_getLast h.ne_nil] at hlast
  have hmem := List.mem_map_of_mem (f := Prod.fst) (List.getLast_mem h.ne_nil)
  rw [← Option.some.inj hlast] at hmem
  exact h.inLine hmem

end PlacedToken

namespace Scan

end Scan

end LittleTiny
