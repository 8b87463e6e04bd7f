import LittleTiny.Proofs.Vocabulary
import LittleTiny.Tiny
import Mathlib.Data.List.TakeWhile

/-!
# Names in the code

A variable stands in the code under the number of its scope and its name, one right behind the
other. The number ends where the name begins, since a name does not begin with a digit; so no two
variables of a program share a name there (`Program.nodup_mangled`). The names of variables,
registers, labels and numerals are told apart by how they begin.
-/

namespace LittleTiny

open Scan Grammar

/-! ## Numbers in names -/

theorem isDigit_of_mem_repr {n : Nat} {c : Char} (h : c ∈ n.repr.toList) : isDigit c := by
  rw [Nat.repr_eq_ofList_toDigits, String.toList_ofList] at h
  have hc : c.isDigit = true := Nat.isDigit_of_mem_toDigits (by decide) (by decide) h
  exact hc

theorem eq_of_repr_eq {m n : Nat} (h : m.repr.toList = n.repr.toList) : m = n := by
  rw [Nat.repr_eq_ofList_toDigits, Nat.repr_eq_ofList_toDigits, String.toList_ofList,
    String.toList_ofList] at h
  calc
    m = Nat.ofDigitChars 10 (Nat.toDigits 10 m) 0 := Nat.ofDigitChars_ten_toDigits.symm
    _ = Nat.ofDigitChars 10 (Nat.toDigits 10 n) 0 := by rw [h]
    _ = n := Nat.ofDigitChars_ten_toDigits

/-- A word ends the digits before it. -/
theorem takeWhile_isDigit_append (n : Nat) {word : List Char} (h : IsWord word) :
    (n.repr.toList ++ word).takeWhile isDigit = n.repr.toList := by
  rw [List.takeWhile_append_of_pos fun c hc => isDigit_of_mem_repr hc]
  obtain ⟨hfirst, -⟩ := h
  cases word with
  | nil => exact List.append_nil _
  | cons c rest =>
    have hletter : isLetter c := by simpa using hfirst
    rw [List.takeWhile_cons_of_neg (by simp [isDigit_eq_false_of_isLetter hletter]),
      List.append_nil]

/-! ## Variables -/

theorem Variable.toList_mangled (v : Variable) :
    v.mangled.toList = "var".toList ++ (v.scope.repr.toList ++ v.name.value.toList) := by
  unfold mangled
  rw [String.toList_append, String.toList_append, List.append_assoc]

/-- The name in the code gives back the number of the scope and the name. -/
theorem Variable.key_eq_of_mangled_eq {v v' : Variable} (hv : IsWord v.name.value.toList)
    (hv' : IsWord v'.name.value.toList) (h : v.mangled = v'.mangled) : v.key = v'.key := by
  have hlist := congrArg String.toList h
  rw [toList_mangled, toList_mangled, List.append_cancel_left_eq] at hlist
  have hdigits := congrArg (List.takeWhile isDigit) hlist
  rw [takeWhile_isDigit_append _ hv, takeWhile_isDigit_append _ hv'] at hdigits
  rw [hdigits, List.append_cancel_left_eq] at hlist
  exact Prod.ext (eq_of_repr_eq hdigits) (String.toList_injective hlist)

-- A name that began with a digit could be taken for a part of the number.
example : Variable.mangled ⟨⟨"1x", {}⟩, .string, none, 1⟩ =
    Variable.mangled ⟨⟨"x", {}⟩, .string, none, 11⟩ := by decide

/-- The variables of a program have names of their own in the code. -/
theorem Program.nodup_mangled {cs : List (Char × Position)} {tokens : List (Located Token)}
    {p : Program} (hs : scan cs = .ok tokens) (hp : Program.parse tokens = .ok p) :
    (p.cells.map Variable.mangled).Nodup := by
  have hkeys := (Program.wellScoped_of_parse hp).nodup_keys
  obtain ⟨d, rfl, -, rfl⟩ := Program.parse_eq_ok_iff.1 hp
  have hwords := Prog.isWord_of_mem_cells (spelled_of_scan hs)
  refine List.pairwise_map.2 ((List.pairwise_map.1 hkeys).imp_of_mem ?_)
  intro v v' hv hv' hne h
  exact hne (Variable.key_eq_of_mangled_eq (hwords v hv) (hwords v' hv') h)

/-! ## Registers, labels and numerals -/

theorem Label.eq_of_text_eq {l l' : Label} (h : l.text = l'.text) : l = l' := by
  have hlist := congrArg String.toList h
  unfold Label.text at hlist
  rw [String.toList_append, String.toList_append, List.append_cancel_left_eq] at hlist
  exact congrArg Label.mk (eq_of_repr_eq hlist)

namespace Tiny

/-- Whether a word of a listing is a numeral: it begins with a digit or the dot. -/
def isNumeral (word : String) : Bool := word.toList.head?.any fun c => isDigit c || c == '.'

theorem register_text (t : Temp) : (register t).text.toList = 'r' :: t.index.repr.toList := by
  show ("r" ++ t.index.repr).toList = _
  rw [String.toList_append]
  rfl

theorem eq_of_register_text_eq {t t' : Temp} (h : (register t).text = (register t').text) :
    t = t' := by
  have hlist := congrArg String.toList h
  rw [register_text, register_text, List.cons.injEq] at hlist
  exact congrArg Temp.mk (eq_of_repr_eq hlist.2)

theorem register_text_ne_mangled (t : Temp) (v : Variable) : (register t).text ≠ v.mangled := by
  intro h
  have hlist := congrArg String.toList h
  rw [register_text, Variable.toList_mangled] at hlist
  exact absurd (List.cons.inj hlist).1 (by decide)

theorem isNumeral_register (t : Temp) : isNumeral (register t).text = false := by
  unfold isNumeral
  rw [register_text]
  rfl

theorem isNumeral_mangled (v : Variable) : isNumeral v.mangled = false := by
  unfold isNumeral
  rw [Variable.toList_mangled]
  rfl

theorem isNumeral_of_isNumeral {digits : String} (h : IsNumeral digits.toList) :
    isNumeral digits = true := by
  obtain ⟨c, rest, hlist, hc⟩ := h.head
  unfold isNumeral
  rw [hlist]
  simpa using hc

end Tiny

end LittleTiny
