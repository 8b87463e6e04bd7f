import LittleTiny.Proofs.Lines

/-!
# Lines of bytes

Bytes are cut at their newlines and then decoded line by line, while a text is cut when it is
decoded already. Both ways lead to the same lines (`Source.ofBytes_eq_ok_iff`), since the byte of a
newline stands in the encoding of no other character (`Source.newline_notMem_encode`).
-/

namespace LittleTiny

theorem exists_of_bind_eq_ok {ε α β : Type} {x : Except ε α} {f : α → Except ε β} {b : β}
    (h : x >>= f = .ok b) : ∃ a, x = .ok a ∧ f a = .ok b := by
  cases x with
  | error e => cases h
  | ok a => exact ⟨a, rfl, h⟩

theorem exists_of_toOption_bind {ε α β : Type} {x : Except ε α} {f : α → Option β} {b : β}
    (h : x.toOption.bind f = some b) : ∃ a, x = .ok a ∧ f a = some b := by
  cases x with
  | error e => cases h
  | ok a => exact ⟨a, rfl, h⟩

/-- Something is made of every item of a list that is made of another one. -/
theorem mapM_map_eq_some {α β γ : Type} {f : α → β} {g : β → Option γ} {r : α → γ} {xs : List α}
    (h : ∀ x ∈ xs, g (f x) = some (r x)) : (xs.map f).mapM g = some (xs.map r) := by
  induction xs with
  | nil => rfl
  | cons x xs ih =>
    obtain ⟨hx, hxs⟩ := List.forall_mem_cons.1 h
    rw [List.map_cons, List.mapM_cons, hx, ih hxs]
    rfl

namespace Source

/-- The bytes of a text. -/
def encode (cs : List Char) : List UInt8 := cs.flatMap String.utf8EncodeChar

theorem encode_nil : encode [] = [] := rfl

theorem encode_append (cs cs' : List Char) : encode (cs ++ cs') = encode cs ++ encode cs' :=
  List.flatMap_append ..

theorem isEmpty_encode (cs : List Char) : (encode cs).isEmpty = cs.isEmpty := by
  cases cs with
  | nil => rfl
  | cons c cs => simp [encode]

theorem mod_eq_of_eq_ofNat {n : Nat} (h : 10 = UInt8.ofNat n) : n % 256 = 10 := by
  simpa using (congrArg UInt8.toNat h).symm

/-- The bytes of a character that takes more than one are none of the first 128. -/
theorem eq_newline_of_mem_utf8EncodeChar {c : Char} (h : 10 ∈ String.utf8EncodeChar c) :
    c = '\n' := by
  have hval : c.val.toNat = 10 := by
    revert h
    fun_cases String.utf8EncodeChar c with
    | case1 v hv =>
      intro h
      have hmod := mod_eq_of_eq_ofNat (List.mem_singleton.1 h)
      omega
    | case2 v h1 h2 =>
      intro h
      simp only [List.mem_cons, List.not_mem_nil, or_false] at h
      rcases h with h | h <;> have hmod := mod_eq_of_eq_ofNat h <;> omega
    | case3 v h1 h2 h3 =>
      intro h
      simp only [List.mem_cons, List.not_mem_nil, or_false] at h
      rcases h with h | h | h <;> have hmod := mod_eq_of_eq_ofNat h <;> omega
    | case4 v h1 h2 h3 =>
      intro h
      simp only [List.mem_cons, List.not_mem_nil, or_false] at h
      rcases h with h | h | h | h <;> have hmod := mod_eq_of_eq_ofNat h <;> omega
  exact Char.ext (UInt32.toNat_inj.1 hval)

theorem newline_notMem_encode {cs : List Char} (h : '\n' ∉ cs) : 10 ∉ encode cs := by
  intro hmem
  obtain ⟨c, hc, hbyte⟩ := List.mem_flatMap.1 hmem
  rw [eq_newline_of_mem_utf8EncodeChar hbyte] at hc
  exact h hc

/-! ## One line -/

theorem fromUTF8?_encode (cs : List Char) :
    String.fromUTF8? (encode cs).toByteArray = some (String.ofList cs) :=
  dif_pos (.intro cs rfl)

theorem decodeLine_closed (line : List Char) :
    decodeLine (encode (line.reverse ++ ['\n'])) = .ok (String.ofList (closeLine line)) := by
  simp [decodeLine, fromUTF8?_encode]

theorem decodeLine_open {line : List Char} (h : '\n' ∉ line) :
    decodeLine (encode line.reverse) = .ok (String.ofList line.reverse) := by
  simp only [decodeLine, fromUTF8?_encode, String.toList_ofList, List.reverse_reverse]
  split
  · simp at h
  · rfl

theorem exists_encode_of_decodeLine {bytes : List UInt8} {line : String}
    (h : decodeLine bytes = .ok line) : ∃ cs, bytes = encode cs := by
  unfold decodeLine String.fromUTF8? at h
  by_cases hvalid : bytes.toByteArray.IsValidUTF8
  · obtain ⟨cs, hcs⟩ := hvalid
    have hlist := congrArg (fun b : ByteArray => b.data.toList) hcs
    exact ⟨cs, by simpa [List.utf8Encode, encode] using hlist⟩
  · rw [dif_neg hvalid] at h
    cases h

/-! ## All lines -/

theorem splitBytesFrom_append {part : List UInt8} (h : 10 ∉ part) (line rest : List UInt8) :
    splitBytesFrom line (part ++ rest) = splitBytesFrom (part.reverse ++ line) rest := by
  induction part generalizing line with
  | nil => rfl
  | cons b part ih =>
    obtain ⟨hb, hpart⟩ := not_or.1 (mt List.mem_cons.2 h)
    rw [List.cons_append, splitBytesFrom, if_neg (Ne.symm hb), ih hpart]
    simp

theorem flatten_splitBytesFrom (line bytes : List UInt8) :
    (splitBytesFrom line bytes).flatten = line.reverse ++ bytes := by
  induction bytes generalizing line with
  | nil =>
    rw [splitBytesFrom]
    split
    · next hempty => simp [List.isEmpty_iff.1 hempty]
    · simp
  | cons b bytes ih =>
    rw [splitBytesFrom]
    split
    · simp [ih]
    · simp [ih]

/-- Cutting the bytes of a text and decoding the lines gives the lines of the text. -/
theorem mapM_decodeLine_encode (text : List Char) {line : List Char} (h : '\n' ∉ line) :
    (splitBytesFrom (encode line.reverse).reverse (encode text)).mapM decodeLine =
      .ok ((splitFrom line text).map String.ofList) := by
  induction text generalizing line with
  | nil =>
    rw [encode_nil, splitBytesFrom, List.isEmpty_reverse, isEmpty_encode, List.isEmpty_reverse,
      splitFrom]
    split
    · rfl
    · rw [List.reverse_reverse, List.mapM_cons, decodeLine_open h]
      rfl
  | cons c text ih =>
    by_cases hc : c = '\n'
    · -- The newline is one byte, which ends the line of bytes too.
      subst hc
      have hnewline : encode ('\n' :: text) = 10 :: encode text := rfl
      have hline : (10 :: (encode line.reverse).reverse).reverse =
          encode (line.reverse ++ ['\n']) := by
        rw [encode_append, List.reverse_cons, List.reverse_reverse]
        rfl
      have hrest := @ih [] List.not_mem_nil
      rw [List.reverse_nil, encode_nil, List.reverse_nil] at hrest
      rw [hnewline, splitBytesFrom, if_pos rfl, hline, List.mapM_cons, decodeLine_closed, hrest,
        splitFrom, if_pos rfl]
      rfl
    · have hmore : '\n' ∉ c :: line := by simp [Ne.symm hc, h]
      have hbytes : 10 ∉ encode [c] := newline_notMem_encode (by simpa using Ne.symm hc)
      have hline : (encode [c]).reverse ++ (encode line.reverse).reverse =
          (encode (c :: line).reverse).reverse := by
        rw [List.reverse_cons, encode_append, List.reverse_append]
      rw [← List.singleton_append, encode_append, splitBytesFrom_append hbytes, hline, ih hmore,
        List.singleton_append, splitFrom, if_neg hc]

theorem exists_encode_of_mapM {pieces : List (List UInt8)} : ∀ {lines : List String},
    pieces.mapM decodeLine = .ok lines → ∃ cs, pieces.flatten = encode cs := by
  induction pieces with
  | nil => exact fun _ => ⟨[], rfl⟩
  | cons piece pieces ih =>
    intro lines h
    rw [List.mapM_cons] at h
    obtain ⟨line, hpiece, h⟩ := exists_of_bind_eq_ok h
    obtain ⟨rest, hpieces, -⟩ := exists_of_bind_eq_ok h
    obtain ⟨cs, rfl⟩ := exists_encode_of_decodeLine hpiece
    obtain ⟨cs', hcs'⟩ := ih hpieces
    exact ⟨cs ++ cs', by rw [List.flatten_cons, hcs', encode_append]⟩

/-! ## Sources -/

theorem data_toUTF8 (text : String) : text.toUTF8.data.toList = encode text.toList := by
  obtain ⟨cs, rfl⟩ : ∃ cs, text = String.ofList cs := ⟨text.toList, by simp⟩
  simp [List.utf8Encode, encode]

/-- The bytes of a text have the lines of the text. -/
theorem ofBytes_toUTF8 (name text : String) :
    ofBytes name text.toUTF8 = .ok (ofText name text) := by
  have hlines := @mapM_decodeLine_encode text.toList [] List.not_mem_nil
  rw [List.reverse_nil, encode_nil, List.reverse_nil] at hlines
  rw [ofBytes, data_toUTF8, hlines]
  rfl

/-- Only the bytes of texts make sources. -/
theorem exists_text_of_ofBytes {name : String} {bytes : ByteArray} {s : Source}
    (h : ofBytes name bytes = .ok s) : ∃ text : String, text.toUTF8 = bytes := by
  obtain ⟨lines, hlines, -⟩ := exists_of_bind_eq_ok h
  obtain ⟨cs, hcs⟩ := exists_encode_of_mapM hlines
  rw [flatten_splitBytesFrom] at hcs
  refine ⟨String.ofList cs, ByteArray.ext (Array.toList_inj.1 ?_)⟩
  rw [data_toUTF8, String.toList_ofList, ← hcs]
  rfl

theorem ofBytes_eq_ok_iff {name : String} {bytes : ByteArray} {s : Source} :
    ofBytes name bytes = .ok s ↔ ∃ text : String, text.toUTF8 = bytes ∧ s = ofText name text := by
  constructor
  · intro h
    obtain ⟨text, rfl⟩ := exists_text_of_ofBytes h
    rw [ofBytes_toUTF8] at h
    exact ⟨text, rfl, (Except.ok.inj h).symm⟩
  · rintro ⟨text, rfl, rfl⟩
    exact ofBytes_toUTF8 name text

end Source

end LittleTiny
