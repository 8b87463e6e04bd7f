import LittleTiny.Command.Machine
import LittleTiny.Proofs.Command.Arguments

/-!
# What saving changes

When a text is saved under a name, the file at the place of this name has the text as its content,
and every other file is as it was. A new file makes nothing of what was a directory and turns no
name on the way to it aside (`Files.goal_put`), so that the same name then leads to the text
(`Files.toRead_put`).
-/

namespace LittleTiny.Command

/-- The path of a file that is there or can be made there. -/
def Place.path? : Place → Option Path
  | directory _ => none
  | file path _ => some path
  | device _ => none
  | vacant path => some path

namespace Files

section

variable (fs : Files) (path : Path) (content : ByteArray)

theorem content?_put_self : (fs.put path content).content? path = some content :=
  List.lookup_cons_self

theorem content?_put_of_ne {other : Path} (h : other ≠ path) :
    (fs.put path content).content? other = fs.content? other := by
  have hother : (other == path) = false := by simpa using h
  rw [content?, put, List.lookup_cons, hother]
  induction fs with
  | nil => rfl
  | cons f fs ih =>
    obtain ⟨first, c⟩ := f
    by_cases hfirst : first = path
    · subst hfirst
      simpa [content?, List.lookup_cons, hother] using ih
    · simp only [content?, bne_iff_ne, ne_eq, hfirst, not_false_eq_true, List.filter_cons_of_pos,
        List.lookup_cons] at ih ⊢
      rw [ih]

/-! ## Directories -/

theorem isDirectory_put {directory : Path} (h : fs.isDirectory directory) :
    (fs.put path content).isDirectory directory := by
  simp only [isDirectory, Bool.or_eq_true, List.any_eq_true] at h ⊢
  refine h.imp_right ?_
  rintro ⟨f, hf, hinside⟩
  by_cases hpath : f.1 = path
  · subst hpath
    exact ⟨(f.1, content), List.mem_cons_self, hinside⟩
  · exact ⟨f, List.mem_cons_of_mem _ (List.mem_filter.2 ⟨hf, by simpa using hpath⟩), hinside⟩

/-- A file is no directory because of itself. -/
theorem isDirectory_put_self (h : fs.isDirectory path = false) :
    (fs.put path content).isDirectory path = false := by
  simp only [isDirectory, Bool.or_eq_false_iff, List.any_eq_false] at h ⊢
  refine ⟨h.1, ?_⟩
  intro f hf
  rcases List.mem_cons.1 hf with rfl | hf
  · simp
  · exact h.2 f (List.mem_filter.1 hf).1

theorem isDirectory_of_placeAt {p q : Path} (h : fs.placeAt p = .directory q) :
    fs.isDirectory p ∧ q = p := by
  unfold placeAt at h
  split at h
  · next hdirectory =>
    cases h
    exact ⟨hdirectory, rfl⟩
  · split at h
    · cases h
    · split at h <;> cases h

theorem find_put {here directory : Path} {name : String}
    (h : fs.find here name = .ok (.directory directory)) :
    (fs.put path content).find here name = .ok (.directory directory) := by
  unfold find at h ⊢
  split at h
  · cases h
  · next hname =>
    obtain ⟨hdirectory, rfl⟩ := fs.isDirectory_of_placeAt (Except.ok.inj h)
    rw [if_neg hname]
    exact congrArg Except.ok (if_pos (fs.isDirectory_put path content hdirectory))

theorem enter_put {here next : Path} {name : String} (h : fs.enter here name = .ok next) :
    (fs.put path content).enter here name = .ok next := by
  unfold enter at h ⊢
  split at h
  · next hname =>
    rw [if_pos hname]
    exact h
  · next hname =>
    rw [if_neg hname]
    split at h
    · next hname =>
      rw [if_pos hname]
      exact h
    · next hname =>
      rw [if_neg hname]
      split at h
      · cases h
      · next directory hfind =>
        rw [fs.find_put path content hfind]
        exact h
      · cases h
      · cases h

/-! ## Names on the way -/

theorem follow_put {slash : Bool} {goal : Goal} (names : List String) : ∀ {here : Path},
    fs.follow slash here names = .ok goal →
    (fs.put path content).follow slash here names = .ok goal := by
  induction names with
  | nil => exact fun h => h
  | cons name rest ih =>
    intro here h
    cases rest with
    | nil =>
      unfold follow at h ⊢
      split at h
      · next hname =>
        rw [if_pos hname]
        cases henter : fs.enter here name with
        | error e =>
          rw [henter] at h
          cases h
        | ok next =>
          rw [henter] at h
          rw [fs.enter_put path content henter]
          exact h
      · next hname =>
        rw [if_neg hname]
        exact h
    | cons second rest =>
      unfold follow at h ⊢
      split at h
      · cases h
      · next next henter =>
        rw [fs.enter_put path content henter]
        exact ih h

/-- A name leads to where it has led before. -/
theorem goal_put {name : String} {goal : Goal} (h : fs.goal name = .ok goal) :
    (fs.put path content).goal name = .ok goal := by
  unfold Files.goal at h ⊢
  split at h
  · cases h
  · next hempty =>
    rw [if_neg hempty]
    split at h
    · cases h
    · next hlong =>
      rw [if_neg hlong]
      exact fs.follow_put path content _ h

end

/-! ## Reading what was written -/

section

variable {fs : Files} {name : String} {place : Place}

/-- A name that can be written to is the name of an entry of a directory. -/
theorem exists_entry_of_toWrite (h : fs.toWrite name = .ok place) :
    ∃ here entry, fs.goal name = .ok (.entry here entry false) ∧
      fs.find here entry = .ok place ∧ ∀ path, place ≠ .directory path := by
  unfold toWrite at h
  split at h
  · cases h
  · cases h
  · cases h
  · next here entry hgoal =>
    refine ⟨here, entry, hgoal, ?_⟩
    split at h
    · cases h
    · cases h
    · next path hfind =>
      split at h
      · cases h
        exact ⟨hfind, fun _ => Place.noConfusion⟩
      · cases h
    · next place' hdirectory hvacant hfind =>
      cases h
      refine ⟨hfind, ?_⟩
      rintro path rfl
      exact hdirectory path rfl

theorem placeAt_put {p path : Path} (h : (fs.placeAt p).path? = some path) (content : ByteArray) :
    (fs.put path content).placeAt p = .file path content := by
  unfold placeAt at h
  split at h
  · cases h
  · next hdirectory =>
    split at h
    · cases h
    · next hdevice =>
      obtain rfl : p = path := by
        split at h <;> exact Option.some.inj h
      have hnone : (fs.put p content).isDirectory p = false :=
        fs.isDirectory_put_self p content (by simpa using hdirectory)
      unfold placeAt
      rw [hnone, hdevice, content?_put_self]
      rfl

/-- The name under which a content was saved leads to this content. -/
theorem toRead_put {path : Path} (h : fs.toWrite name = .ok place) (hpath : place.path? = some path)
    (content : ByteArray) : (fs.put path content).toRead name = .ok (.file path content) := by
  obtain ⟨here, entry, hgoal, hfind, -⟩ := exists_entry_of_toWrite h
  have hnew : (fs.put path content).find here entry = .ok (.file path content) := by
    unfold find at hfind ⊢
    split at hfind
    · cases hfind
    · next hname =>
      cases hfind
      rw [if_neg hname]
      exact congrArg Except.ok (placeAt_put hpath content)
  unfold toRead
  rw [fs.goal_put path content hgoal]
  simp only [hnew]
  rfl

end

end Files

end LittleTiny.Command
