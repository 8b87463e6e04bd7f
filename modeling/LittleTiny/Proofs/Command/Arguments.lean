import LittleTiny.Command.Arguments
import LittleTiny.Proofs.Bytes
import Mathlib.Data.List.TakeWhile

/-!
# Flags on the command line

If the arguments ask for a compilation, its options have the flags that are among them
(`Command.flags_of_arguments`). Behind the argument `--` there are no flags.
-/

namespace LittleTiny.Command

/-- The arguments that can be options. -/
def optionArguments (arguments : List String) : List String := arguments.takeWhile (· != "--")

/-- How often the three flags for listings have been met. -/
structure FlagCount where
  tree : Nat
  noCode : Nat
  noTarget : Nat

namespace FlagCount

/-- The sum of two counts. -/
def add (x y : FlagCount) : FlagCount :=
  ⟨x.tree + y.tree, x.noCode + y.noCode, x.noTarget + y.noTarget⟩

/-- How often the flags are among the arguments. -/
def of (arguments : List String) : FlagCount :=
  ⟨arguments.count "--ast", arguments.count "--no-ir", arguments.count "--no-target"⟩

theorem add_nil (x : FlagCount) : x.add (of []) = x := rfl

theorem add_cons (x : FlagCount) (argument : String) (rest : List String) :
    x.add (of (argument :: rest)) = (x.add (of [argument])).add (of rest) := by
  simp only [add, of, List.count_cons, List.count_nil, mk.injEq]
  omega

/-- Other arguments do not count. -/
theorem of_other {argument : String} (htree : argument ≠ "--ast") (hcode : argument ≠ "--no-ir")
    (htarget : argument ≠ "--no-target") : of [argument] = of [] := by
  simp [of, htree, hcode, htarget]

end FlagCount

/-- The counts of the flags among what has been met. -/
def Seen.flags (s : Seen) : FlagCount := ⟨s.tree, s.noCode, s.noTarget⟩

/-! ## One argument -/

/-- The turn goes on to the next argument with these flags, or answers without a compilation. -/
def Turn.Keeps (flags : FlagCount) : Turn → Prop
  | next s => s.flags = flags
  | value s => s.flags = flags
  | answer request => ∀ options, request ≠ .compile options

theorem keeps_readShort (cs : List Char) : ∀ {s : Seen} {turn : Turn},
    readShort s cs = .ok turn → turn.Keeps s.flags := by
  intro s turn h
  fun_induction readShort s cs with
  | case2 s cs ih => exact ih h
  | case3 | case4 =>
    cases h
    exact fun _ => Request.noConfusion
  | case1 | case5 | case6 | case7 =>
    cases h
    rfl
  | case8 => cases h

/-- Of the long options the flags count, as they are written. -/
theorem keeps_readLong {s : Seen} {name : List Char} {turn : Turn}
    (h : readLong s name = .ok turn) :
    turn.Keeps (s.flags.add (.of [String.ofList ('-' :: '-' :: name)])) := by
  unfold readLong at h
  by_cases hequals : name.contains '='
  · simp only [hequals, if_true] at h
    split at h <;> cases h
  · have hname : name.takeWhile (· != '=') = name := by
      rw [List.takeWhile_eq_self_iff]
      intro c hc
      rw [bne_iff_ne]
      rintro rfl
      exact hequals (List.contains_iff_mem.2 hc)
    have hargument : String.ofList ('-' :: '-' :: name) = "--" ++ String.ofList name :=
      String.toList_injective (by simp)
    simp only [hequals, hname] at h
    rw [hargument]
    generalize String.ofList name = option at h
    split at h
    · cases h
    · next turn' hturn =>
      cases h
      split at hturn <;> cases hturn
      · rfl
      · rfl
      · rfl
      · exact fun _ => Request.noConfusion
      · exact fun _ => Request.noConfusion

theorem flags_addInput {s s' : Seen} {argument : String} (h : s.addInput argument = .ok s') :
    s'.flags = s.flags := by
  unfold Seen.addInput at h
  split at h
  · cases h
    rfl
  · cases h

theorem flags_readInputs (arguments : List String) : ∀ {s s' : Seen},
    readInputs s arguments = .ok s' → s'.flags = s.flags := by
  induction arguments with
  | nil =>
    intro s s' h
    cases h
    rfl
  | cons argument rest ih =>
    intro s s' h
    obtain ⟨next, hadd, hrest⟩ := exists_of_bind_eq_ok h
    exact (ih hrest).trans (flags_addInput hadd)

/-! ## All arguments -/

theorem optionArguments_cons {argument : String} (h : argument ≠ "--") (rest : List String) :
    optionArguments (argument :: rest) = argument :: optionArguments rest :=
  List.takeWhile_cons_of_pos (by simpa using h)

/-- The arguments end in these options, all the flags among them having been met. -/
def Counted (flags : FlagCount) (arguments : List String) (options : Options) : Prop :=
  ∃ last : Seen, last.finish = .ok options ∧
    last.flags = flags.add (.of (optionArguments arguments))

theorem Counted.cons {flags : FlagCount} {argument : String} {rest : List String}
    {options : Options} (hargument : argument ≠ "--")
    (h : Counted (flags.add (.of [argument])) rest options) :
    Counted flags (argument :: rest) options := by
  obtain ⟨last, hfinish, hflags⟩ := h
  refine ⟨last, hfinish, ?_⟩
  rw [optionArguments_cons hargument, FlagCount.add_cons, hflags]

/-- An argument that is no flag is passed over. -/
theorem Counted.skip {flags : FlagCount} {argument : String} {rest : List String}
    {options : Options} (hargument : ∀ name, argument.toList ≠ '-' :: '-' :: name)
    (h : Counted flags rest options) : Counted flags (argument :: rest) options := by
  have hne : ∀ (word : String) (name : List Char), word.toList = '-' :: '-' :: name →
      argument ≠ word := by
    rintro word name hword rfl
    exact hargument name hword
  apply Counted.cons (hne "--" _ rfl)
  rw [FlagCount.of_other (hne "--ast" _ rfl) (hne "--no-ir" _ rfl) (hne "--no-target" _ rfl),
    FlagCount.add_nil]
  exact h

theorem counted_of_readFrom (arguments : List String) : ∀ {s : Seen} {pending : Bool}
    {options : Options}, readFrom s pending arguments = .ok (.compile options) →
    Counted s.flags arguments options := by
  induction arguments with
  | nil =>
    intro s pending options h
    obtain ⟨o, hfinish, ho⟩ := exists_of_bind_eq_ok h
    cases ho
    exact ⟨s, hfinish, rfl⟩
  | cons argument rest ih =>
    intro s pending options h
    rw [readFrom] at h
    split at h
    · next hargument =>
      -- Behind `--` there are inputs only.
      obtain rfl : argument = "--" := String.toList_injective hargument
      obtain ⟨last, hinputs, h⟩ := exists_of_bind_eq_ok h
      obtain ⟨o, hfinish, ho⟩ := exists_of_bind_eq_ok h
      cases ho
      exact ⟨last, hfinish, flags_readInputs rest hinputs⟩
    · next name hne hargument =>
      have hother : argument ≠ "--" := by
        rintro rfl
        exact hne (by simpa using hargument.symm)
      apply Counted.cons hother
      obtain ⟨turn, hturn, h⟩ := exists_of_bind_eq_ok h
      have hkeeps := keeps_readLong hturn
      rw [← hargument, String.ofList_toList] at hkeeps
      cases turn with
      | next s' => exact hkeeps ▸ ih h
      | value s' => exact hkeeps ▸ ih h
      | answer request => exact absurd (Except.ok.inj h) (hkeeps options)
    · next c cs hne hlong hargument =>
      have hshort : ∀ name, argument.toList ≠ '-' :: '-' :: name := by
        intro name h
        rw [hargument] at h
        exact hlong (List.cons.inj (List.cons.inj h).2).1
      apply Counted.skip hshort
      obtain ⟨turn, hturn, h⟩ := exists_of_bind_eq_ok h
      have hkeeps := keeps_readShort (c :: cs) hturn
      cases turn with
      | next s' => exact hkeeps ▸ ih h
      | value s' => exact hkeeps ▸ ih h
      | answer request => exact absurd (Except.ok.inj h) (hkeeps options)
    · next hlong _ =>
      apply Counted.skip hlong
      split at h
      · show Counted (s.setOutput argument).flags rest options
        exact ih h
      · obtain ⟨s', hadd, h⟩ := exists_of_bind_eq_ok h
        exact flags_addInput hadd ▸ ih h

theorem flags_of_finish {s : Seen} {options : Options} (h : s.finish = .ok options) :
    options.tree = (s.tree != 0) ∧ options.noCode = (s.noCode != 0) ∧
      options.noTarget = (s.noTarget != 0) := by
  unfold Seen.finish at h
  -- Whatever `-o` says, the flags are the same.
  repeat' split at h
  all_goals cases h
  all_goals exact ⟨rfl, rfl, rfl⟩

/-- The options of a compilation have the flags that are among the arguments. -/
theorem flags_of_arguments {arguments : List String} {options : Options}
    (h : Request.ofArguments arguments = .ok (.compile options)) :
    (options.tree ↔ "--ast" ∈ optionArguments arguments) ∧
      (options.noCode ↔ "--no-ir" ∈ optionArguments arguments) ∧
      (options.noTarget ↔ "--no-target" ∈ optionArguments arguments) := by
  obtain ⟨last, hfinish, hflags⟩ := counted_of_readFrom arguments h
  obtain ⟨htree, hcode, htarget⟩ := flags_of_finish hfinish
  have hlast : last.flags = .of (optionArguments arguments) := by
    rw [hflags]
    simp [Seen.flags, FlagCount.add, FlagCount.of]
  simp only [Seen.flags, FlagCount.of, FlagCount.mk.injEq] at hlast
  obtain ⟨htrees, hcodes, htargets⟩ := hlast
  rw [htree, hcode, htarget, htrees, hcodes, htargets]
  simp [List.count_eq_zero]

end LittleTiny.Command
