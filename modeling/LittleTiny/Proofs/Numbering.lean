import LittleTiny.Proofs.Lowered
import Mathlib.Data.List.Intervals

/-!
# The numbers of temporaries and labels

Lowering takes the numbers of temporaries and labels from a supply. The instructions of the code use
exactly those that are taken, each of them once in every role: every temporary is set once and read
once, and every label stands in the code once and is gone to once. The order of the code is not the
order in which the numbers are taken, so that what is counted is said up to order (`Covers`).
-/

namespace LittleTiny

/-! ## Ranges of numbers -/

/-- The numbers are those from `a` to `b`, without `b`, each of them once. -/
structure Covers (ns : List Nat) (a b : Nat) : Prop where
  le : a ≤ b
  perm : ns.Perm (List.Ico a b)

namespace Covers

variable {ms ns : List Nat} {a b c n : Nat}

theorem nil (a : Nat) : Covers [] a a := ⟨Nat.le_refl a, by rw [List.Ico.self_empty]⟩

theorem append (h : Covers ms a b) (h' : Covers ns b c) : Covers (ms ++ ns) a c := by
  refine ⟨Nat.le_trans h.le h'.le, ?_⟩
  rw [← List.Ico.append_consecutive h.le h'.le]
  exact h.perm.append h'.perm

theorem cons (h : Covers ns (a + 1) b) : Covers (a :: ns) a b := by
  refine ⟨Nat.le_of_succ_le h.le, ?_⟩
  rw [List.Ico.eq_cons h.le]
  exact h.perm.cons a

theorem single (a : Nat) : Covers [a] a (a + 1) := (nil (a + 1)).cons

theorem of_perm (h : Covers ns a b) (hp : ms.Perm ns) : Covers ms a b := ⟨h.le, hp.trans h.perm⟩

theorem mem_iff (h : Covers ns a b) : n ∈ ns ↔ a ≤ n ∧ n < b := h.perm.mem_iff.trans List.Ico.mem

theorem nodup (h : Covers ns a b) : ns.Nodup := h.perm.nodup_iff.2 (List.Ico.nodup a b)

end Covers

/-! ## Roles -/

namespace Instruction

/-- The numbers of the temporaries that the instruction sets. -/
def sets : Instruction → List Nat
  | arith _ _ _ _ out => [out.index]
  | store _ _ (.temp t) => [t.index]
  | _ => []

/-- The numbers of the temporaries whose values it takes. -/
def takes : Instruction → List Nat
  | arith _ _ lhs rhs _ => [lhs.index, rhs.index]
  | store _ (.temp t) _ => [t.index]
  | branch _ _ lhs rhs _ => [lhs.index, rhs.index]
  | _ => []

/-- The number of the label, if it is one. -/
def marks : Instruction → List Nat
  | label l => [l.index]
  | _ => []

/-- The number of the label that it may go to. -/
def targets : Instruction → List Nat
  | branch _ _ _ _ target => [target.index]
  | jump target => [target.index]
  | _ => []

/-- A label, a jump or a branch. -/
def isControl : Instruction → Bool
  | branch .. => true
  | jump _ => true
  | label _ => true
  | _ => false

theorem marks_eq_nil {i : Instruction} (h : i.isControl = false) : i.marks = [] := by
  cases i with
  | label l => cases h
  | _ => rfl

theorem targets_eq_nil {i : Instruction} (h : i.isControl = false) : i.targets = [] := by
  cases i with
  | branch test of lhs rhs target => cases h
  | jump target => cases h
  | _ => rfl

end Instruction

open Instruction

theorem Scope.flatMap_declaration {f : Instruction → List Nat} (hf : ∀ s, f (.declare s) = [])
    (scope : Scope) : scope.declaration.flatMap f = [] := by
  unfold declaration
  split
  · rfl
  · rw [List.flatMap_singleton, hf]

/-! ## Expressions and conditions -/

/-- An instruction behind the code of its two operands takes the values of both. -/
theorem perm_operands (ms ns : List Nat) (m n : Nat) :
    (ms ++ ns ++ [m, n]).Perm (m :: ms ++ n :: ns) := by
  rw [List.perm_iff_count]
  intro x
  simp only [List.count_append, List.count_cons, List.count_nil, List.cons_append]
  omega

section

variable {env : Frames} {e : Expr} {c : Condition} {target : Label} {n n' : Nat} {k : NumClass}
  {code : Code}

theorem Expr.Lowered.covers_sets (h : e.Lowered env n k code n') :
    Covers (code.flatMap sets) n n' := by
  induction h with
  | @int digits l n => exact .single n
  | @float digits l n => exact .single n
  | @var name l n of v hv => exact .single n
  | @binary op lhs rhs l n n₁ n₂ k k' a b ha hb iha ihb =>
    rw [List.flatMap_append, List.flatMap_append]
    exact (iha.append ihb).cons.of_perm (List.perm_append_singleton n _)

/-- The temporary of the value itself is not read by the code of the expression. -/
theorem Expr.Lowered.covers_takes (h : e.Lowered env n k code n') :
    Covers (code.flatMap takes) (n + 1) n' := by
  induction h with
  | @int digits l n => exact .nil (n + 1)
  | @float digits l n => exact .nil (n + 1)
  | @var name l n of v hv => exact .nil (n + 1)
  | @binary op lhs rhs l n n₁ n₂ k k' a b ha hb iha ihb =>
    refine (iha.cons.append ihb.cons).of_perm ?_
    rw [List.flatMap_append, List.flatMap_append]
    exact perm_operands _ _ (n + 1) n₁

theorem Expr.Lowered.isControl_eq_false (h : e.Lowered env n k code n') :
    ∀ i ∈ code, i.isControl = false := by
  induction h with
  | int => simp [isControl]
  | float => simp [isControl]
  | var => simp [isControl]
  | binary ha hb iha ihb => simpa [isControl, or_imp, forall_and] using ⟨iha, ihb⟩

theorem Expr.Lowered.flatMap_eq_nil (h : e.Lowered env n k code n') {f : Instruction → List Nat}
    (hf : ∀ {i : Instruction}, i.isControl = false → f i = []) : code.flatMap f = [] :=
  List.flatMap_eq_nil_iff.2 fun i hi => hf (h.isControl_eq_false i hi)

theorem Condition.Lowered.covers_sets (h : c.Lowered env target n code n') :
    Covers (code.flatMap sets) n n' := by
  obtain ⟨ha, hb⟩ := h
  rw [List.flatMap_append, List.flatMap_append]
  exact (ha.covers_sets.append hb.covers_sets).append (.nil n')

theorem Condition.Lowered.covers_takes (h : c.Lowered env target n code n') :
    Covers (code.flatMap takes) n n' := by
  obtain @⟨n₁, n₂, k, k', a, b, ha, hb⟩ := h
  refine (ha.covers_takes.cons.append hb.covers_takes.cons).of_perm ?_
  rw [List.flatMap_append, List.flatMap_append]
  exact perm_operands _ _ n n₁

end

/-! ## Statements -/

section

variable {env : Frames} {ss : List Statement} {s s' : Supply} {code : Code}
  {f : Instruction → List Nat}

/-- The temporaries that are taken for statements are covered in a role, if those of an assignment
and those of a condition are. -/
theorem Lowered.covers_temps (hf : ∀ {i : Instruction}, i.sets = [] → i.takes = [] → f i = [])
    (hassign : ∀ {env : Frames} {e : Expr} {n n' : Nat} {k of : NumClass} {v : Variable} {a : Code},
      e.Lowered env n k a n' → Covers (a.flatMap f ++ f (.store of (.temp ⟨n⟩) (.var v))) n n')
    (htest : ∀ {env : Frames} {c : Condition} {target : Label} {n n' : Nat} {test : Code},
      c.Lowered env target n test n' → Covers (test.flatMap f) n n')
    (h : Lowered env ss s code s') : Covers (code.flatMap f) s.temps s'.temps := by
  have hdeclare := Scope.flatMap_declaration (f := f) fun _ => hf rfl rfl
  have hjump : ∀ l, f (.jump l) = [] := fun l => hf rfl rfl
  have hlabel : ∀ l, f (.label l) = [] := fun l => hf rfl rfl
  have hread : ∀ of v, f (.read of v) = [] := fun of v => hf rfl rfl
  have hwrite : ∀ v, f (.write v) = [] := fun v => hf rfl rfl
  induction h with
  | nil => exact .nil _
  | assign hv ha hss ih =>
    rw [List.flatMap_append, List.flatMap_cons, ← List.append_assoc]
    exact (hassign ha).append ih
  | readNil hss ih => exact ih
  | readCons hv hss ih =>
    rw [List.flatMap_cons, hread]
    exact ih
  | writeNil hss ih => exact ih
  | writeCons hv hss ih =>
    rw [List.flatMap_cons, hwrite]
    exact ih
  | ifThen hc hscope hbody hss ihbody ihss =>
    simp only [List.flatMap_append, List.flatMap_cons, hdeclare, hlabel, List.nil_append]
    exact ((htest hc).append ihbody).append ihss
  | ifElse hc hscope hbody hscope' halternative hss ihbody ihalternative ihss =>
    simp only [List.flatMap_append, List.flatMap_cons, hdeclare, hlabel, hjump, List.nil_append]
    exact ((htest hc).append ihbody).append (ihalternative.append ihss)
  | loop hc hscope hbody hss ihbody ihss =>
    simp only [List.flatMap_append, List.flatMap_cons, hdeclare, hlabel, hjump, List.nil_append]
    exact ((htest hc).append ihbody).append ihss

/-- Every temporary that is taken for statements is set once. -/
theorem Lowered.covers_sets (h : Lowered env ss s code s') :
    Covers (code.flatMap sets) s.temps s'.temps :=
  h.covers_temps (fun hsets _ => hsets) (fun ha => ha.covers_sets.append (.nil _))
    fun hc => hc.covers_sets

/-- Every temporary that is taken for statements is read once. -/
theorem Lowered.covers_takes (h : Lowered env ss s code s') :
    Covers (code.flatMap takes) s.temps s'.temps :=
  h.covers_temps (fun _ htakes => htakes)
    (fun ha => ha.covers_takes.cons.of_perm (List.perm_append_singleton _ _))
    fun hc => hc.covers_takes

/-- The labels that are taken for statements are covered in a role, if a branch or a jump and the
label that it goes to have, between the two of them, this role once. -/
theorem Lowered.covers_labels (hf : ∀ {i : Instruction}, i.isControl = false → f i = [])
    (hbranch : ∀ {test : Comparison} {of : NumClass} {lhs rhs : Temp} {l : Label},
      f (.branch test of lhs rhs l) ++ f (.label l) = [l.index])
    (hjump : ∀ {l : Label}, f (.jump l) ++ f (.label l) = [l.index])
    (h : Lowered env ss s code s') : Covers (code.flatMap f) s.labels s'.labels := by
  have hdeclare := Scope.flatMap_declaration (f := f) fun _ => hf rfl
  have htest : ∀ {env : Frames} {c : Condition} {l : Label} {n n' : Nat} {test : Code},
      c.Lowered env l n test n' →
      Covers (test.flatMap f ++ f (.label l)) l.index (l.index + 1) := by
    rintro env c l n n' test ⟨ha, hb⟩
    rw [List.flatMap_append, List.flatMap_append, ha.flatMap_eq_nil hf, hb.flatMap_eq_nil hf,
      List.flatMap_singleton, List.nil_append, List.nil_append, hbranch]
    exact .single _
  have hjump : ∀ l : Label, Covers (f (.jump l) ++ f (.label l)) l.index (l.index + 1) := by
    intro l
    rw [hjump]
    exact .single _
  induction h with
  | nil => exact .nil _
  | assign hv ha hss ih =>
    rw [List.flatMap_append, ha.flatMap_eq_nil hf, List.flatMap_cons, hf rfl]
    exact ih
  | readNil hss ih => exact ih
  | readCons hv hss ih =>
    rw [List.flatMap_cons, hf rfl]
    exact ih
  | writeNil hss ih => exact ih
  | writeCons hv hss ih =>
    rw [List.flatMap_cons, hf rfl]
    exact ih
  | ifThen hc hscope hbody hss ihbody ihss =>
    -- The branch stands in front of the block and its label behind it, and their number is taken
    -- before those of the block: the order differs, and nothing else.
    refine ((htest hc).append (ihbody.append ihss)).of_perm (List.perm_iff_count.2 fun l => ?_)
    simp only [List.flatMap_append, List.flatMap_cons, hdeclare, List.count_append, List.count_nil]
    omega
  | @ifElse env c body alternative ss s s₁ s₂ s' test then_ else_ rest n hc hscope hbody hscope'
      halternative hss ihbody ihalternative ihss =>
    have hinner := ihbody.append (ihalternative.append ihss)
    refine ((htest hc).append ((hjump ⟨s.labels + 1⟩).append hinner)).of_perm
      (List.perm_iff_count.2 fun l => ?_)
    simp only [List.flatMap_append, List.flatMap_cons, hdeclare, List.count_append, List.count_nil]
    omega
  | @loop env c body ss s s₁ s' test again rest n hc hscope hbody hss ihbody ihss =>
    have hinner := ihbody.append ihss
    refine ((hjump ⟨s.labels⟩).append ((htest hc).append hinner)).of_perm
      (List.perm_iff_count.2 fun l => ?_)
    simp only [List.flatMap_append, List.flatMap_cons, hdeclare, List.count_append, List.count_nil]
    omega

/-- Every label that is taken for statements stands in the code once. -/
theorem Lowered.covers_marks (h : Lowered env ss s code s') :
    Covers (code.flatMap marks) s.labels s'.labels :=
  h.covers_labels marks_eq_nil rfl rfl

theorem Code.map_index_labels (code : Code) : code.labels.map Label.index = code.flatMap marks := by
  induction code with
  | nil => rfl
  | cons i code ih =>
    rw [List.flatMap_cons, ← ih]
    cases i <;> rfl

theorem Lowered.nodup_labels (h : Lowered env ss s code s') : code.labels.Nodup := by
  refine List.Nodup.of_map Label.index ?_
  rw [Code.map_index_labels]
  exact h.covers_marks.nodup

/-- Every label that is taken for statements is gone to once. -/
theorem Lowered.covers_targets (h : Lowered env ss s code s') :
    Covers (code.flatMap targets) s.labels s'.labels :=
  h.covers_labels targets_eq_nil rfl rfl

end

theorem Scope.labels_declaration (scope : Scope) : scope.declaration.labels = [] := by
  unfold declaration
  split <;> rfl

theorem Program.LoweredTo.nodup_labels {p : Program} {main : Function} {body : Code} {s : Supply}
    {code : Code} (h : p.LoweredTo main body s code) : code.labels.Nodup := by
  obtain ⟨-, -, -, rfl, hbody⟩ := h
  rw [Code.labels_append, Code.labels_append, Scope.labels_declaration, Scope.labels_declaration]
  exact hbody.nodup_labels

/-! ## Places -/

/-- The instruction at the place `k` has the number `n` in a role. -/
def Code.Has (code : Code) (role : Instruction → List Nat) (k n : Nat) : Prop :=
  ∃ i, code[k]? = some i ∧ n ∈ role i

/-- A label, a jump or a branch stands at the place. -/
def Code.Control (code : Code) (k : Nat) : Prop := ∃ i, code[k]? = some i ∧ i.isControl = true

section

variable {code : Code} {role : Instruction → List Nat} {k k' n : Nat}

theorem Code.Has.mem (h : code.Has role k n) : n ∈ code.flatMap role := by
  obtain ⟨i, hi, hn⟩ := h
  exact List.mem_flatMap.2 ⟨i, List.mem_of_getElem? hi, hn⟩

/-- A number that occurs once in a role has it at one place. -/
theorem Code.Has.place_eq (hnodup : (code.flatMap role).Nodup) (h : code.Has role k n)
    (h' : code.Has role k' n) : k = k' := by
  obtain ⟨i, hi, hn⟩ := h
  obtain ⟨i', hi', hn'⟩ := h'
  obtain ⟨hk, rfl⟩ := List.getElem?_eq_some_iff.1 hi
  obtain ⟨hk', rfl⟩ := List.getElem?_eq_some_iff.1 hi'
  have hpairwise := List.pairwise_iff_getElem.1 (List.nodup_flatMap.1 hnodup).2
  rcases Nat.lt_trichotomy k k' with hlt | heq | hlt
  · exact absurd hn' (hpairwise k k' hk hk' hlt hn)
  · exact heq
  · exact absurd hn (hpairwise k' k hk' hk hlt hn')

end

end LittleTiny
