import LittleTiny.Proofs.Numbering

/-!
# Lowering preserves meaning

The code of statements runs from its first instruction to behind its last one exactly as the
statements are evaluated. One direction is by induction on the evaluation (`Exec.reaches`), the
other by induction on the number of steps and, inside of it, on the shape of the code
(`Lowered.passesWithin`). Expressions and conditions always come to their end, so that a run that
halts passes through the place behind them.
-/

namespace LittleTiny

universe u

variable {V : Type u} {N : Interpretation V} {code : Code}

/-! ## Straight pieces -/

/-- A temporary that is set has its value, and those before it keep theirs. -/
theorem keeps_update (temps : Temp → V) (n : Nat) (a : V) :
    Function.update temps ⟨n⟩ a ⟨n⟩ = a ∧
      ∀ t : Temp, t.index < n → Function.update temps ⟨n⟩ a t = temps t := by
  refine ⟨Function.update_self _ _ _, fun t ht => Function.update_of_ne ?_ _ _⟩
  rintro rfl
  exact Nat.lt_irrefl n ht

/-- The code of an expression leaves its value in its temporary, and keeps the temporaries before.
-/
theorem Expr.Lowered.reaches {env : Frames} {e : Expr} {n n' : Nat} {k : NumClass} {piece : Code}
    (h : e.Lowered env n k piece n') {place : Nat} (hat : CodeAt code place piece)
    (temps : Temp → V) (w : World V) :
    ∃ temps', Reaches (code.next N) ⟨place, temps, w⟩ ⟨place + piece.length, temps', w⟩ ∧
      e.eval N env w.store = some (k, temps' ⟨n⟩) ∧
        ∀ t : Temp, t.index < n → temps' t = temps t := by
  induction h generalizing place temps with
  | @int digits l n =>
    obtain ⟨hself, hkeep⟩ := keeps_update temps n (N.literal digits)
    refine ⟨_, .of_next (Code.next_eq hat.head temps w), ?_, hkeep⟩
    exact congrArg (fun a => some (NumClass.int, a)) hself.symm
  | @float digits l n =>
    obtain ⟨hself, hkeep⟩ := keeps_update temps n (N.literal digits)
    refine ⟨_, .of_next (Code.next_eq hat.head temps w), ?_, hkeep⟩
    exact congrArg (fun a => some (NumClass.float, a)) hself.symm
  | @var name l n of v hv =>
    obtain ⟨hself, hkeep⟩ := keeps_update temps n (w.store v)
    refine ⟨_, .of_next (Code.next_eq hat.head temps w), ?_, hkeep⟩
    rw [Expr.eval, hv]
    exact congrArg (fun a => some (of, a)) hself.symm
  | @binary op lhs rhs l n n₁ n₂ k k' a b ha hb iha ihb =>
    obtain ⟨temps₁, hr₁, he₁, hkeep₁⟩ := iha hat.left.left temps
    obtain ⟨temps₂, hr₂, he₂, hkeep₂⟩ := ihb hat.left.right temps₁
    have hlhs : temps₂ ⟨n + 1⟩ = temps₁ ⟨n + 1⟩ := hkeep₂ _ ha.lt
    obtain ⟨hself, hkeep⟩ :=
      keeps_update temps₂ n (N.arith op (k.join k') (temps₂ ⟨n + 1⟩) (temps₂ ⟨n₁⟩))
    rw [Nat.add_assoc, ← List.length_append] at hr₂
    rw [List.length_append, List.length_singleton, ← Nat.add_assoc]
    refine ⟨_, (hr₁.trans hr₂).snoc (Code.next_eq hat.right.head temps₂ w), ?_, fun t ht => ?_⟩
    · rw [Expr.eval, he₁, he₂, ← hlhs]
      exact congrArg (fun a => some (k.join k', a)) hself.symm
    · have hlt := ha.lt
      exact (hkeep t ht).trans ((hkeep₂ t (by omega)).trans (hkeep₁ t (by omega)))

/-- The code of a condition goes on behind itself if the condition holds, and to its target if not.
-/
theorem Condition.Lowered.reaches (hN : N.Complementary) {env : Frames} {c : Condition}
    {target : Label} {n n' : Nat} {piece : Code} (h : c.Lowered env target n piece n')
    {place exit : Nat} (hat : CodeAt code place piece) (hexit : code.place? target = some exit)
    (temps : Temp → V) (w : World V) :
    ∃ b temps', c.eval N env w.store = some b ∧ Reaches (code.next N) ⟨place, temps, w⟩
      ⟨if b then place + piece.length else exit, temps', w⟩ := by
  obtain @⟨n₁, n₂, k, k', a, b, ha, hb⟩ := h
  obtain ⟨temps₁, hr₁, he₁, -⟩ := ha.reaches (N := N) hat.left.left temps w
  obtain ⟨temps₂, hr₂, he₂, hkeep₂⟩ := hb.reaches (N := N) hat.left.right temps₁ w
  have hlhs : temps₂ ⟨n⟩ = temps₁ ⟨n⟩ := hkeep₂ _ ha.lt
  rw [Nat.add_assoc, ← List.length_append] at hr₂
  have hnext := Code.next_eq (N := N) hat.right.head temps₂ w
  rw [Instruction.exec, hN] at hnext
  rw [List.length_append, List.length_singleton, ← Nat.add_assoc]
  refine ⟨N.test c.op (k.join k') (temps₂ ⟨n⟩) (temps₂ ⟨n₁⟩), temps₂, ?_, (hr₁.trans hr₂).snoc ?_⟩
  · rw [Condition.eval, he₁, he₂, ← hlhs]
  · rw [hnext]
    cases N.test c.op (k.join k') (temps₂ ⟨n⟩) (temps₂ ⟨n₁⟩) with
    | true => rfl
    | false => simp [Config.jump, hexit]

/-! ## Pieces of statements -/

theorem reaches_assign {env : Frames} {value : Expr} {n n' : Nat} {of k : NumClass} {v : Variable}
    {a rest : Code} (ha : value.Lowered env n k a n') {place : Nat}
    (hat : CodeAt code place (a ++ .store of (.temp ⟨n⟩) (.var v) :: rest)) (temps : Temp → V)
    (w : World V) :
    ∃ x temps', value.eval N env w.store = some (k, x) ∧ Reaches (code.next N) ⟨place, temps, w⟩
      ⟨place + a.length + 1, temps', w.set v x⟩ := by
  obtain ⟨temps', hr, he, -⟩ := ha.reaches (N := N) hat.left temps w
  exact ⟨temps' ⟨n⟩, temps', he, hr.snoc (Code.next_eq hat.right.head temps' w)⟩

theorem next_read {of : NumClass} {v : Variable} {place : Nat} {rest : Code}
    (hat : CodeAt code place (.read of v :: rest)) (temps : Temp → V) (w : World V) :
    code.next N ⟨place, temps, w⟩ = (w.read? N of v).map (⟨place + 1, temps, ·⟩) :=
  Code.next_eq hat.head temps w

/-- The run goes from one place to another, and changes nothing. -/
def Leads (N : Interpretation V) (code : Code) (a b : Nat) : Prop :=
  ∀ (temps : Temp → V) (w : World V), Reaches (code.next N) ⟨a, temps, w⟩ ⟨b, temps, w⟩

/-- The run goes to the place `yes` if the condition holds, and to `no` if it does not. -/
def Branches (N : Interpretation V) (code : Code) (env : Frames) (c : Condition)
    (place yes no : Nat) : Prop :=
  ∀ (temps : Temp → V) (w : World V), ∃ b temps', c.eval N env w.store = some b ∧
    Reaches (code.next N) ⟨place, temps, w⟩ ⟨if b then yes else no, temps', w⟩

theorem Leads.trans {a b c : Nat} (hab : Leads N code a b) (hbc : Leads N code b c) :
    Leads N code a c :=
  fun temps w => (hab temps w).trans (hbc temps w)

theorem Branches.leads {env : Frames} {c : Condition} {place yes yes' no no' : Nat}
    (h : Branches N code env c place yes no) (hyes : Leads N code yes yes')
    (hno : Leads N code no no') : Branches N code env c place yes' no' := by
  intro temps w
  obtain ⟨b, temps', he, hr⟩ := h temps w
  refine ⟨b, temps', he, hr.trans ?_⟩
  cases b with
  | true => exact hyes temps' w
  | false => exact hno temps' w

theorem Branches.reaches {env : Frames} {c : Condition} {place yes no : Nat}
    (h : Branches N code env c place yes no) {b : Bool} {w : World V}
    (hb : c.eval N env w.store = some b) (temps : Temp → V) :
    ∃ temps', Reaches (code.next N) ⟨place, temps, w⟩ ⟨if b then yes else no, temps', w⟩ := by
  obtain ⟨b', temps', hb', hr⟩ := h temps w
  cases hb.symm.trans hb'
  exact ⟨temps', hr⟩

theorem leads_label {place : Nat} {l : Label} {rest : Code}
    (hat : CodeAt code place (.label l :: rest)) : Leads N code place (place + 1) :=
  fun temps w => .of_next (Code.next_eq hat.head temps w)

theorem leads_jump {place target : Nat} {l : Label} {rest : Code}
    (hat : CodeAt code place (.jump l :: rest)) (htarget : code.place? l = some target) :
    Leads N code place target := by
  intro temps w
  refine .of_next ((Code.next_eq hat.head temps w).trans ?_)
  rw [Instruction.exec, Config.jump, htarget]
  rfl

/-- The declaration of a scope does nothing. -/
theorem leads_declaration {scope : Scope} {place : Nat}
    (hat : CodeAt code place scope.declaration) :
    Leads N code place (place + scope.declaration.length) := by
  unfold Scope.declaration at *
  split
  · exact fun _ _ => .refl _
  · next hne =>
    rw [if_neg hne] at hat
    exact fun temps w => .of_next (Code.next_eq hat.head temps w)

section

variable {env : Frames} {c : Condition} {n n' place : Nat} {test then_ else_ rest : Code}
  {scope scope' : Scope} {l l' : Label}

theorem ifThen_places (hN : N.Complementary) (hn : code.labels.Nodup)
    (hc : c.Lowered env l n test n')
    (hat : CodeAt code place (test ++ (scope.declaration ++ then_) ++ .label l :: rest)) :
    ∃ body next, Branches N code env c place body next ∧ CodeAt code body then_ ∧
      Leads N code (body + then_.length) next ∧ CodeAt code next rest ∧
      next + rest.length =
        place + (test ++ (scope.declaration ++ then_) ++ .label l :: rest).length := by
  have hlabel := hat.right
  have hexit : Leads N code _ _ := leads_label hlabel
  refine ⟨_, _, Branches.leads (hc.reaches hN hat.left.left (Code.place?_eq hn hlabel.head))
    (leads_declaration hat.left.right.left) hexit, hat.left.right.right, ?_, hlabel.tail, ?_⟩
  · convert hexit using 1
    simp only [List.length_append]
    omega
  · simp only [List.length_append, List.length_cons]
    omega

theorem ifElse_places (hN : N.Complementary) (hn : code.labels.Nodup)
    (hc : c.Lowered env l n test n')
    (hat : CodeAt code place (test ++ (scope.declaration ++ then_) ++
      .jump l' :: .label l :: ((scope'.declaration ++ else_) ++ .label l' :: rest))) :
    ∃ body other next, Branches N code env c place body other ∧ CodeAt code body then_ ∧
      Leads N code (body + then_.length) next ∧ CodeAt code other else_ ∧
      Leads N code (other + else_.length) next ∧ CodeAt code next rest ∧
      next + rest.length = place + (test ++ (scope.declaration ++ then_) ++
        .jump l' :: .label l :: ((scope'.declaration ++ else_) ++ .label l' :: rest)).length := by
  have hjump := hat.right
  have hother := hjump.tail
  have hlabel := hother.tail.right
  have hexit : Leads N code _ _ := leads_label hlabel
  have hleave := (leads_jump hjump (Code.place?_eq hn hlabel.head)).trans hexit
  have henter : Leads N code _ _ :=
    (leads_label hother).trans (leads_declaration hother.tail.left.left)
  refine ⟨_, _, _, Branches.leads (hc.reaches hN hat.left.left (Code.place?_eq hn hother.head))
    (leads_declaration hat.left.right.left) henter, hat.left.right.right, ?_,
    hother.tail.left.right, ?_, hlabel.tail, ?_⟩
  · convert hleave using 1
    simp only [List.length_append]
    omega
  · convert hexit using 1
    simp only [List.length_append]
    omega
  · simp only [List.length_append, List.length_cons]
    omega

/-- A loop begins with a label, so that a turn takes a step at least. -/
theorem loop_places (hN : N.Complementary) (hn : code.labels.Nodup)
    (hc : c.Lowered env l' n test n')
    (hat : CodeAt code place (.label l :: (test ++ (scope.declaration ++ then_) ++
      .jump l :: .label l' :: rest))) :
    (∀ (temps : Temp → V) (w : World V),
      code.next N ⟨place, temps, w⟩ = some ⟨place + 1, temps, w⟩) ∧
    ∃ body next, Branches N code env c (place + 1) body next ∧ CodeAt code body then_ ∧
      Leads N code (body + then_.length) place ∧ CodeAt code next rest ∧
      next + rest.length = place + (Instruction.label l :: (test ++ (scope.declaration ++ then_) ++
        .jump l :: .label l' :: rest)).length := by
  have hjump := hat.tail.right
  have hlabel := hjump.tail
  have hback : Leads N code _ _ := leads_jump hjump (Code.place?_eq hn hat.head)
  refine ⟨Code.next_eq hat.head, _, _,
    Branches.leads (hc.reaches hN hat.tail.left.left (Code.place?_eq hn hlabel.head))
      (leads_declaration hat.tail.left.right.left) (leads_label hlabel),
    hat.tail.left.right.right, ?_, hlabel.tail, ?_⟩
  · convert hback using 1
    simp only [List.length_append]
    omega
  · simp only [List.length_append, List.length_cons]
    omega

end

/-! ## From evaluation to runs -/

/-- The code of statements that lead from one world to another runs to its end. -/
theorem Exec.reaches (hN : N.Complementary) (hn : code.labels.Nodup) {env : Frames}
    {ss : List Statement} {w w' : World V} (he : Exec N env ss w w') :
    ∀ {s s' : Supply} {piece : Code} {place : Nat}, Lowered env ss s piece s' →
      CodeAt code place piece → ∀ temps : Temp → V,
      ∃ temps', Reaches (code.next N) ⟨place, temps, w⟩ ⟨place + piece.length, temps', w'⟩ := by
  induction he with
  | nil =>
    intro s s' piece place hl hat temps
    cases hl
    exact ⟨temps, .refl _⟩
  | @assign env target value ss of k v a w w' hv ha hss ih =>
    intro s s' piece place hl hat temps
    cases hl with
    | @assign _ _ _ _ _ _ of' k' v' code' rest n hv' ha' hss' =>
      cases hv.symm.trans hv'
      obtain ⟨x, temps₁, hx, hr₁⟩ := reaches_assign ha' hat temps w
      cases ha.symm.trans hx
      obtain ⟨temps₂, hr₂⟩ := ih hss' hat.right.tail temps₁
      refine ⟨temps₂, ?_⟩
      convert hr₁.trans hr₂ using 2
      simp only [List.length_append, List.length_cons]
      omega
  | readNil hss ih =>
    intro s s' piece place hl hat temps
    cases hl with
    | readNil hss' => exact ih hss' hat temps
  | readCons hv hw hss ih =>
    intro s s' piece place hl hat temps
    cases hl with
    | readCons hv' hss' =>
      cases hv.symm.trans hv'
      obtain ⟨temps', hr⟩ := ih hss' hat.tail temps
      have hstep := (next_read hat temps _).trans (congrArg (Option.map _) hw)
      refine ⟨temps', ?_⟩
      rw [List.length_cons, Nat.add_comm _ 1, ← Nat.add_assoc]
      exact (Reaches.of_next hstep).trans hr
  | writeNil hss ih =>
    intro s s' piece place hl hat temps
    cases hl with
    | writeNil hss' => exact ih hss' hat temps
  | writeCons hv hss ih =>
    intro s s' piece place hl hat temps
    cases hl with
    | writeCons hv' hss' =>
      cases hv.symm.trans hv'
      obtain ⟨temps', hr⟩ := ih hss' hat.tail temps
      refine ⟨temps', ?_⟩
      rw [List.length_cons, Nat.add_comm _ 1, ← Nat.add_assoc]
      exact (Reaches.of_next (Code.next_eq hat.head temps _)).trans hr
  | ifThenTrue hc hbody hss ihbody ihss =>
    intro s s' piece place hl hat temps
    cases hl with
    | ifThen hc' hscope hbody' hss' =>
      obtain ⟨body, next, hbranch, hat₁, hleads, hat₂, hend⟩ := ifThen_places hN hn hc' hat
      obtain ⟨temps₁, hr₁⟩ := hbranch.reaches hc temps
      obtain ⟨temps₂, hr₂⟩ := ihbody hbody' hat₁ temps₁
      obtain ⟨temps₃, hr₃⟩ := ihss hss' hat₂ temps₂
      rw [← hend]
      exact ⟨temps₃, hr₁.trans (hr₂.trans ((hleads temps₂ _).trans hr₃))⟩
  | ifThenFalse hc hss ihss =>
    intro s s' piece place hl hat temps
    cases hl with
    | ifThen hc' hscope hbody' hss' =>
      obtain ⟨body, next, hbranch, -, -, hat₂, hend⟩ := ifThen_places hN hn hc' hat
      obtain ⟨temps₁, hr₁⟩ := hbranch.reaches hc temps
      obtain ⟨temps₂, hr₂⟩ := ihss hss' hat₂ temps₁
      rw [← hend]
      exact ⟨temps₂, hr₁.trans hr₂⟩
  | ifElseTrue hc hbody hss ihbody ihss =>
    intro s s' piece place hl hat temps
    cases hl with
    | ifElse hc' hscope hbody' hscope' halternative hss' =>
      obtain ⟨body, other, next, hbranch, hat₁, hleads, -, -, hat₂, hend⟩ :=
        ifElse_places hN hn hc' hat
      obtain ⟨temps₁, hr₁⟩ := hbranch.reaches hc temps
      obtain ⟨temps₂, hr₂⟩ := ihbody hbody' hat₁ temps₁
      obtain ⟨temps₃, hr₃⟩ := ihss hss' hat₂ temps₂
      rw [← hend]
      exact ⟨temps₃, hr₁.trans (hr₂.trans ((hleads temps₂ _).trans hr₃))⟩
  | ifElseFalse hc hbody hss ihbody ihss =>
    intro s s' piece place hl hat temps
    cases hl with
    | ifElse hc' hscope hbody' hscope' halternative hss' =>
      obtain ⟨body, other, next, hbranch, -, -, hat₁, hleads, hat₂, hend⟩ :=
        ifElse_places hN hn hc' hat
      obtain ⟨temps₁, hr₁⟩ := hbranch.reaches hc temps
      obtain ⟨temps₂, hr₂⟩ := ihbody halternative hat₁ temps₁
      obtain ⟨temps₃, hr₃⟩ := ihss hss' hat₂ temps₂
      rw [← hend]
      exact ⟨temps₃, hr₁.trans (hr₂.trans ((hleads temps₂ _).trans hr₃))⟩
  | loopTrue hc hbody hss ihbody ihss =>
    intro s s' piece place hl hat temps
    -- The rest of the turns starts at the same place, with the same code.
    have hturns := ihss hl hat
    cases hl with
    | loop hc' hscope hbody' hss' =>
      obtain ⟨htop, body, next, hbranch, hat₁, hleads, -, -⟩ := loop_places hN hn hc' hat
      obtain ⟨temps₁, hr₁⟩ := hbranch.reaches hc temps
      obtain ⟨temps₂, hr₂⟩ := ihbody hbody' hat₁ temps₁
      obtain ⟨temps₃, hr₃⟩ := hturns temps₂
      exact ⟨temps₃, (Reaches.of_next (htop temps _)).trans
        (hr₁.trans (hr₂.trans ((hleads temps₂ _).trans hr₃)))⟩
  | loopFalse hc hss ihss =>
    intro s s' piece place hl hat temps
    cases hl with
    | loop hc' hscope hbody' hss' =>
      obtain ⟨htop, body, next, hbranch, -, -, hat₂, hend⟩ := loop_places hN hn hc' hat
      obtain ⟨temps₁, hr₁⟩ := hbranch.reaches hc temps
      obtain ⟨temps₂, hr₂⟩ := ihss hss' hat₂ temps₁
      rw [← hend]
      exact ⟨temps₂, (Reaches.of_next (htop temps _)).trans (hr₁.trans hr₂)⟩

/-! ## From runs to evaluation -/

/-- From the first instruction of the piece, a run that halts in `k` steps or fewer passes the end
of the piece as the statements prescribe. -/
def PassesWithin (N : Interpretation V) (code : Code) (env : Frames) (ss : List Statement)
    (piece : Code) (k : Nat) : Prop :=
  ∀ ⦃n place : Nat⦄ ⦃temps last : Temp → V⦄ ⦃w w' : World V⦄, n ≤ k → CodeAt code place piece →
    steps (code.next N) n ⟨place, temps, w⟩ = some ⟨code.length, last, w'⟩ →
    ∃ m temps' w₁, m ≤ n ∧ Exec N env ss w w₁ ∧
      steps (code.next N) m ⟨place + piece.length, temps', w₁⟩ = some ⟨code.length, last, w'⟩

/-- What is left of a run that halts, from a state that it reaches. -/
theorem exists_steps_of_halts {n : Nat} {a b : Config V} {last : Temp → V} {w' : World V}
    (hr : Reaches (code.next N) a b)
    (hn : steps (code.next N) n a = some ⟨code.length, last, w'⟩) :
    ∃ m ≤ n, steps (code.next N) m b = some ⟨code.length, last, w'⟩ :=
  exists_steps_of_reaches hr hn (Code.next_end last w')

theorem CodeAt.ne_end {place : Nat} {i : Instruction} {rest : Code}
    (hat : CodeAt code place (i :: rest)) {temps last : Temp → V} {w w' : World V} :
    (⟨place, temps, w⟩ : Config V) ≠ ⟨code.length, last, w'⟩ := by
  rintro ⟨⟩
  have hhead := hat.head
  rw [List.getElem?_eq_none (Nat.le_refl _)] at hhead
  cases hhead

theorem Lowered.passesWithin (hN : N.Complementary) (hn : code.labels.Nodup) (k : Nat) :
    ∀ {env : Frames} {ss : List Statement} {s s' : Supply} {piece : Code},
      Lowered env ss s piece s' → PassesWithin N code env ss piece k := by
  -- A turn of a loop takes steps and comes back to the same code; everything else goes on to
  -- smaller pieces of code with no more steps.
  induction k using Nat.strongRecOn with
  | ind k ihk =>
    intro env ss s s' piece hl
    induction hl with
    | nil =>
      intro n place temps last w w' hk hat hrun
      exact ⟨n, temps, w, Nat.le_refl n, .nil, hrun⟩
    | assign hv ha hss ih =>
      intro n place temps last w w' hk hat hrun
      obtain ⟨x, temps₁, hx, hr⟩ := reaches_assign ha hat temps w
      obtain ⟨m, hm, hrun⟩ := exists_steps_of_halts hr hrun
      obtain ⟨m', temps', w₁, hm', hexec, hrun⟩ := ih (by omega) hat.right.tail hrun
      refine ⟨m', temps', w₁, by omega, .assign hv hx hexec, ?_⟩
      convert hrun using 3
      simp only [List.length_append, List.length_cons]
      omega
    | readNil hss ih =>
      intro n place temps last w w' hk hat hrun
      obtain ⟨m, temps', w₁, hm, hexec, hrun⟩ := ih hk hat hrun
      exact ⟨m, temps', w₁, hm, .readNil hexec, hrun⟩
    | readCons hv hss ih =>
      intro n place temps last w w' hk hat hrun
      obtain ⟨m, c, rfl, hstep, hrun⟩ := exists_next_of_steps hrun hat.ne_end
      rw [next_read hat] at hstep
      obtain ⟨w₁, hw, rfl⟩ := Option.map_eq_some_iff.1 hstep
      obtain ⟨m', temps', w₂, hm', hexec, hrun⟩ := ih (by omega) hat.tail hrun
      refine ⟨m', temps', w₂, by omega, .readCons hv hw hexec, ?_⟩
      rw [List.length_cons, Nat.add_comm _ 1, ← Nat.add_assoc]
      exact hrun
    | writeNil hss ih =>
      intro n place temps last w w' hk hat hrun
      obtain ⟨m, temps', w₁, hm, hexec, hrun⟩ := ih hk hat hrun
      exact ⟨m, temps', w₁, hm, .writeNil hexec, hrun⟩
    | writeCons hv hss ih =>
      intro n place temps last w w' hk hat hrun
      obtain ⟨m, hm, hrun⟩ := exists_steps_of_halts (.of_next (Code.next_eq hat.head temps w)) hrun
      obtain ⟨m', temps', w₁, hm', hexec, hrun⟩ := ih (by omega) hat.tail hrun
      refine ⟨m', temps', w₁, by omega, .writeCons hv hexec, ?_⟩
      rw [List.length_cons, Nat.add_comm _ 1, ← Nat.add_assoc]
      exact hrun
    | ifThen hc hscope hbody hss ihbody ihss =>
      intro n place temps last w w' hk hat hrun
      obtain ⟨body, next, hbranch, hat₁, hleads, hat₂, hend⟩ := ifThen_places hN hn hc hat
      rw [← hend]
      obtain ⟨b, temps₁, hb, hr⟩ := hbranch temps w
      obtain ⟨m, hm, hrun⟩ := exists_steps_of_halts hr hrun
      cases b with
      | true =>
        obtain ⟨m₁, temps₂, w₁, hm₁, hexec, hrun⟩ := ihbody (by omega) hat₁ hrun
        obtain ⟨m₂, hm₂, hrun⟩ := exists_steps_of_halts (hleads temps₂ w₁) hrun
        obtain ⟨m₃, temps₃, w₂, hm₃, hexec', hrun⟩ := ihss (by omega) hat₂ hrun
        exact ⟨m₃, temps₃, w₂, by omega, .ifThenTrue hb hexec hexec', hrun⟩
      | false =>
        obtain ⟨m₁, temps₂, w₁, hm₁, hexec, hrun⟩ := ihss (by omega) hat₂ hrun
        exact ⟨m₁, temps₂, w₁, by omega, .ifThenFalse hb hexec, hrun⟩
    | ifElse hc hscope hbody hscope' halternative hss ihbody ihalternative ihss =>
      intro n place temps last w w' hk hat hrun
      obtain ⟨body, other, next, hbranch, hat₁, hleads, hat₂, hleads', hat₃, hend⟩ :=
        ifElse_places hN hn hc hat
      rw [← hend]
      obtain ⟨b, temps₁, hb, hr⟩ := hbranch temps w
      obtain ⟨m, hm, hrun⟩ := exists_steps_of_halts hr hrun
      cases b with
      | true =>
        obtain ⟨m₁, temps₂, w₁, hm₁, hexec, hrun⟩ := ihbody (by omega) hat₁ hrun
        obtain ⟨m₂, hm₂, hrun⟩ := exists_steps_of_halts (hleads temps₂ w₁) hrun
        obtain ⟨m₃, temps₃, w₂, hm₃, hexec', hrun⟩ := ihss (by omega) hat₃ hrun
        exact ⟨m₃, temps₃, w₂, by omega, .ifElseTrue hb hexec hexec', hrun⟩
      | false =>
        obtain ⟨m₁, temps₂, w₁, hm₁, hexec, hrun⟩ := ihalternative (by omega) hat₂ hrun
        obtain ⟨m₂, hm₂, hrun⟩ := exists_steps_of_halts (hleads' temps₂ w₁) hrun
        obtain ⟨m₃, temps₃, w₂, hm₃, hexec', hrun⟩ := ihss (by omega) hat₃ hrun
        exact ⟨m₃, temps₃, w₂, by omega, .ifElseFalse hb hexec hexec', hrun⟩
    | loop hc hscope hbody hss ihbody ihss =>
      intro n place temps last w w' hk hat hrun
      obtain ⟨htop, body, next, hbranch, hat₁, hleads, hat₂, hend⟩ := loop_places hN hn hc hat
      obtain ⟨m, c, rfl, hstep, hrun⟩ := exists_next_of_steps hrun hat.ne_end
      cases (htop temps w).symm.trans hstep
      obtain ⟨b, temps₁, hb, hr⟩ := hbranch temps w
      obtain ⟨m₁, hm₁, hrun⟩ := exists_steps_of_halts hr hrun
      cases b with
      | true =>
        obtain ⟨m₂, temps₂, w₁, hm₂, hexec, hrun⟩ := ihbody (by omega) hat₁ hrun
        obtain ⟨m₃, hm₃, hrun⟩ := exists_steps_of_halts (hleads temps₂ w₁) hrun
        have hturns := ihk m (by omega) (.loop hc hscope hbody hss)
        obtain ⟨m₄, temps₃, w₂, hm₄, hexec', hrun⟩ := hturns (by omega) hat hrun
        exact ⟨m₄, temps₃, w₂, by omega, .loopTrue hb hexec hexec', hrun⟩
      | false =>
        rw [← hend]
        obtain ⟨m₂, temps₂, w₁, hm₂, hexec, hrun⟩ := ihss (by omega) hat₂ hrun
        exact ⟨m₂, temps₂, w₁, by omega, .loopFalse hb hexec, hrun⟩

/-! ## Programs -/

/-- The code of `main` stands behind the declarations. -/
theorem Program.LoweredTo.places {p : Program} {main : Function} {body : Code} {s : Supply}
    (h : p.LoweredTo main body s code) :
    ∃ place, Leads N code 0 place ∧ CodeAt code place body ∧ place + body.length = code.length := by
  obtain ⟨-, -, -, rfl, -⟩ := h
  have hat := codeAt_self (p.scope.declaration ++ (main.body.scope.declaration ++ body))
  refine ⟨_, (leads_declaration hat.left).trans (leads_declaration hat.right.left),
    hat.right.right, ?_⟩
  simp only [List.length_append]
  omega

theorem Program.LoweredTo.evaluates_iff (hN : N.Complementary) {p : Program} {main : Function}
    {body : Code} {s : Supply} (h : p.LoweredTo main body s code) (temps : Temp → V)
    (w w' : World V) : p.Evaluates N w w' ↔ code.Halts N temps w w' := by
  obtain ⟨place, hstart, hat, hend⟩ := h.places (N := N)
  have hn := h.nodup_labels
  constructor
  · rintro ⟨main', hmain, hexec⟩
    cases h.main_eq.symm.trans (main?_eq_some_iff.2 hmain)
    obtain ⟨temps', hr⟩ := hexec.reaches hN hn h.lowered hat temps
    rw [hend] at hr
    exact ⟨temps', (hstart temps w).trans hr⟩
  · rintro ⟨last, n, hrun⟩
    obtain ⟨m, -, hrun⟩ := exists_steps_of_halts (hstart temps w) hrun
    obtain ⟨m', temps', w₁, -, hexec, hrun⟩ :=
      h.lowered.passesWithin hN hn m (Nat.le_refl m) hat hrun
    rw [hend] at hrun
    cases eq_of_steps hrun (Code.next_end temps' w₁)
    exact ⟨main, main?_eq_some_iff.1 h.main_eq, hexec⟩

/-- Lowering preserves meaning. The variables of a program are cells of their own, and its code,
from any temporaries, halts in a world exactly when the program leads there. -/
theorem Program.lower_preserves_meaning {tokens : List (Located Token)} {p : Program}
    (hp : Program.parse tokens = .ok p) (hc : p.lower = .ok code) (hN : N.Complementary) :
    p.cells.Nodup ∧ ∀ (temps : Temp → V) (w w' : World V),
      p.Evaluates N w w' ↔ code.Halts N temps w w' := by
  obtain ⟨main, body, s, h⟩ := Program.exists_loweredTo hp hc
  exact ⟨(Program.wellScoped_of_parse hp).nodup_cells, h.evaluates_iff hN⟩

/-! ## A program with a loop -/

open Grammar

/-- `PROGRAM p BEGIN INT n; FUNCTION VOID main() BEGIN READ(n); WHILE (n > 0) INT k; k := n;
WRITE(k); n := n - 1; ENDWHILE END END` -/
def countdown : Prog where
  program := {}
  name := unplaced "p"
  begin_ := {}
  globals := [.numbers (unplaced .int) ⟨unplaced "n", []⟩ {}]
  functions := [{
    function := {}
    returns := unplaced .void
    name := unplaced "main"
    opening := {}
    parameters := .none
    closing := {}
    begin_ := {}
    body := ⟨[], [.read {} {} ⟨unplaced "n", []⟩ {} {},
      .loop {} {} ⟨.var "n", unplaced .greater, .int "0"⟩ {}
        ⟨[.numbers (unplaced .int) ⟨unplaced "k", []⟩ {}],
          [.assign (unplaced "k") {} (.var "n") {}, .write {} {} ⟨unplaced "k", []⟩ {} {},
            .assign (unplaced "n") {} (.mk (.mk (.var (unplaced "n")) .nil)
              (.cons (unplaced .minus) (.mk (.int (unplaced "1")) .nil) .nil)) {}]⟩ {}]⟩
    end_ := {} }]
  end_ := {}

theorem Program.lower_preserves_meaning_countdown :
    ∃ code, Program.parse countdown.tokens = .ok countdown.tree ∧ countdown.tree.lower = .ok code ∧
      integers.Complementary ∧ countdown.tree.cells.Nodup ∧
      ∀ (temps : Temp → Int) (w w' : World Int),
        countdown.tree.Evaluates integers w w' ↔ code.Halts integers temps w w' := by
  have hp : Program.parse countdown.tokens = .ok countdown.tree :=
    Program.parse_eq_ok_iff.2 ⟨countdown, rfl, by decide, rfl⟩
  exact ⟨_, hp, rfl, integers_complementary,
    Program.lower_preserves_meaning hp rfl integers_complementary⟩

end LittleTiny
