import LittleTiny.Proofs.Numbering

/-!
# The layout of code

Where the code of a statement stands follows from the sizes of what stands before it. From this the
places of loops are known: each WHILE begins with a label, and the jump back to it stands in front
of the label behind the loop (`Program.loops`). These are the only jumps that go backwards. Between
the place where a temporary is set and the one where it is read the code is straight.
-/

namespace LittleTiny

open Instruction

/-! ## Sizes -/

/-- How many instructions an expression becomes. A call becomes none. -/
def Expr.size : Expr → Nat
  | int .. => 1
  | float .. => 1
  | var .. => 1
  | binary _ lhs rhs _ => lhs.size + rhs.size + 1
  | call .. => 0

/-- The number of instructions for a condition. -/
def Condition.size (c : Condition) : Nat := c.lhs.size + c.rhs.size + 1

mutual

/-- How many instructions a statement becomes. -/
def Statement.size : Statement → Nat
  | .assign _ value => value.size + 1
  | .read names => names.length
  | .write names => names.length
  | .ifThen condition body => condition.size + body.size + 1
  | .ifElse condition body alternative =>
    condition.size + body.size + 2 + alternative.size + 1
  | .loop condition body => 1 + condition.size + body.size + 2
  | .return_ _ => 0

/-- The number of instructions for a block. -/
def Block.size : Block → Nat
  | ⟨_, statements, scope⟩ => scope.declaration.length + Statement.sizeAll statements

/-- The number of instructions for statements in a row. -/
def Statement.sizeAll : List Statement → Nat
  | [] => 0
  | s :: ss => s.size + Statement.sizeAll ss

end

mutual

/-- The places of the first label and of the closing jump of each WHILE in a statement, if the code
of the statement begins at `place`. -/
def Statement.loops (place : Nat) : Statement → List (Nat × Nat)
  | .assign .. => []
  | .read _ => []
  | .write _ => []
  | .ifThen condition body => body.loops (place + condition.size)
  | .ifElse condition body alternative =>
    body.loops (place + condition.size) ++
      alternative.loops (place + condition.size + body.size + 2)
  | .loop condition body =>
    (place, place + 1 + condition.size + body.size) :: body.loops (place + 1 + condition.size)
  | .return_ _ => []

/-- The places of the loops in a block. -/
def Block.loops (place : Nat) : Block → List (Nat × Nat)
  | ⟨_, statements, scope⟩ => Statement.loopsAll (place + scope.declaration.length) statements

/-- The places of the loops in statements in a row. -/
def Statement.loopsAll (place : Nat) : List Statement → List (Nat × Nat)
  | [] => []
  | s :: ss => s.loops place ++ Statement.loopsAll (place + s.size) ss

end

/-- The places of the loops of the first function named `main`, whose code stands behind the
declarations of the program. -/
def Program.loops (p : Program) : List (Nat × Nat) :=
  match p.functions.find? fun f => f.name.value == "main" with
  | some main => main.body.loops p.scope.declaration.length
  | none => []

theorem Block.size_eq (b : Block) :
    b.size = b.scope.declaration.length + Statement.sizeAll b.statements := by
  cases b
  rfl

theorem Block.loops_eq (b : Block) (place : Nat) :
    b.loops place = Statement.loopsAll (place + b.scope.declaration.length) b.statements := by
  cases b
  rfl

section

variable {env : Frames} {e : Expr} {c : Condition} {target : Label} {n n' : Nat} {k : NumClass}
  {piece : Code} {ss : List Statement} {s s' : Supply}

theorem Expr.Lowered.length_eq (h : e.Lowered env n k piece n') : piece.length = e.size := by
  induction h with
  | int => rfl
  | float => rfl
  | var => rfl
  | binary ha hb iha ihb => simp [Expr.size, iha, ihb, Nat.add_assoc]

theorem Condition.Lowered.length_eq (h : c.Lowered env target n piece n') :
    piece.length = c.size := by
  obtain ⟨ha, hb⟩ := h
  simp [Condition.size, ha.length_eq, hb.length_eq, Nat.add_assoc]

theorem Lowered.length_eq (h : Lowered env ss s piece s') :
    piece.length = Statement.sizeAll ss := by
  induction h with
  | nil => rfl
  | assign hv ha hss ih =>
    simp only [Statement.sizeAll, Statement.size, List.length_append, List.length_cons, ih,
      ha.length_eq]
    omega
  | readNil hss ih => simpa [Statement.sizeAll, Statement.size] using ih
  | readCons hv hss ih =>
    simp only [Statement.sizeAll, Statement.size, List.length_cons, ih]
    omega
  | writeNil hss ih => simpa [Statement.sizeAll, Statement.size] using ih
  | writeCons hv hss ih =>
    simp only [Statement.sizeAll, Statement.size, List.length_cons, ih]
    omega
  | ifThen hc hscope hbody hss ihbody ihss =>
    simp only [Statement.sizeAll, Statement.size, Block.size_eq, List.length_append,
      List.length_cons, ihbody, ihss, hc.length_eq]
    omega
  | ifElse hc hscope hbody hscope' halternative hss ihbody ihalternative ihss =>
    simp only [Statement.sizeAll, Statement.size, Block.size_eq, List.length_append,
      List.length_cons, ihbody, ihalternative, ihss, hc.length_eq]
    omega
  | loop hc hscope hbody hss ihbody ihss =>
    simp only [Statement.sizeAll, Statement.size, Block.size_eq, List.length_append,
      List.length_cons, ihbody, ihss, hc.length_eq]
    omega

end

/-! ## From where a temporary is set to where it is read -/

namespace Code

/-- The temporaries from `a` to `b` are set at the place `first` or behind it, and read later, at
the place `last` or in front of it. -/
def FlowsIn (code : Code) (first last a b : Nat) : Prop :=
  ∀ t, a ≤ t → t < b →
    ∃ w r, first ≤ w ∧ w < r ∧ r ≤ last ∧ code.Has sets w t ∧ code.Has takes r t

/-- The temporaries from `a` to `b` are set and later read, with straight code between. -/
def Flows (code : Code) (a b : Nat) : Prop :=
  ∀ t, a ≤ t → t < b → ∃ w r, w < r ∧ code.Has sets w t ∧ code.Has takes r t ∧
    ∀ k, w < k → k < r → ¬ code.Control k

variable {code : Code} {a b c first last : Nat}

theorem FlowsIn.append (h : code.FlowsIn first last a b) (h' : code.FlowsIn first last b c) :
    code.FlowsIn first last a c := by
  intro t ha hc
  by_cases hb : t < b
  · exact h t ha hb
  · exact h' t (Nat.le_of_not_lt hb) hc

theorem FlowsIn.mono (h : code.FlowsIn first last a b) {first' last' : Nat}
    (hfirst : first' ≤ first) (hlast : last ≤ last') : code.FlowsIn first' last' a b := by
  intro t ha hb
  obtain ⟨w, r, hw, hwr, hr, hset, htake⟩ := h t ha hb
  exact ⟨w, r, Nat.le_trans hfirst hw, hwr, Nat.le_trans hr hlast, hset, htake⟩

theorem flowsIn_single {w : Nat} (hw : first ≤ w) (hlast : w < last) (hset : code.Has sets w a)
    (htake : code.Has takes last a) : code.FlowsIn first last a (a + 1) := by
  intro t ha hb
  obtain rfl : t = a := by omega
  exact ⟨w, last, hw, hlast, Nat.le_refl last, hset, htake⟩

theorem FlowsIn.flows (h : code.FlowsIn first last a b)
    (hstraight : ∀ k, first ≤ k → k < last → ¬ code.Control k) : code.Flows a b := by
  intro t ha hb
  obtain ⟨w, r, hw, hwr, hr, hset, htake⟩ := h t ha hb
  exact ⟨w, r, hwr, hset, htake, fun k hwk hkr => hstraight k (by omega) (by omega)⟩

theorem Flows.append (h : code.Flows a b) (h' : code.Flows b c) : code.Flows a c := by
  intro t ha hc
  by_cases hb : t < b
  · exact h t ha hb
  · exact h' t (Nat.le_of_not_lt hb) hc

theorem flows_nil (a : Nat) : code.Flows a a := fun _ ha hb => absurd hb (Nat.not_lt.2 ha)

end Code

section

variable {code piece : Code} {place last : Nat} {env : Frames} {e : Expr} {c : Condition}
  {target : Label} {n n' : Nat} {k : NumClass} {ss : List Statement} {s s' : Supply}

theorem CodeAt.not_control (hat : CodeAt code place piece) (h : ∀ i ∈ piece, i.isControl = false)
    {k : Nat} (hfirst : place ≤ k) (hlast : k < place + piece.length) : ¬ code.Control k := by
  rintro ⟨i, hi, hcontrol⟩
  obtain ⟨before, after, rfl, rfl⟩ := hat
  rw [List.append_assoc, List.getElem?_append_right hfirst,
    List.getElem?_append_left (by omega)] at hi
  rw [h i (List.mem_of_getElem? hi)] at hcontrol
  cases hcontrol

/-- If the value of an expression is read behind its code, all its temporaries flow up to there. -/
theorem Expr.Lowered.flowsIn (h : e.Lowered env n k piece n') (hat : CodeAt code place piece)
    (hlast : place + piece.length ≤ last) (htake : code.Has takes last n) :
    code.FlowsIn place last n n' := by
  induction h generalizing place last with
  | int =>
    exact Code.flowsIn_single (Nat.le_refl place) hlast
      ⟨_, hat.head, List.mem_singleton_self _⟩ htake
  | float =>
    exact Code.flowsIn_single (Nat.le_refl place) hlast
      ⟨_, hat.head, List.mem_singleton_self _⟩ htake
  | var hv =>
    exact Code.flowsIn_single (Nat.le_refl place) hlast
      ⟨_, hat.head, List.mem_singleton_self _⟩ htake
  | @binary op lhs rhs l n n₁ n₂ k k' a b ha hb iha ihb =>
    -- The value flows from the operation to `last`, and the operands flow up to the operation.
    have hhead := hat.right.head
    simp only [List.length_append, List.length_singleton] at hlast hhead
    have hself : code.FlowsIn place last n (n + 1) :=
      Code.flowsIn_single (by omega) (by omega) ⟨_, hhead, by simp [sets]⟩ htake
    have hlhs := iha hat.left.left (by omega) ⟨_, hhead, by simp [takes]⟩
    have hrhs := ihb hat.left.right (by omega) ⟨_, hhead, by simp [takes]⟩
    exact hself.append ((hlhs.mono (by omega) (by omega)).append (hrhs.mono (by omega) (by omega)))

theorem Condition.Lowered.flows (h : c.Lowered env target n piece n')
    (hat : CodeAt code place piece) : code.Flows n n' := by
  obtain @⟨n₁, n₂, k, k', a, b, ha, hb⟩ := h
  have hhead := hat.right.head
  rw [List.length_append] at hhead
  have hlhs := ha.flowsIn hat.left.left (by omega) ⟨_, hhead, by simp [takes]⟩
  have hrhs := hb.flowsIn hat.left.right (by omega) ⟨_, hhead, by simp [takes]⟩
  refine (hlhs.append (hrhs.mono (by omega) (by omega))).flows fun k hfirst hlast => ?_
  refine hat.left.not_control (fun i hi => ?_) hfirst (by rwa [List.length_append])
  rcases List.mem_append.1 hi with hi | hi
  · exact ha.isControl_eq_false i hi
  · exact hb.isControl_eq_false i hi

theorem Lowered.flows (h : Lowered env ss s piece s') (hat : CodeAt code place piece) :
    code.Flows s.temps s'.temps := by
  induction h generalizing place with
  | nil => exact Code.flows_nil _
  | assign hv ha hss ih =>
    have hvalue := ha.flowsIn hat.left (Nat.le_refl _)
      ⟨_, hat.right.head, List.mem_singleton_self _⟩
    have hstraight := fun k => hat.left.not_control ha.isControl_eq_false (k := k)
    exact (hvalue.flows hstraight).append (ih hat.right.tail)
  | readNil hss ih => exact ih hat
  | readCons hv hss ih => exact ih hat.tail
  | writeNil hss ih => exact ih hat
  | writeCons hv hss ih => exact ih hat.tail
  | ifThen hc hscope hbody hss ihbody ihss =>
    have htest := hc.flows hat.left.left
    exact htest.append ((ihbody hat.left.right.right).append (ihss hat.right.tail))
  | ifElse hc hscope hbody hscope' halternative hss ihbody ihalternative ihss =>
    have htest := hc.flows hat.left.left
    have hother := hat.right.tail.tail
    exact htest.append ((ihbody hat.left.right.right).append
      ((ihalternative hother.left.right).append (ihss hother.right.tail)))
  | loop hc hscope hbody hss ihbody ihss =>
    have htest := hc.flows hat.tail.left.left
    exact htest.append ((ihbody hat.tail.left.right.right).append (ihss hat.tail.right.tail.tail))

end

/-! ## Jumps and their labels -/

/-- The labels from `a` to `b` stand in the code and are gone to, from in front of them or by the
closing jump of one of the loops. -/
structure Code.Linked (code : Code) (loops : List (Nat × Nat)) (a b : Nat) : Prop where
  label : ∀ l, a ≤ l → l < b → ∃ i j, code.Has targets i l ∧ code.Has marks j l ∧
    (i < j ∨ (j, i) ∈ loops)
  loop : ∀ x ∈ loops, x.1 < x.2 ∧
    ∃ l, code[x.1]? = some (.label l) ∧ code[x.2]? = some (.jump l)

namespace Code

variable {code : Code} {loops loops' : List (Nat × Nat)} {a b c i j : Nat}

theorem linked_nil (a : Nat) : code.Linked [] a a :=
  ⟨fun _ ha hb => absurd hb (Nat.not_lt.2 ha), fun _ hx => absurd hx List.not_mem_nil⟩

theorem Linked.append (h : code.Linked loops a b) (h' : code.Linked loops' b c) :
    code.Linked (loops ++ loops') a c := by
  constructor
  · intro l ha hc
    by_cases hb : l < b
    · obtain ⟨i, j, hi, hj, hij⟩ := h.label l ha hb
      exact ⟨i, j, hi, hj, hij.imp_right (List.mem_append_left loops')⟩
    · obtain ⟨i, j, hi, hj, hij⟩ := h'.label l (Nat.le_of_not_lt hb) hc
      exact ⟨i, j, hi, hj, hij.imp_right (List.mem_append_right loops)⟩
  · intro x hx
    rcases List.mem_append.1 hx with hx | hx
    · exact h.loop x hx
    · exact h'.loop x hx

theorem linked_forward (hi : code.Has targets i a) (hj : code[j]? = some (.label ⟨a⟩))
    (hij : i < j) : code.Linked [] a (a + 1) := by
  refine ⟨fun l ha hb => ?_, fun x hx => absurd hx List.not_mem_nil⟩
  obtain rfl : l = a := by omega
  exact ⟨i, j, hi, ⟨_, hj, List.mem_singleton_self _⟩, .inl hij⟩

theorem linked_backward (hj : code[j]? = some (.label ⟨a⟩)) (hi : code[i]? = some (.jump ⟨a⟩))
    (hij : j < i) : code.Linked [(j, i)] a (a + 1) := by
  constructor
  · intro l ha hb
    obtain rfl : l = a := by omega
    exact ⟨i, j, ⟨_, hi, List.mem_singleton_self _⟩, ⟨_, hj, List.mem_singleton_self _⟩,
      .inr (List.mem_singleton_self _)⟩
  · intro x hx
    obtain rfl := List.mem_singleton.1 hx
    exact ⟨hij, _, hj, hi⟩

end Code

section

variable {code piece : Code} {place : Nat} {env : Frames} {c : Condition} {target : Label}
  {n n' : Nat} {ss : List Statement} {s s' : Supply}

/-- The last instruction of a condition goes to its target. -/
theorem Condition.Lowered.exists_branch (h : c.Lowered env target n piece n')
    (hat : CodeAt code place piece) :
    ∃ i, i < place + piece.length ∧ code.Has targets i target.index := by
  obtain ⟨ha, hb⟩ := h
  refine ⟨_, ?_, _, hat.right.head, List.mem_singleton_self _⟩
  simp

theorem CodeAt.of_eq (hat : CodeAt code place piece) {place' : Nat} (h : place = place') :
    CodeAt code place' piece := h ▸ hat

theorem Lowered.linked (h : Lowered env ss s piece s') (hat : CodeAt code place piece) :
    code.Linked (Statement.loopsAll place ss) s.labels s'.labels := by
  induction h generalizing place with
  | nil => exact Code.linked_nil _
  | assign hv ha hss ih =>
    refine ih (hat.right.tail.of_eq ?_)
    rw [Statement.size, ha.length_eq, Nat.add_assoc]
  | readNil hss ih => exact ih hat
  | readCons hv hss ih =>
    have hrest := ih hat.tail
    rw [Statement.loopsAll, Statement.size, Nat.add_assoc, Nat.add_comm 1] at hrest
    exact hrest
  | writeNil hss ih => exact ih hat
  | writeCons hv hss ih =>
    have hrest := ih hat.tail
    rw [Statement.loopsAll, Statement.size, Nat.add_assoc, Nat.add_comm 1] at hrest
    exact hrest
  | @ifThen env c body ss s s₁ s' test then_ rest n hc hscope hbody hss ihbody ihss =>
    -- The branch of the condition goes over the block.
    obtain ⟨i, hi, hbranch⟩ := hc.exists_branch hat.left.left
    have hexit := Code.linked_forward hbranch hat.right.head
      (by simp only [List.length_append]; omega)
    have hinner := ihbody hat.left.right.right
    rw [hc.length_eq, ← Block.loops_eq] at hinner
    have hrest := @ihss (place + (Statement.ifThen c body).size) (hat.right.tail.of_eq (by
      simp only [Statement.size, Block.size_eq, List.length_append, hc.length_eq, hbody.length_eq]
      omega))
    exact hexit.append (hinner.append hrest)
  | @ifElse env c body alternative ss s s₁ s₂ s' test then_ else_ rest n hc hscope hbody hscope'
      halternative hss ihbody ihalternative ihss =>
    have hother := hat.right.tail
    have hjump : code.Has targets _ (s.labels + 1) :=
      ⟨_, hat.right.head, List.mem_singleton_self _⟩
    obtain ⟨i, hi, hbranch⟩ := hc.exists_branch hat.left.left
    have helse := Code.linked_forward hbranch hother.head (by simp only [List.length_append]; omega)
    have hexit := Code.linked_forward hjump hother.tail.right.head (by omega)
    have hinner := ihbody hat.left.right.right
    rw [hc.length_eq, ← Block.loops_eq] at hinner
    have hlength : place + (test ++ (body.scope.declaration ++ then_)).length + 1 + 1 =
        place + c.size + body.size + 2 := by
      simp only [Block.size_eq, List.length_append, hc.length_eq, hbody.length_eq]
      omega
    have hinner' := ihalternative (hother.tail.of_eq hlength).left.right
    rw [← Block.loops_eq] at hinner'
    have hrest := @ihss (place + (Statement.ifElse c body alternative).size)
      ((hother.tail.of_eq hlength).right.tail.of_eq (by
        simp only [Statement.size, Block.size_eq, List.length_append, halternative.length_eq]
        omega))
    exact helse.append (hexit.append ((hinner.append hinner').append hrest))
  | @loop env c body ss s s₁ s' test again rest n hc hscope hbody hss ihbody ihss =>
    have hlength : place + 1 + (test ++ (body.scope.declaration ++ again)).length =
        place + 1 + c.size + body.size := by
      simp only [Block.size_eq, List.length_append, hc.length_eq, hbody.length_eq]
      omega
    have hback := hat.tail.right.of_eq hlength
    have htop := Code.linked_backward hat.head hback.head (by omega)
    obtain ⟨i, hi, hbranch⟩ := hc.exists_branch hat.tail.left.left
    rw [hc.length_eq] at hi
    have hexit := Code.linked_forward hbranch hback.tail.head (by omega)
    have hinner := ihbody hat.tail.left.right.right
    rw [hc.length_eq, ← Block.loops_eq] at hinner
    have hrest := @ihss (place + (Statement.loop c body).size)
      (hback.tail.tail.of_eq (by rw [Statement.size]; omega))
    exact htop.append (hexit.append (hinner.append hrest))

end

/-! ## Programs -/

variable {p : Program} {main : Function} {body code : Code} {s : Supply}

theorem Program.LoweredTo.flatMap_eq (h : p.LoweredTo main body s code)
    {role : Instruction → List Nat} (hrole : ∀ s, role (.declare s) = []) :
    code.flatMap role = body.flatMap role := by
  rw [h.code_eq, List.flatMap_append, List.flatMap_append, Scope.flatMap_declaration hrole,
    Scope.flatMap_declaration hrole]
  rfl

theorem Program.LoweredTo.codeAt (h : p.LoweredTo main body s code) :
    CodeAt code (p.scope.declaration.length + main.body.scope.declaration.length) body := by
  have hat : CodeAt code 0 (p.scope.declaration ++ (main.body.scope.declaration ++ body)) :=
    h.code_eq ▸ codeAt_self code
  exact hat.right.right.of_eq (by rw [Nat.zero_add])

theorem Program.LoweredTo.linked (h : p.LoweredTo main body s code) :
    code.Linked p.loops 0 s.labels := by
  have hmain : p.functions.find? (fun f => f.name.value == "main") = some main := h.main_eq
  rw [loops, hmain]
  show code.Linked (main.body.loops p.scope.declaration.length) 0 s.labels
  rw [Block.loops_eq]
  exact h.lowered.linked h.codeAt

/-- Code that uses the temporaries and the labels below those of a supply, and has loops at the
given places. -/
structure Code.WellFormed (code : Code) (loops : List (Nat × Nat)) (s : Supply) : Prop where
  temp : ∀ t < s.temps, ∃ w r, w < r ∧ (∀ k, code.Has sets k t ↔ k = w) ∧
    (∀ k, code.Has takes k t ↔ k = r) ∧ ∀ k, w < k → k < r → ¬ code.Control k
  temp_lt : ∀ k t, code.Has sets k t ∨ code.Has takes k t → t < s.temps
  label : ∀ l < s.labels, (∃! k, code.Has marks k l) ∧ ∃! k, code.Has targets k l
  label_lt : ∀ k l, code.Has marks k l ∨ code.Has targets k l → l < s.labels
  backward_iff : ∀ i j l, code.Has targets i l → code.Has marks j l →
    (j < i ↔ (j, i) ∈ loops)
  closing : ∀ i j, (j, i) ∈ loops →
    ∃ l, code[j]? = some (.label l) ∧ code[i]? = some (.jump l)

/-- The code of a program is well formed: every temporary that was taken is set once and read once,
later and with straight code between, every label stands in it once and is gone to once, and it goes
backwards exactly where a loop closes. -/
theorem Program.lower_wellFormed {tokens : List (Located Token)}
    (hp : Program.parse tokens = .ok p) (hc : p.lower = .ok code) :
    ∃ s, Lower.Makes p.lowerMain {} code s ∧ code.WellFormed p.loops s := by
  obtain ⟨s, hrun⟩ := Program.lower_eq_ok_iff.1 hc
  obtain ⟨main, body, h⟩ := Program.exists_loweredTo_of_makes hp hrun
  have hsets := h.lowered.covers_sets
  have htakes := h.lowered.covers_takes
  have hmarks := h.lowered.covers_marks
  have htargets := h.lowered.covers_targets
  rw [← h.flatMap_eq fun _ => rfl] at hsets htakes hmarks htargets
  have hlinked := h.linked
  refine ⟨s, hrun, ?temp, ?temp_lt, ?label, ?label_lt, ?backward_iff, ?closing⟩
  case temp =>
    intro t ht
    obtain ⟨w, r, hwr, hw, hr, hstraight⟩ := h.lowered.flows h.codeAt t (Nat.zero_le t) ht
    refine ⟨w, r, hwr, fun k => ⟨fun hk => hk.place_eq hsets.nodup hw, ?_⟩,
      fun k => ⟨fun hk => hk.place_eq htakes.nodup hr, ?_⟩, hstraight⟩
    · rintro rfl
      exact hw
    · rintro rfl
      exact hr
  case temp_lt =>
    rintro k t (hk | hk)
    · exact (hsets.mem_iff.1 hk.mem).2
    · exact (htakes.mem_iff.1 hk.mem).2
  case label =>
    intro l hl
    obtain ⟨i, j, hi, hj, -⟩ := hlinked.label l (Nat.zero_le l) hl
    exact ⟨⟨j, hj, fun k hk => hk.place_eq hmarks.nodup hj⟩,
      ⟨i, hi, fun k hk => hk.place_eq htargets.nodup hi⟩⟩
  case label_lt =>
    rintro k l (hk | hk)
    · exact (hmarks.mem_iff.1 hk.mem).2
    · exact (htargets.mem_iff.1 hk.mem).2
  case backward_iff =>
    -- both places of a label are known by their numbers, so they are the ones that are linked
    intro i j l hi hj
    obtain ⟨i', j', hi', hj', hij⟩ :=
      hlinked.label l (Nat.zero_le l) (hmarks.mem_iff.1 hj.mem).2
    obtain rfl := hi.place_eq htargets.nodup hi'
    obtain rfl := hj.place_eq hmarks.nodup hj'
    exact ⟨fun hback => hij.resolve_left (by omega), fun hloop => (hlinked.loop _ hloop).1⟩
  case closing => exact fun i j hloop => (hlinked.loop _ hloop).2

/-! ## A program with a branch in a loop -/

open Grammar

/-- `PROGRAM p BEGIN INT n; FUNCTION VOID main() BEGIN WHILE (n > 0) IF (n > 9) n := n - 2;
ELSE n := n - 1; ENDIF ENDWHILE END END` -/
def descent : Prog where
  program := {}
  name := unplaced "p"
  begin_ := {}
  globals := [.numbers (unplaced .int) ⟨unplaced "n", []⟩ {}]
  functions := [{
    function := {}
    returns := unplaced .void
    name := unplaced "main"
    opening := {}
    parameters := .none
    closing := {}
    begin_ := {}
    body := ⟨[], [.loop {} {} ⟨.var "n", unplaced .greater, .int "0"⟩ {}
      ⟨[], [.ifElse {} {} ⟨.var "n", unplaced .greater, .int "9"⟩ {}
        ⟨[], [.assign (unplaced "n") {} (.mk (.mk (.var (unplaced "n")) .nil)
          (.cons (unplaced .minus) (.mk (.int (unplaced "2")) .nil) .nil)) {}]⟩ {}
        ⟨[], [.assign (unplaced "n") {} (.mk (.mk (.var (unplaced "n")) .nil)
          (.cons (unplaced .minus) (.mk (.int (unplaced "1")) .nil) .nil)) {}]⟩ {}]⟩ {}]⟩
    end_ := {} }]
  end_ := {}

theorem Program.lower_wellFormed_descent :
    ∃ code, Program.parse descent.tokens = .ok descent.tree ∧ descent.tree.lower = .ok code ∧
      descent.tree.loops = [(1, 19)] ∧ Lower.Makes descent.tree.lowerMain {} code ⟨10, 4⟩ ∧
      code.WellFormed [(1, 19)] ⟨10, 4⟩ := by
  have hp : Program.parse descent.tokens = .ok descent.tree :=
    Program.parse_eq_ok_iff.2 ⟨descent, rfl, by decide, rfl⟩
  obtain ⟨s, hrun, hcode⟩ := Program.lower_wellFormed hp rfl
  obtain rfl : ⟨10, 4⟩ = s := (EStateM.Result.ok.inj hrun).2
  exact ⟨_, hp, rfl, rfl, hrun, hcode⟩

end LittleTiny
