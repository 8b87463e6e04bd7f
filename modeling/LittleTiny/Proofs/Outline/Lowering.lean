import LittleTiny.Code.Lowering
import LittleTiny.Proofs.Outline

/-!
# Lowering an outline

The code of an outline is the outline of the code: if the scopes of a program are given other
numbers and its locations are left out, then the numbers of the scopes in its code change in the
same way, and an error stays the same error (`Program.lower_outline`). `Mirrors` says so of two
computations; they take the same numbers from the supply.
-/

namespace LittleTiny

/-! ## Code with other scope numbers -/

/-- The operand with the number of its scope changed. -/
def Operand.renumber (ρ : Nat → Nat) : Operand → Operand
  | temp t => temp t
  | var v => var (v.renumber ρ)
  | literal digits => literal digits

namespace Instruction

/-- The instruction with other scope numbers, its variables being at no place. -/
def renumber (ρ : Nat → Nat) : Instruction → Instruction
  | declare scope => declare (scope.renumber ρ)
  | arith op of lhs rhs out => arith op of lhs rhs out
  | store of source target => store of (source.renumber ρ) (target.renumber ρ)
  | branch test of lhs rhs target => branch test of lhs rhs target
  | jump target => jump target
  | label name => label name
  | read of v => read of (v.renumber ρ)
  | write v => write (v.renumber ρ)

/-- The instruction with its variables at no place. -/
def erase (i : Instruction) : Instruction := i.renumber fun n => n

end Instruction

/-- The value with the numbers of scopes in its code changed. -/
def Value.renumber (ρ : Nat → Nat) (v : Value) : Value :=
  ⟨v.of, v.temp, v.code.map (Instruction.renumber ρ)⟩

/-! ## Generic rules -/

namespace Lower

variable {α β γ δ : Type}

/-- What has been computed under `f`, and an error at no place. -/
def mapResult (f : α → β) : EStateM.Result (Located SemanticError) Supply α →
    EStateM.Result (Located SemanticError) Supply β
  | .ok a s => .ok (f a) s
  | .error e s => .error e.erase s

/-- The second computation does what the first one does, with results under `f`. -/
def Mirrors (f : α → β) (x : Lower α) (y : Lower β) : Prop :=
  ∀ s, y.run s = mapResult f (x.run s)

theorem mirrors_pure {f : α → β} {a : α} {b : β} (h : f a = b) : Mirrors f (pure a) (pure b) := by
  intro s
  rw [← h]
  rfl

theorem mirrors_fail (f : α → β) (e : SemanticError) (l : Location) :
    Mirrors f (fail e l) (fail e {}) :=
  fun _ => rfl

theorem mirrors_freshTemp : Mirrors id freshTemp freshTemp := fun _ => rfl

theorem mirrors_freshLabel : Mirrors id freshLabel freshLabel := fun _ => rfl

theorem Mirrors.bind {f : α → β} {g : γ → δ} {x : Lower α} {y : Lower β} {k : α → Lower γ}
    {k' : β → Lower δ} (h : Mirrors f x y) (hk : ∀ a, Mirrors g (k a) (k' (f a))) :
    Mirrors g (x >>= k) (y >>= k') := by
  intro s
  have hs : y s = mapResult f (x s) := h s
  change EStateM.bind y k' s = mapResult g (EStateM.bind x k s)
  simp only [EStateM.bind, hs]
  cases x s with
  | ok a s₁ => exact hk a s₁
  | error e s₁ => rfl

end Lower

open Lower

/-! ## Names -/

namespace Scope

variable (ρ : Nat → Nat) (scope : Scope) (name : String) (l : Location)

theorem declaration_renumber :
    (scope.renumber ρ).declaration = scope.declaration.map (Instruction.renumber ρ) := by
  by_cases h : scope.declared = [] <;> simp [declaration, renumber, h, Instruction.renumber]

theorem mirrors_resolve :
    Mirrors (Variable.renumber ρ) (scope.resolve name l) ((scope.renumber ρ).resolve name {}) := by
  rw [resolve, resolve, lookup?_renumber]
  cases scope.lookup? name with
  | none => exact mirrors_fail _ _ _
  | some v => exact mirrors_pure rfl

theorem mirrors_numeric :
    Mirrors (Prod.map (fun of => of) (Variable.renumber ρ)) (scope.numeric name l)
      ((scope.renumber ρ).numeric name {}) := by
  refine (mirrors_resolve ρ scope name l).bind ?_
  intro v
  cases htype : v.type with
  | number of =>
    simp only [Variable.renumber, htype]
    exact mirrors_pure (by simp [Variable.renumber, htype])
  | string =>
    simp only [Variable.renumber, htype]
    exact mirrors_fail _ _ _

end Scope

/-! ## Expressions and statements -/

section

variable (ρ : Nat → Nat)

theorem Expr.mirrors_lower : ∀ (e : Expr) (scope : Scope),
    Mirrors (Value.renumber ρ) (e.lower scope) (e.erase.lower (scope.renumber ρ))
  | .int digits _, _ => mirrors_freshTemp.bind fun out => mirrors_pure rfl
  | .float digits _, _ => mirrors_freshTemp.bind fun out => mirrors_pure rfl
  | .var name l, scope => by
    refine mirrors_freshTemp.bind fun out => ?_
    refine (scope.mirrors_numeric ρ name l).bind ?_
    rintro ⟨of, v⟩
    exact mirrors_pure rfl
  | .binary op lhs rhs _, scope => by
    refine mirrors_freshTemp.bind fun out => ?_
    refine (lhs.mirrors_lower scope).bind fun a => ?_
    refine (rhs.mirrors_lower scope).bind fun b => ?_
    exact mirrors_pure (by simp [Value.renumber, Instruction.renumber])
  | .call function _ _, _ => mirrors_freshTemp.bind fun out => mirrors_fail _ _ _

theorem Condition.mirrors_lower (scope : Scope) (c : Condition) (target : Label) :
    Mirrors (List.map (Instruction.renumber ρ)) (c.lower scope target)
      (c.erase.lower (scope.renumber ρ) target) := by
  refine (c.lhs.mirrors_lower ρ scope).bind fun a => ?_
  refine (c.rhs.mirrors_lower ρ scope).bind fun b => ?_
  exact mirrors_pure (by simp [Value.renumber, Instruction.renumber, Condition.erase])

theorem Statement.mirrors_lowerReads (scope : Scope) : ∀ names : List (Located String),
    Mirrors (List.map (Instruction.renumber ρ)) (Statement.lowerReads scope names)
      (Statement.lowerReads (scope.renumber ρ) (names.map Located.erase))
  | [] => mirrors_pure rfl
  | name :: names => by
    refine (scope.mirrors_numeric ρ name.value name.location).bind ?_
    rintro ⟨of, v⟩
    refine (Statement.mirrors_lowerReads scope names).bind fun rest => ?_
    exact mirrors_pure rfl

theorem Statement.mirrors_lowerWrites (scope : Scope) : ∀ names : List (Located String),
    Mirrors (List.map (Instruction.renumber ρ)) (Statement.lowerWrites scope names)
      (Statement.lowerWrites (scope.renumber ρ) (names.map Located.erase))
  | [] => mirrors_pure rfl
  | name :: names => by
    refine (scope.mirrors_resolve ρ name.value name.location).bind fun v => ?_
    refine (Statement.mirrors_lowerWrites scope names).bind fun rest => ?_
    exact mirrors_pure rfl

mutual

theorem Statement.mirrors_lower (scope : Scope) : ∀ s : Statement,
    Mirrors (List.map (Instruction.renumber ρ)) (s.lower scope)
      ((s.outline (Scope.renumber ρ)).lower (scope.renumber ρ))
  | .assign target value => by
    refine (scope.mirrors_numeric ρ target.value target.location).bind ?_
    rintro ⟨of, v⟩
    refine (value.mirrors_lower ρ scope).bind fun e => ?_
    exact mirrors_pure (by simp [Value.renumber, Instruction.renumber, Operand.renumber])
  | .read names => Statement.mirrors_lowerReads ρ scope names
  | .write names => Statement.mirrors_lowerWrites ρ scope names
  | .ifThen condition body => by
    refine mirrors_freshLabel.bind fun exit => ?_
    refine (condition.mirrors_lower ρ scope exit).bind fun test => ?_
    refine body.mirrors_lower.bind fun then_ => ?_
    exact mirrors_pure (by simp [Instruction.renumber])
  | .ifElse condition body alternative => by
    refine mirrors_freshLabel.bind fun other => ?_
    refine mirrors_freshLabel.bind fun exit => ?_
    refine (condition.mirrors_lower ρ scope other).bind fun test => ?_
    refine body.mirrors_lower.bind fun then_ => ?_
    refine alternative.mirrors_lower.bind fun else_ => ?_
    exact mirrors_pure (by simp [Instruction.renumber])
  | .loop condition body => by
    refine mirrors_freshLabel.bind fun top => ?_
    refine mirrors_freshLabel.bind fun exit => ?_
    refine (condition.mirrors_lower ρ scope exit).bind fun test => ?_
    refine body.mirrors_lower.bind fun again => ?_
    exact mirrors_pure (by simp [Instruction.renumber])
  | .return_ value => by
    rw [Statement.outline, Statement.lower, Statement.lower, value.location_erase]
    exact mirrors_fail _ _ _

theorem Block.mirrors_lower : ∀ b : Block,
    Mirrors (List.map (Instruction.renumber ρ)) b.lower (b.outline (Scope.renumber ρ)).lower
  | ⟨_, statements, scope⟩ => by
    refine (Statement.mirrors_lowerAll scope statements).bind fun code => ?_
    exact mirrors_pure (by simp [Scope.declaration_renumber])

theorem Statement.mirrors_lowerAll (scope : Scope) : ∀ ss : List Statement,
    Mirrors (List.map (Instruction.renumber ρ)) (Statement.lowerAll scope ss)
      (Statement.lowerAll (scope.renumber ρ) (Statement.outlineAll (Scope.renumber ρ) ss))
  | [] => mirrors_pure rfl
  | s :: ss => by
    refine (s.mirrors_lower scope).bind fun code => ?_
    refine (Statement.mirrors_lowerAll scope ss).bind fun rest => ?_
    exact mirrors_pure (by simp)

end

/-! ## Programs -/

namespace Program

theorem main?_outline (σ : Scope → Scope) (p : Program) :
    (p.outline σ).main? = p.main?.map (Function.outline σ) := by
  rw [main?, outline, List.find?_map]
  rfl

theorem mirrors_lowerMain (p : Program) :
    Mirrors (List.map (Instruction.renumber ρ)) p.lowerMain
      (p.outline (Scope.renumber ρ)).lowerMain := by
  rw [lowerMain, lowerMain, main?_outline]
  cases p.main? with
  | none => exact mirrors_fail _ _ _
  | some main =>
    refine (main.body.mirrors_lower ρ).bind fun body => ?_
    exact mirrors_pure (by simp [outline, Scope.declaration_renumber])

/-- The code of an outline is the outline of the code, and an error stays the same. -/
theorem lower_outline (p : Program) :
    (p.outline (Scope.renumber ρ)).lower =
      (p.lower.map (List.map (Instruction.renumber ρ))).mapError Located.erase := by
  rw [lower, lower, p.mirrors_lowerMain ρ {}]
  cases p.lowerMain.run {} <;> rfl

end Program

end

/-- Programs whose code is the same under some change have the same error, or such code. -/
theorem Program.lower_cases {p p' : Program} {f f' : Code → Code}
    (h : (p.lower.map f).mapError Located.erase = (p'.lower.map f').mapError Located.erase) :
    (∃ e e', p.lower = .error e ∧ p'.lower = .error e' ∧ e.value = e'.value) ∨
    ∃ c c', p.lower = .ok c ∧ p'.lower = .ok c' ∧ f c = f' c' := by
  cases hp : p.lower with
  | error e =>
    cases hp' : p'.lower with
    | error e' =>
      rw [hp, hp'] at h
      exact .inl ⟨e, e', rfl, rfl, Located.erase_eq_iff.1 (Except.error.inj h)⟩
    | ok c' => rw [hp, hp'] at h; cases h
  | ok c =>
    cases hp' : p'.lower with
    | error e' => rw [hp, hp'] at h; cases h
    | ok c' =>
      rw [hp, hp'] at h
      exact .inr ⟨c, c', rfl, rfl, Except.ok.inj h⟩

end LittleTiny
