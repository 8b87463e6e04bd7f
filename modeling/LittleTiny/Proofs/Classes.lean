import LittleTiny.Proofs.Layout
import LittleTiny.Proofs.Regions
import LittleTiny.Proofs.Transcript.Code

/-!
# Classes of numbers

An expression is of the real class exactly if a real numeral or a real variable stands somewhere
in it, the variable being the one that is found by walking outwards from the block. In the code,
classes are tied together by the numbers of temporaries only: the class of an operation or a branch
comes from those that its operands were given where they were set (`Code.Promotes`), and the class
of a variable is that of its declaration. A text is written and used for nothing else.
-/

namespace LittleTiny

open Instruction Lower

/-! ## Leaves -/

mutual

/-- The names and numerals of an expression. -/
def Expr.leaves : Expr → List Expr
  | .int digits l => [.int digits l]
  | .float digits l => [.float digits l]
  | .var name l => [.var name l]
  | .binary _ lhs rhs _ => lhs.leaves ++ rhs.leaves
  | .call _ arguments _ => Expr.leavesAll arguments

/-- The leaves of expressions in a row. -/
def Expr.leavesAll : List Expr → List Expr
  | [] => []
  | e :: es => e.leaves ++ Expr.leavesAll es

end

mutual

/-- An expression and all those inside of it. -/
def Expr.within : Expr → List Expr
  | .int digits l => [.int digits l]
  | .float digits l => [.float digits l]
  | .var name l => [.var name l]
  | .binary op lhs rhs l => .binary op lhs rhs l :: (lhs.within ++ rhs.within)
  | .call function arguments l => .call function arguments l :: Expr.withinAll arguments

/-- The expressions in a row and those inside. -/
def Expr.withinAll : List Expr → List Expr
  | [] => []
  | e :: es => e.within ++ Expr.withinAll es

end

theorem Expr.mem_within_self (e : Expr) : e ∈ e.within := by
  cases e <;> exact List.mem_cons_self

/-- A real numeral, or a name that means a real variable. -/
def Expr.IsReal (env : Frames) : Expr → Prop
  | .float _ _ => True
  | .var name _ => ∃ v, env.find? name = some v ∧ v.type = .number .float
  | _ => False

/-- The expressions that stand in a statement and in none of its blocks. -/
def Statement.exprs : Statement → List Expr
  | .assign _ value => [value]
  | .read _ => []
  | .write _ => []
  | .ifThen condition _ => [condition.lhs, condition.rhs]
  | .ifElse condition _ _ => [condition.lhs, condition.rhs]
  | .loop condition _ => [condition.lhs, condition.rhs]
  | .return_ value => [value]

theorem NumClass.join_eq_float_iff {k l : NumClass} :
    k.join l = .float ↔ k = .float ∨ l = .float := by
  cases k <;> cases l <;> simp [join]

theorem Frames.find?_of_number? {env : Frames} {name : String} {of : NumClass} {v : Variable}
    (h : env.number? name = some (of, v)) : env.find? name = some v := by
  unfold number? at h
  split at h
  · next v' hv =>
    split at h
    · cases h
      exact hv
    · cases h
  · cases h

/-! ## The class of an expression -/

namespace Expr.Lowered

variable {env : Frames} {e : Expr} {n n' : Nat} {k : NumClass} {code : Code}

theorem class_eq_float_iff (h : e.Lowered env n k code n') :
    k = .float ↔ ∃ leaf ∈ e.leaves, leaf.IsReal env := by
  induction h with
  | int => simp [leaves, IsReal]
  | float => simp [leaves, IsReal]
  | @var name l n of v hv =>
    have htype := Frames.type_of_number? hv
    simp only [leaves, List.mem_singleton, exists_eq_left, IsReal, Frames.find?_of_number? hv,
      Option.some.injEq, exists_eq_left', htype, VarType.number.injEq]
  | binary ha hb iha ihb =>
    simp only [NumClass.join_eq_float_iff, iha, ihb, leaves, List.mem_append, or_and_right,
      exists_or]

/-- What stands inside an expression is lowered with it. -/
theorem of_mem_within (h : e.Lowered env n k code n') :
    ∀ e' ∈ e.within, ∃ m k' code' m', e'.Lowered env m k' code' m' := by
  induction h with
  | @int digits l n => exact List.forall_mem_singleton.2 ⟨n, _, _, _, .int⟩
  | @float digits l n => exact List.forall_mem_singleton.2 ⟨n, _, _, _, .float⟩
  | @var name l n of v hv => exact List.forall_mem_singleton.2 ⟨n, _, _, _, .var hv⟩
  | binary ha hb iha ihb =>
    exact List.forall_mem_cons.2 ⟨⟨_, _, _, _, .binary ha hb⟩, List.forall_mem_append.2 ⟨iha, ihb⟩⟩

/-- Lowering succeeds, whatever numbers are taken. -/
theorem exists_makes {scope : Scope} (hscope : scope.Sees env)
    (h : e.Lowered env n k code n') (s : Supply) : ∃ x s', Makes (e.lower scope) s x s' := by
  induction h generalizing s with
  | int => exact ⟨_, _, rfl⟩
  | float => exact ⟨_, _, rfl⟩
  | @var name l n of v hv =>
    simp only [Expr.lower, makes_bind, makes_freshTemp, makes_pure, Scope.makes_numeric hscope]
    exact ⟨_, _, _, _, ⟨rfl, rfl⟩, (of, v), _, ⟨hv, rfl⟩, rfl, rfl⟩
  | binary ha hb iha ihb =>
    obtain ⟨a, s₁, hma⟩ := iha ⟨s.temps + 1, s.labels⟩
    obtain ⟨b, s₂, hmb⟩ := ihb s₁
    simp only [Expr.lower, makes_bind, makes_freshTemp, makes_pure]
    exact ⟨_, _, _, _, ⟨rfl, rfl⟩, a, s₁, hma, b, s₂, hmb, rfl, rfl⟩

end Expr.Lowered

/-- What stands in a statement is lowered with it: its expressions in the frames around it, and its
blocks with their own frame added. -/
structure Statement.LoweredIn (env : Frames) (st : Statement) : Prop where
  exprs : ∀ e ∈ st.exprs, ∃ n k a n', e.Lowered env n k a n'
  blocks : ∀ b ∈ st.blocks, ∃ s inner s', Lowered (b.frame :: env) b.statements s inner s'

theorem Condition.Lowered.exprs {env : Frames} {c : Condition} {target : Label} {n n' : Nat}
    {code : Code} (h : c.Lowered env target n code n') :
    ∀ e ∈ [c.lhs, c.rhs], ∃ n k a n', e.Lowered env n k a n' := by
  obtain ⟨ha, hb⟩ := h
  exact List.forall_mem_cons.2 ⟨⟨_, _, _, _, ha⟩, List.forall_mem_singleton.2 ⟨_, _, _, _, hb⟩⟩

theorem Lowered.loweredIn {env : Frames} {ss : List Statement} {s s' : Supply} {code : Code}
    (h : Lowered env ss s code s') : ∀ st ∈ ss, st.LoweredIn env := by
  have hread : ∀ env names, (Statement.read names).LoweredIn env :=
    fun env names => ⟨List.forall_mem_nil _, List.forall_mem_nil _⟩
  have hwrite : ∀ env names, (Statement.write names).LoweredIn env :=
    fun env names => ⟨List.forall_mem_nil _, List.forall_mem_nil _⟩
  induction h with
  | nil => exact List.forall_mem_nil _
  | assign hv ha hss ih =>
    refine List.forall_mem_cons.2 ⟨⟨?_, List.forall_mem_nil _⟩, ih⟩
    exact List.forall_mem_singleton.2 ⟨_, _, _, _, ha⟩
  | readNil hss ih => exact List.forall_mem_cons.2 ⟨hread _ _, ih⟩
  | readCons hv hss ih =>
    exact List.forall_mem_cons.2 ⟨hread _ _, (List.forall_mem_cons.1 ih).2⟩
  | writeNil hss ih => exact List.forall_mem_cons.2 ⟨hwrite _ _, ih⟩
  | writeCons hv hss ih =>
    exact List.forall_mem_cons.2 ⟨hwrite _ _, (List.forall_mem_cons.1 ih).2⟩
  | ifThen hc hscope hbody hss ihbody ihss =>
    refine List.forall_mem_cons.2 ⟨⟨hc.exprs, ?_⟩, ihss⟩
    exact List.forall_mem_singleton.2 ⟨_, _, _, hbody⟩
  | ifElse hc hscope hbody hscope' halternative hss ihbody ihalternative ihss =>
    refine List.forall_mem_cons.2 ⟨⟨hc.exprs, ?_⟩, ihss⟩
    exact List.forall_mem_cons.2
      ⟨⟨_, _, _, hbody⟩, List.forall_mem_singleton.2 ⟨_, _, _, halternative⟩⟩
  | loop hc hscope hbody hss ihbody ihss =>
    refine List.forall_mem_cons.2 ⟨⟨hc.exprs, ?_⟩, ihss⟩
    exact List.forall_mem_singleton.2 ⟨_, _, _, hbody⟩

/-- The statements of every region inside `main` are lowered, in the frames of the regions around
it. -/
theorem Program.LoweredTo.of_nest {p : Program} {main : Function} {body code : Code} {s : Supply}
    (h : p.LoweredTo main body s code) {r : Region} {around : List Region}
    (hr : p.Nest r around) (hmain : .function main ∈ r :: around) :
    ∃ s₁ inner s₂, Lowered ((r :: around).map Region.frame) r.statements s₁ inner s₂ := by
  induction hr with
  | program => simp at hmain
  | @function f hf =>
    obtain rfl : main = f := by simpa using hmain
    exact ⟨_, _, _, h.lowered⟩
  | @block r around st b hr hst hb ih =>
    have hinside : .function main ∈ r :: around := by simpa using hmain
    obtain ⟨s₁, inner, s₂, hlowered⟩ := ih hinside
    exact (hlowered.loweredIn st hst).blocks b hb

/-! ## Classes in the code -/

namespace Instruction

/-- The class of the numbers that the instruction deals with. -/
def class? : Instruction → Option NumClass
  | arith _ of _ _ _ => some of
  | store of _ _ => some of
  | branch _ of _ _ _ => some of
  | read of _ => some of
  | _ => none

/-- The class and the two operands of an operation or a branch. -/
def combines? : Instruction → Option (NumClass × Temp × Temp)
  | arith _ of lhs rhs _ => some (of, lhs, rhs)
  | branch _ of lhs rhs _ => some (of, lhs, rhs)
  | _ => none

end Instruction

namespace Code

/-- Some instruction sets the temporary, as a number of the class. -/
def Defines (code : Code) (t : Temp) (k : NumClass) : Prop :=
  ∃ i ∈ code, t.index ∈ i.sets ∧ i.class? = some k

/-- The code sets the operands of its operations and branches, and their classes give the class of
the result. -/
def Promotes (code : Code) : Prop :=
  ∀ i ∈ code, ∀ of lhs rhs, i.combines? = some (of, lhs, rhs) →
    ∃ k k', code.Defines lhs k ∧ code.Defines rhs k' ∧ of = k.promote k'

variable {code code' : Code} {i : Instruction} {t : Temp} {k : NumClass}

theorem Defines.mono (h : code.Defines t k) (hsub : code ⊆ code') : code'.Defines t k := by
  obtain ⟨i, hi, hset⟩ := h
  exact ⟨i, hsub hi, hset⟩

theorem promotes_nil : Promotes [] := fun i hi => by cases hi

theorem Promotes.append (h : code.Promotes) (h' : code'.Promotes) : (code ++ code').Promotes := by
  intro i hi of lhs rhs hof
  rcases List.mem_append.1 hi with hi | hi
  · obtain ⟨k, k', hl, hr, rfl⟩ := h i hi of lhs rhs hof
    have hsub : code ⊆ code ++ code' := List.subset_append_left _ _
    exact ⟨k, k', hl.mono hsub, hr.mono hsub, rfl⟩
  · obtain ⟨k, k', hl, hr, rfl⟩ := h' i hi of lhs rhs hof
    have hsub : code' ⊆ code ++ code' := List.subset_append_right _ _
    exact ⟨k, k', hl.mono hsub, hr.mono hsub, rfl⟩

/-- An instruction that combines nothing may stand anywhere. -/
theorem promotes_of_combines?_eq_none (h : ∀ i ∈ code, i.combines? = none) : code.Promotes := by
  intro i hi of lhs rhs hof
  rw [h i hi] at hof
  cases hof

theorem Promotes.cons (hi : i.combines? = none) (h : code.Promotes) : Promotes (i :: code) :=
  (promotes_of_combines?_eq_none (List.forall_mem_singleton.2 hi)).append h

/-- An operation or a branch that stands behind the code of both of its operands. -/
theorem Promotes.combine {a b : Code} {lhs rhs : Temp} {k k' of : NumClass} (ha : a.Promotes)
    (hb : b.Promotes) (hl : a.Defines lhs k) (hr : b.Defines rhs k')
    (hi : i.combines? = some (of, lhs, rhs)) (hof : of = k.promote k') :
    (a ++ b ++ [i]).Promotes := by
  intro j hj of' lhs' rhs' hcombines
  have hsub : a ++ b ⊆ a ++ b ++ [i] := List.subset_append_left _ _
  rcases List.mem_append.1 hj with hj | hj
  · obtain ⟨k, k', hl, hr, rfl⟩ := ha.append hb j hj of' lhs' rhs' hcombines
    exact ⟨k, k', hl.mono hsub, hr.mono hsub, rfl⟩
  · rw [List.mem_singleton.1 hj, hi] at hcombines
    cases hcombines
    exact ⟨k, k', hl.mono (List.Subset.trans (List.subset_append_left _ _) hsub),
      hr.mono (List.Subset.trans (List.subset_append_right _ _) hsub), hof⟩

/-- A temporary that is set once has the class of any instruction that sets it. -/
theorem Defines.class?_eq (h : code.Defines t k) (hnodup : (code.flatMap sets).Nodup)
    (hi : i ∈ code) (hset : t.index ∈ i.sets) : i.class? = some k := by
  obtain ⟨j, hj, hset', hk⟩ := h
  obtain ⟨m, hm⟩ := List.getElem?_of_mem hi
  obtain ⟨m', hm'⟩ := List.getElem?_of_mem hj
  have hplace : m = m' := Has.place_eq hnodup ⟨i, hm, hset⟩ ⟨j, hm', hset'⟩
  rw [hplace, hm'] at hm
  cases hm
  exact hk

end Code

theorem Scope.promotes_declaration (scope : Scope) : scope.declaration.Promotes := by
  refine Code.promotes_of_combines?_eq_none fun i hi => ?_
  unfold declaration at hi
  split at hi
  · cases hi
  · rw [List.mem_singleton.1 hi]
    rfl

section

variable {env : Frames} {e : Expr} {c : Condition} {target : Label} {n n' : Nat} {k : NumClass}
  {code : Code}

/-- The value of an expression is set as a number of its class. -/
theorem Expr.Lowered.defines (h : e.Lowered env n k code n') : code.Defines ⟨n⟩ k := by
  cases h with
  | int => exact ⟨_, List.mem_singleton_self _, List.mem_singleton_self _, rfl⟩
  | float => exact ⟨_, List.mem_singleton_self _, List.mem_singleton_self _, rfl⟩
  | var hv => exact ⟨_, List.mem_singleton_self _, List.mem_singleton_self _, rfl⟩
  | binary ha hb =>
    exact ⟨_, List.mem_append_right _ (List.mem_singleton_self _), List.mem_singleton_self _, rfl⟩

theorem Expr.Lowered.promotes (h : e.Lowered env n k code n') : code.Promotes := by
  induction h with
  | int => exact Code.promotes_nil.cons rfl
  | float => exact Code.promotes_nil.cons rfl
  | var => exact Code.promotes_nil.cons rfl
  | binary ha hb iha ihb =>
    exact iha.combine ihb ha.defines hb.defines rfl (NumClass.promote_eq_join _ _).symm

theorem Condition.Lowered.promotes (h : c.Lowered env target n code n') : code.Promotes := by
  obtain ⟨ha, hb⟩ := h
  exact ha.promotes.combine hb.promotes ha.defines hb.defines rfl
    (NumClass.promote_eq_join _ _).symm

end

theorem Lowered.promotes {env : Frames} {ss : List Statement} {s s' : Supply} {code : Code}
    (h : Lowered env ss s code s') : code.Promotes := by
  induction h with
  | nil => exact Code.promotes_nil
  | assign hv ha hss ih => exact ha.promotes.append (ih.cons rfl)
  | readNil hss ih => exact ih
  | readCons hv hss ih => exact ih.cons rfl
  | writeNil hss ih => exact ih
  | writeCons hv hss ih => exact ih.cons rfl
  | @ifThen env c body ss s s₁ s' test then_ rest n hc hscope hbody hss ihbody ihss =>
    have hthen := body.scope.promotes_declaration.append ihbody
    exact (hc.promotes.append hthen).append (ihss.cons rfl)
  | @ifElse env c body alternative ss s s₁ s₂ s' test then_ else_ rest n hc hscope hbody hscope'
      halternative hss ihbody ihalternative ihss =>
    have hthen := body.scope.promotes_declaration.append ihbody
    have helse := alternative.scope.promotes_declaration.append ihalternative
    exact (hc.promotes.append hthen).append (((helse.append (ihss.cons rfl)).cons rfl).cons rfl)
  | @loop env c body ss s s₁ s' test again rest n hc hscope hbody hss ihbody ihss =>
    have hagain := body.scope.promotes_declaration.append ihbody
    exact ((hc.promotes.append hagain).append ((ihss.cons rfl).cons rfl)).cons rfl

theorem Program.LoweredTo.promotes {p : Program} {main : Function} {body code : Code} {s : Supply}
    (h : p.LoweredTo main body s code) : code.Promotes := by
  rw [h.code_eq]
  exact (Scope.promotes_declaration _).append
    ((Scope.promotes_declaration _).append h.lowered.promotes)

/-- A text is used where it is written only. -/
theorem Instruction.Typed.eq_write {i : Instruction} (h : i.Typed) {v : Variable} (hv : v ∈ i.uses)
    (htype : v.type = .string) : i = .write v := by
  cases i with
  | store of source target =>
    rw [h v hv] at htype
    cases htype
  | read of v' =>
    rw [List.mem_singleton.1 hv, show v'.type = .number of from h] at htype
    cases htype
  | write v' => rw [List.mem_singleton.1 hv]
  | _ => cases hv

/-- The classes in the code fit each other and the variables. -/
structure Code.WellClassed (code : Code) : Prop where
  /-- The operands are set somewhere, and whatever sets them, the class is the promotion. -/
  combines : ∀ i ∈ code, ∀ of lhs rhs, i.combines? = some (of, lhs, rhs) →
    (∃ a ∈ code, lhs.index ∈ a.sets) ∧ (∃ b ∈ code, rhs.index ∈ b.sets) ∧
      ∀ a ∈ code, ∀ b ∈ code, lhs.index ∈ a.sets → rhs.index ∈ b.sets →
        ∃ k k', a.class? = some k ∧ b.class? = some k' ∧ of = k.promote k'
  assigned : ∀ of source v, .store of source (.var v) ∈ code → v.type = .number of
  loaded : ∀ of v t, .store of (.var v) (.temp t) ∈ code → v.type = .number of
  read : ∀ of v, .read of v ∈ code → v.type = .number of
  text : ∀ i ∈ code, ∀ v ∈ i.uses, v.type = .string → i = .write v

theorem Program.LoweredTo.wellClassed {p : Program} {main : Function} {body code : Code}
    {s : Supply} (h : p.LoweredTo main body s code) : code.WellClassed where
  combines := by
    intro i hi of lhs rhs hcombines
    -- A temporary is set once, so whatever sets an operand is the instruction found for it.
    have hnodup : (code.flatMap sets).Nodup := by
      rw [h.flatMap_eq fun _ => rfl]
      exact h.lowered.covers_sets.nodup
    obtain ⟨k, k', hl, hr, rfl⟩ := h.promotes i hi of lhs rhs hcombines
    obtain ⟨a, ha, hla, -⟩ := id hl
    obtain ⟨b, hb, hrb, -⟩ := id hr
    exact ⟨⟨a, ha, hla⟩, ⟨b, hb, hrb⟩, fun a' ha' b' hb' hla' hrb' =>
      ⟨k, k', hl.class?_eq hnodup ha' hla', hr.class?_eq hnodup hb' hrb', rfl⟩⟩
  assigned of source v hi :=
    h.typed _ hi v (List.mem_append_right _ (List.mem_singleton_self v))
  loaded of v t hi := h.typed _ hi v (List.mem_append_left _ (List.mem_singleton_self v))
  read of v hi := h.typed _ hi
  text i hi v hv htype := (h.typed i hi).eq_write hv htype

/-- Wherever an expression is lowered, it becomes real exactly if one of its leaves is real in the
regions around. All the expressions inside `main`, at any depth, are lowered, and the classes of the
code are consistent. -/
theorem Program.class_consistent {tokens : List (Located Token)} {p : Program} {code : Code}
    (hp : Program.parse tokens = .ok p) (hc : p.lower = .ok code) :
    (∀ r around, p.Nest r around → ∀ e s x s', Makes (Expr.lower r.scope e) s x s' →
      (x.of = .float ↔ ∃ leaf ∈ e.leaves, leaf.IsReal ((r :: around).map Region.frame))) ∧
    (∃ main, p.HasMain main ∧
      ∀ r around, p.Nest r around → .function main ∈ r :: around →
        ∀ st ∈ r.statements, ∀ root ∈ st.exprs, ∀ e ∈ root.within, ∀ s,
          ∃ x s', Makes (e.lower r.scope) s x s') ∧
    code.WellClassed := by
  obtain ⟨main, body, supply, h⟩ := Program.exists_loweredTo hp hc
  obtain ⟨d, -, -, rfl⟩ := Program.parse_eq_ok_iff.1 hp
  refine ⟨?_, ⟨main, Program.main?_eq_some_iff.1 h.main_eq, ?_⟩, h.wellClassed⟩
  · intro r around hr e s x s' hx
    have hlowered := Expr.lowered_of_makes (Grammar.Prog.sees_of_nest hr).names hx
    exact hlowered.2.2.class_eq_float_iff
  · intro r around hr hmain st hst root hroot e he s
    obtain ⟨s₁, inner, s₂, hlowered⟩ := h.of_nest hr hmain
    obtain ⟨n, k, a, n', hroot⟩ := (hlowered.loweredIn st hst).exprs root hroot
    obtain ⟨m, k', a', m', he⟩ := hroot.of_mem_within e he
    exact he.exists_makes (Grammar.Prog.sees_of_nest hr).names s

/-! ## A program in which a real variable hides another -/

open Grammar

/-- `PROGRAM p BEGIN INT x; STRING s := "s"; FUNCTION VOID main() BEGIN IF (x < 1) FLOAT x;
x := 2 * x; WRITE(s); ENDIF END END` -/
def hidden : Prog where
  program := {}
  name := unplaced "p"
  begin_ := {}
  globals := [.numbers (unplaced .int) ⟨unplaced "x", []⟩ {},
    .text {} (unplaced "s") {} (unplaced "s") {}]
  functions := [{
    function := {}
    returns := unplaced .void
    name := unplaced "main"
    opening := {}
    parameters := .none
    closing := {}
    begin_ := {}
    body := ⟨[], [.ifThen {} {}
      ⟨.var "x", unplaced .less, .int "1"⟩ {}
      ⟨[.numbers (unplaced .float) ⟨unplaced "x", []⟩ {}],
        [.assign (unplaced "x") {}
          (.mk (.mk (.int (unplaced "2"))
            (.cons (unplaced .times) (.var (unplaced "x")) .nil)) .nil) {},
        .write {} {} ⟨unplaced "s", []⟩ {} {}]⟩ {}]⟩
    end_ := {} }]
  end_ := {}

theorem Program.class_consistent_hidden :
    ∃ (main : Function) (condition : Condition) (body : Block) (target : Located String)
      (value : Expr) (rest : List Statement) (code : Code),
      Program.parse hidden.tokens = .ok hidden.tree ∧ hidden.tree.lower = .ok code ∧
      hidden.tree.HasMain main ∧ main.body.statements = [.ifThen condition body] ∧
      body.statements = .assign target value :: rest ∧
      (∃ x s', Makes (condition.lhs.lower main.body.scope) {} x s' ∧ x.of ≠ .float) ∧
      (∃ x s', Makes (value.lower body.scope) {} x s' ∧ x.of = .float) ∧ code.WellClassed := by
  have hp : Program.parse hidden.tokens = .ok hidden.tree :=
    Program.parse_eq_ok_iff.2 ⟨hidden, rfl, by decide, rfl⟩
  obtain ⟨main, condition, body, target, value, rest, hmain, hs, hbody, hint, hfloat⟩ :
      ∃ (main : Function) (condition : Condition) (body : Block) (target : Located String)
        (value : Expr) (rest : List Statement), hidden.tree.main? = some main ∧
        main.body.statements = [.ifThen condition body] ∧
        body.statements = .assign target value :: rest ∧
        (¬ ∃ leaf ∈ condition.lhs.leaves, leaf.IsReal [main.frame, hidden.tree.frame]) ∧
        ∃ leaf ∈ value.leaves, leaf.IsReal [body.frame, main.frame, hidden.tree.frame] := by
    refine ⟨_, _, _, _, _, _, rfl, rfl, rfl, ?_, .var "x" {}, .tail _ (.head _), _, rfl, rfl⟩
    rintro ⟨leaf, hleaf, hreal⟩
    rw [List.mem_singleton.1 hleaf] at hreal
    obtain ⟨v, hv, htype⟩ := hreal
    cases hv
    cases htype
  obtain ⟨hclass, ⟨main', hmain', hmakes⟩, hcode⟩ := Program.class_consistent hp rfl
  rw [← Program.main?_eq_some_iff] at hmain'
  obtain rfl : main = main' := Option.some.inj (hmain.symm.trans hmain')
  have hnest : hidden.tree.Nest (.function main) [.program hidden.tree] :=
    .function (List.mem_of_find?_eq_some hmain)
  have hst : .ifThen condition body ∈ (Region.function main).statements := by
    simp [Region.statements, hs]
  have hnest' := hnest.block hst (List.mem_singleton_self body)
  obtain ⟨x, s', hx⟩ := hmakes _ _ hnest (by simp) _ hst condition.lhs (by simp [Statement.exprs])
    condition.lhs (Expr.mem_within_self _) {}
  obtain ⟨y, s'', hy⟩ := hmakes _ _ hnest' (by simp) (.assign target value)
    (by simp [Region.statements, hbody]) value (by simp [Statement.exprs])
    value (Expr.mem_within_self _) {}
  exact ⟨main, condition, body, target, value, rest, _, hp, rfl,
    Program.main?_eq_some_iff.1 hmain, hs, hbody,
    ⟨x, s', hx, fun hof => hint ((hclass _ _ hnest _ _ _ _ hx).1 hof)⟩,
    ⟨y, s'', hy, (hclass _ _ hnest' _ _ _ _ hy).2 hfloat⟩, hcode⟩

end LittleTiny
