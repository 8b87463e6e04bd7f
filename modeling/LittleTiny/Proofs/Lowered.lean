import LittleTiny.Proofs.Execution
import LittleTiny.Proofs.Scopes

/-!
# The shape of lowered code

`Lowered` relates statements to their code without the supply of numbers being passed along by the
way of a monad, and with names looked up in the frames around them in place of scopes. It has one
rule for each form of the first statement, so that facts about code are proved by induction on it.
What lowering makes of the tree of a derivation is related to it in this way (`Stmt.lowered`).
-/

namespace LittleTiny

/-! ## What lowering makes -/

namespace Lower

variable {α β : Type} {s s' : Supply}

/-- Lowering succeeds with `a`, and leaves the supply `s'`. -/
def Makes (x : Lower α) (s : Supply) (a : α) (s' : Supply) : Prop := x s = .ok a s'

theorem makes_bind {x : Lower α} {f : α → Lower β} {b : β} :
    Makes (x >>= f) s b s' ↔ ∃ a s₁, Makes x s a s₁ ∧ Makes (f a) s₁ b s' := by
  show EStateM.bind x f s = .ok b s' ↔ _
  unfold EStateM.bind
  constructor
  · intro h
    split at h
    · next a s₁ hx => exact ⟨a, s₁, hx, h⟩
    · cases h
  · rintro ⟨a, s₁, hx, hf⟩
    rw [show x s = .ok a s₁ from hx]
    exact hf

theorem makes_pure {a b : α} : Makes (pure a) s b s' ↔ a = b ∧ s = s' := by
  show EStateM.Result.ok a s = .ok b s' ↔ _
  rw [EStateM.Result.ok.injEq]

theorem makes_freshTemp {t : Temp} :
    Makes freshTemp s t s' ↔ ⟨s.temps⟩ = t ∧ ⟨s.temps + 1, s.labels⟩ = s' :=
  makes_pure

theorem makes_freshLabel {l : Label} :
    Makes freshLabel s l s' ↔ ⟨s.labels⟩ = l ∧ ⟨s.temps, s.labels + 1⟩ = s' :=
  makes_pure

theorem not_makes_fail {e : SemanticError} {l : Location} {a : α} :
    ¬ Makes (fail e l) s a s' := by
  intro h
  cases h

end Lower

open Lower

namespace Scope

variable {scope : Scope} {env : Frames} {name : String} {l : Location} {s s' : Supply}

theorem makes_resolve (h : scope.Sees env) {v : Variable} :
    Makes (scope.resolve name l) s v s' ↔ env.find? name = some v ∧ s = s' := by
  rw [resolve, h name]
  cases env.find? name with
  | none => simp [not_makes_fail]
  | some v' => simp [makes_pure]

theorem makes_numeric (h : scope.Sees env) {x : NumClass × Variable} :
    Makes (scope.numeric name l) s x s' ↔ env.number? name = some x ∧ s = s' := by
  rw [numeric, makes_bind]
  simp only [makes_resolve h]
  constructor
  · rintro ⟨v, s₁, ⟨hv, rfl⟩, hx⟩
    rw [Frames.number?, hv]
    cases ht : v.type with
    | number of =>
      rw [ht] at hx
      obtain ⟨rfl, rfl⟩ := makes_pure.1 hx
      exact ⟨by simp only [ht], rfl⟩
    | string =>
      rw [ht] at hx
      exact absurd hx not_makes_fail
  · rintro ⟨hx, rfl⟩
    rw [Frames.number?] at hx
    cases hv : env.find? name with
    | none =>
      rw [hv] at hx
      cases hx
    | some v =>
      rw [hv] at hx
      refine ⟨v, s, ⟨rfl, rfl⟩, ?_⟩
      cases ht : v.type with
      | number of =>
        simp only [ht, Option.some.injEq] at hx
        exact makes_pure.2 ⟨hx, rfl⟩
      | string =>
        simp only [ht, reduceCtorEq] at hx

end Scope

/-! ## Expressions and conditions -/

/-- The code of an expression, whose value gets the temporary `n`. -/
inductive Expr.Lowered (env : Frames) : Expr → Nat → NumClass → Code → Nat → Prop
  | int {digits : String} {l : Location} {n : Nat} :
      Lowered env (.int digits l) n .int [.store .int (.literal digits) (.temp ⟨n⟩)] (n + 1)
  | float {digits : String} {l : Location} {n : Nat} :
      Lowered env (.float digits l) n .float [.store .float (.literal digits) (.temp ⟨n⟩)] (n + 1)
  | var {name : String} {l : Location} {n : Nat} {of : NumClass} {v : Variable}
      (hv : env.number? name = some (of, v)) :
      Lowered env (.var name l) n of [.store of (.var v) (.temp ⟨n⟩)] (n + 1)
  | binary {op : ArithOp} {lhs rhs : Expr} {l : Location} {n n₁ n₂ : Nat} {k k' : NumClass}
      {a b : Code} (ha : Lowered env lhs (n + 1) k a n₁) (hb : Lowered env rhs n₁ k' b n₂) :
      Lowered env (.binary op lhs rhs l) n (k.join k')
        (a ++ b ++ [.arith op (k.join k') ⟨n + 1⟩ ⟨n₁⟩ ⟨n⟩]) n₂

theorem Expr.Lowered.lt {env : Frames} {e : Expr} {n n' : Nat} {k : NumClass} {code : Code}
    (h : e.Lowered env n k code n') : n < n' := by
  induction h with
  | int => exact Nat.lt_succ_self _
  | float => exact Nat.lt_succ_self _
  | var => exact Nat.lt_succ_self _
  | binary ha hb iha ihb => omega

/-- The code of a condition, which goes to `target` when it is false. -/
inductive Condition.Lowered (env : Frames) (c : Condition) (target : Label) (n : Nat) :
    Code → Nat → Prop
  | mk {n₁ n₂ : Nat} {k k' : NumClass} {a b : Code} (ha : c.lhs.Lowered env n k a n₁)
      (hb : c.rhs.Lowered env n₁ k' b n₂) :
      Lowered env c target n
        (a ++ b ++ [.branch c.op.negate (k.join k') ⟨n⟩ ⟨n₁⟩ target]) n₂

theorem Expr.lowered_of_makes {scope : Scope} {env : Frames} (h : scope.Sees env) :
    ∀ {e : Expr} {s s' : Supply} {x : Value}, Makes (e.lower scope) s x s' →
      x.temp = ⟨s.temps⟩ ∧ s'.labels = s.labels ∧ e.Lowered env s.temps x.of x.code s'.temps
  | .int digits l, s, s', x, hx => by
    simp only [Expr.lower, makes_bind, makes_freshTemp, makes_pure] at hx
    obtain ⟨_, _, ⟨rfl, rfl⟩, rfl, rfl⟩ := hx
    exact ⟨rfl, rfl, .int⟩
  | .float digits l, s, s', x, hx => by
    simp only [Expr.lower, makes_bind, makes_freshTemp, makes_pure] at hx
    obtain ⟨_, _, ⟨rfl, rfl⟩, rfl, rfl⟩ := hx
    exact ⟨rfl, rfl, .float⟩
  | .var name l, s, s', x, hx => by
    simp only [Expr.lower, makes_bind, makes_freshTemp, makes_pure, Scope.makes_numeric h] at hx
    obtain ⟨_, _, ⟨rfl, rfl⟩, ⟨of, v⟩, _, ⟨hv, rfl⟩, rfl, rfl⟩ := hx
    exact ⟨rfl, rfl, .var hv⟩
  | .binary op lhs rhs l, s, s', x, hx => by
    simp only [Expr.lower, makes_bind, makes_freshTemp, makes_pure] at hx
    obtain ⟨_, _, ⟨rfl, rfl⟩, a, s₁, ha, b, s₂, hb, rfl, rfl⟩ := hx
    obtain ⟨hta, hla, ha⟩ := Expr.lowered_of_makes h ha
    obtain ⟨htb, hlb, hb⟩ := Expr.lowered_of_makes h hb
    refine ⟨rfl, hlb.trans hla, ?_⟩
    rw [NumClass.promote_eq_join, hta, htb]
    exact .binary ha hb
  | .call function arguments l, s, s', x, hx => by
    simp only [Expr.lower, makes_bind] at hx
    obtain ⟨_, _, -, hx⟩ := hx
    exact absurd hx not_makes_fail

theorem Condition.lowered_of_makes {scope : Scope} {env : Frames}
    (h : scope.Sees env) {c : Condition} {target : Label} {s s' : Supply} {code : Code}
    (hc : Makes (c.lower scope target) s code s') :
    s'.labels = s.labels ∧ c.Lowered env target s.temps code s'.temps := by
  simp only [Condition.lower, makes_bind, makes_pure] at hc
  obtain ⟨a, s₁, ha, b, s₂, hb, rfl, rfl⟩ := hc
  obtain ⟨hta, hla, ha⟩ := Expr.lowered_of_makes h ha
  obtain ⟨htb, hlb, hb⟩ := Expr.lowered_of_makes h hb
  rw [NumClass.promote_eq_join, hta, htb]
  exact ⟨hlb.trans hla, .mk ha hb⟩

/-! ## Statements -/

/-- The code of the statements of a block, in the frames `env`. A block inside begins with the
declaration of its scope, which holds the variables of its frame. -/
inductive Lowered : Frames → List Statement → Supply → Code → Supply → Prop
  | nil {env : Frames} {s : Supply} : Lowered env [] s [] s
  | assign {env : Frames} {target : Located String} {value : Expr} {ss : List Statement}
      {s s' : Supply} {of k : NumClass} {v : Variable} {a rest : Code} {n : Nat}
      (hv : env.number? target.value = some (of, v)) (ha : value.Lowered env s.temps k a n)
      (hss : Lowered env ss ⟨n, s.labels⟩ rest s') :
      Lowered env (.assign target value :: ss) s
        (a ++ .store of (.temp ⟨s.temps⟩) (.var v) :: rest) s'
  | readNil {env : Frames} {ss : List Statement} {s s' : Supply} {rest : Code}
      (hss : Lowered env ss s rest s') : Lowered env (.read [] :: ss) s rest s'
  | readCons {env : Frames} {name : Located String} {names : List (Located String)}
      {ss : List Statement} {s s' : Supply} {of : NumClass} {v : Variable} {rest : Code}
      (hv : env.number? name.value = some (of, v))
      (hss : Lowered env (.read names :: ss) s rest s') :
      Lowered env (.read (name :: names) :: ss) s (.read of v :: rest) s'
  | writeNil {env : Frames} {ss : List Statement} {s s' : Supply} {rest : Code}
      (hss : Lowered env ss s rest s') : Lowered env (.write [] :: ss) s rest s'
  | writeCons {env : Frames} {name : Located String} {names : List (Located String)}
      {ss : List Statement} {s s' : Supply} {v : Variable} {rest : Code}
      (hv : env.find? name.value = some v) (hss : Lowered env (.write names :: ss) s rest s') :
      Lowered env (.write (name :: names) :: ss) s (.write v :: rest) s'
  | ifThen {env : Frames} {c : Condition} {body : Block} {ss : List Statement} {s s₁ s' : Supply}
      {test then_ rest : Code} {n : Nat} (hc : c.Lowered env ⟨s.labels⟩ s.temps test n)
      (hscope : body.scope.declared = body.frame)
      (hbody : Lowered (body.frame :: env) body.statements ⟨n, s.labels + 1⟩ then_ s₁)
      (hss : Lowered env ss s₁ rest s') :
      Lowered env (.ifThen c body :: ss) s
        (test ++ (body.scope.declaration ++ then_) ++ .label ⟨s.labels⟩ :: rest) s'
  | ifElse {env : Frames} {c : Condition} {body alternative : Block} {ss : List Statement}
      {s s₁ s₂ s' : Supply} {test then_ else_ rest : Code} {n : Nat}
      (hc : c.Lowered env ⟨s.labels⟩ s.temps test n)
      (hscope : body.scope.declared = body.frame)
      (hbody : Lowered (body.frame :: env) body.statements ⟨n, s.labels + 2⟩ then_ s₁)
      (hscope' : alternative.scope.declared = alternative.frame)
      (halternative : Lowered (alternative.frame :: env) alternative.statements s₁ else_ s₂)
      (hss : Lowered env ss s₂ rest s') :
      Lowered env (.ifElse c body alternative :: ss) s
        (test ++ (body.scope.declaration ++ then_) ++
          .jump ⟨s.labels + 1⟩ :: .label ⟨s.labels⟩ ::
            ((alternative.scope.declaration ++ else_) ++ .label ⟨s.labels + 1⟩ :: rest)) s'
  | loop {env : Frames} {c : Condition} {body : Block} {ss : List Statement} {s s₁ s' : Supply}
      {test again rest : Code} {n : Nat} (hc : c.Lowered env ⟨s.labels + 1⟩ s.temps test n)
      (hscope : body.scope.declared = body.frame)
      (hbody : Lowered (body.frame :: env) body.statements ⟨n, s.labels + 2⟩ again s₁)
      (hss : Lowered env ss s₁ rest s') :
      Lowered env (.loop c body :: ss) s
        (.label ⟨s.labels⟩ :: (test ++ (body.scope.declaration ++ again) ++
          .jump ⟨s.labels⟩ :: .label ⟨s.labels + 1⟩ :: rest)) s'

/-! ## From lowering to its shape -/

namespace Statement

variable {scope : Scope} {env : Frames} {ss : List Statement} {s'' : Supply} {rest : Code}

theorem lowered_reads (h : scope.Sees env) :
    ∀ {names : List (Located String)} {s s' : Supply} {code : Code},
      Makes (lowerReads scope names) s code s' → Lowered env ss s' rest s'' →
      Lowered env (.read names :: ss) s (code ++ rest) s''
  | [], s, s', code, hc, hss => by
    obtain ⟨rfl, rfl⟩ := makes_pure.1 hc
    exact .readNil hss
  | name :: names, s, s', code, hc, hss => by
    simp only [lowerReads, makes_bind, makes_pure, Scope.makes_numeric h] at hc
    obtain ⟨⟨of, v⟩, _, ⟨hv, rfl⟩, code, _, hc, rfl, rfl⟩ := hc
    exact .readCons hv (lowered_reads h hc hss)

theorem lowered_writes (h : scope.Sees env) :
    ∀ {names : List (Located String)} {s s' : Supply} {code : Code},
      Makes (lowerWrites scope names) s code s' → Lowered env ss s' rest s'' →
      Lowered env (.write names :: ss) s (code ++ rest) s''
  | [], s, s', code, hc, hss => by
    obtain ⟨rfl, rfl⟩ := makes_pure.1 hc
    exact .writeNil hss
  | name :: names, s, s', code, hc, hss => by
    simp only [lowerWrites, makes_bind, makes_pure, Scope.makes_resolve h] at hc
    obtain ⟨v, _, ⟨hv, rfl⟩, code, _, hc, rfl, rfl⟩ := hc
    exact .writeCons hv (lowered_writes h hc hss)

end Statement

namespace Grammar

mutual

theorem Stmt.lowered : ∀ {d : Stmt} {scope : Scope} {env : Frames} {n : Nat} {s s' s'' : Supply}
    {code rest : Code} {ss : List Statement}, scope.Sees env →
    Makes ((d.tree scope n).lower scope) s code s' → Lowered env ss s' rest s'' →
    Lowered env (d.tree scope n :: ss) s (code ++ rest) s''
  | .assign target becomes value semicolon, scope, env, n, s, s', s'', code, rest, ss, h, hc,
      hss => by
    simp only [Stmt.tree, Statement.lower, makes_bind, makes_pure, Scope.makes_numeric h] at hc
    obtain ⟨⟨of, v⟩, _, ⟨hv, rfl⟩, x, s₁, hx, rfl, rfl⟩ := hc
    obtain ⟨ht, hl, hx⟩ := Expr.lowered_of_makes h hx
    rw [List.append_assoc, ht]
    exact .assign hv hx (hl ▸ hss)
  | .read start opening names closing semicolon, scope, env, n, s, s', s'', code, rest, ss, h, hc,
      hss => by
    rw [Stmt.tree, Statement.lower] at hc
    exact Statement.lowered_reads h hc hss
  | .write start opening names closing semicolon, scope, env, n, s, s', s'', code, rest, ss, h, hc,
      hss => by
    rw [Stmt.tree, Statement.lower] at hc
    exact Statement.lowered_writes h hc hss
  | .ifThen if_ opening condition closing body endIf, scope, env, n, s, s', s'', code, rest, ss, h,
      hc, hss => by
    simp only [Stmt.tree, Statement.lower, makes_bind, makes_pure, makes_freshLabel] at hc
    obtain ⟨_, _, ⟨rfl, rfl⟩, test, ⟨n₁, _⟩, htest, code, s₂, hcode, rfl, rfl⟩ := hc
    obtain ⟨rfl, hc⟩ := Condition.lowered_of_makes h htest
    obtain ⟨then_, rfl, hbody⟩ := Body.lowered (h.over_nested _) hcode
    have hd := body.declared_nested scope (n + 1)
    rw [hd] at hbody
    rw [List.append_assoc]
    exact .ifThen hc hd hbody hss
  | .ifElse if_ opening condition closing body else_ alternative endIf, scope, env, n, s, s', s'',
      code, rest, ss, h, hc, hss => by
    simp only [Stmt.tree, Statement.lower, makes_bind, makes_pure, makes_freshLabel] at hc
    obtain ⟨_, _, ⟨rfl, rfl⟩, _, _, ⟨rfl, rfl⟩, test, ⟨n₁, _⟩, htest, code, s₂, hcode, code', s₃,
      hcode', rfl, rfl⟩ := hc
    obtain ⟨rfl, hc⟩ := Condition.lowered_of_makes h htest
    obtain ⟨then_, rfl, hbody⟩ := Body.lowered (h.over_nested _) hcode
    obtain ⟨else_, rfl, halternative⟩ := Body.lowered (h.over_nested _) hcode'
    have hd := body.declared_nested scope (n + 1)
    have hd' := alternative.declared_nested scope (n + 1 + body.openings + 1)
    rw [hd] at hbody
    rw [hd'] at halternative
    have hlowered := Lowered.ifElse hc hd hbody hd' halternative hss
    simpa [Stmt.tree] using hlowered
  | .loop while_ opening condition closing body endWhile, scope, env, n, s, s', s'', code, rest,
      ss, h, hc, hss => by
    simp only [Stmt.tree, Statement.lower, makes_bind, makes_pure, makes_freshLabel] at hc
    obtain ⟨_, _, ⟨rfl, rfl⟩, _, _, ⟨rfl, rfl⟩, test, ⟨n₁, _⟩, htest, code, s₂, hcode, rfl,
      rfl⟩ := hc
    obtain ⟨rfl, hc⟩ := Condition.lowered_of_makes h htest
    obtain ⟨again, rfl, hbody⟩ := Body.lowered (h.over_nested _) hcode
    have hd := body.declared_nested scope (n + 1)
    rw [hd] at hbody
    have hlowered := Lowered.loop hc hd hbody hss
    simpa [Stmt.tree] using hlowered
  | .return_ start value semicolon, scope, env, n, s, s', s'', code, rest, ss, h, hc, hss => by
    rw [Stmt.tree, Statement.lower] at hc
    exact absurd hc not_makes_fail

theorem Body.lowered : ∀ {b : Body} {scope : Scope} {env : Frames} {n : Nat} {s s' : Supply}
    {code : Code}, scope.Over env.find? → Makes (b.tree scope n).lower s code s' →
    ∃ inner, code = (b.tree scope n).scope.declaration ++ inner ∧
      Lowered ((b.tree scope n).scope.declared :: env) (b.tree scope n).statements s inner s'
  | ⟨decls, stmts⟩, scope, env, n, s, s', code, h, hc => by
    simp only [Body.tree, Block.lower, makes_bind, makes_pure] at hc
    obtain ⟨inner, _, hinner, rfl, rfl⟩ := hc
    exact ⟨inner, rfl, Stmt.loweredAll (h.add _).sees hinner⟩

theorem Stmt.loweredAll : ∀ {ds : List Stmt} {scope : Scope} {env : Frames} {n : Nat}
    {s s' : Supply} {code : Code}, scope.Sees env →
    Makes (Statement.lowerAll scope (Stmt.trees scope n ds)) s code s' →
    Lowered env (Stmt.trees scope n ds) s code s'
  | [], scope, env, n, s, s', code, h, hc => by
    obtain ⟨rfl, rfl⟩ := makes_pure.1 hc
    exact .nil
  | d :: ds, scope, env, n, s, s', code, h, hc => by
    simp only [Stmt.trees, Statement.lowerAll, makes_bind, makes_pure] at hc
    obtain ⟨first, s₁, hfirst, rest, _, hrest, rfl, rfl⟩ := hc
    exact Stmt.lowered h hfirst (Stmt.loweredAll h hrest)

end

end Grammar

open Grammar

/-- The code of a program: the declarations of its scope and of that of `main`, and what the
statements of `main` become. -/
structure Program.LoweredTo (p : Program) (main : Function) (body : Code) (s : Supply)
    (code : Code) : Prop where
  main_eq : p.main? = some main
  declared : p.scope.declared = p.frame
  declared_main : main.body.scope.declared = main.frame
  code_eq : code = p.scope.declaration ++ (main.body.scope.declaration ++ body)
  lowered : Lowered [main.frame, p.frame] main.body.statements {} body s

theorem Program.lower_eq_ok_iff {p : Program} {code : Code} :
    p.lower = .ok code ↔ ∃ s, Makes p.lowerMain {} code s := by
  rw [Program.lower]
  constructor
  · intro h
    split at h
    · next code' s hrun =>
      cases h
      exact ⟨s, hrun⟩
    · cases h
  · rintro ⟨s, hs⟩
    rw [show p.lowerMain.run {} = .ok code s from hs]

theorem Program.exists_loweredTo_of_makes {tokens : List (Located Token)} {p : Program}
    {code : Code} {s : Supply} (hp : Program.parse tokens = .ok p)
    (hrun : Makes p.lowerMain {} code s) : ∃ main body, p.LoweredTo main body s code := by
  obtain ⟨d, -, -, rfl⟩ := Program.parse_eq_ok_iff.1 hp
  rw [lowerMain] at hrun
  split at hrun
  · next main hmain =>
    simp only [makes_bind, makes_pure] at hrun
    obtain ⟨inner, _, hinner, rfl, rfl⟩ := hrun
    obtain ⟨f, -, n, rfl⟩ := Func.exists_of_mem_trees (List.mem_of_find?_eq_some hmain)
    have hover : (f.scope d.scope (n + 1)).Over (Frames.find? [d.tree.frame]) :=
      (d.sees_scope.over_nested (n + 1)).add _
    obtain ⟨body, rfl, hbody⟩ := Body.lowered hover hinner
    exact ⟨_, body, hmain, d.frame_tree, f.frame_tree _ _, rfl, f.frame_tree d.scope n ▸ hbody⟩
  · exact absurd hrun not_makes_fail

theorem Program.exists_loweredTo {tokens : List (Located Token)} {p : Program} {code : Code}
    (hp : Program.parse tokens = .ok p) (hc : p.lower = .ok code) :
    ∃ main body s, p.LoweredTo main body s code := by
  obtain ⟨s, hrun⟩ := Program.lower_eq_ok_iff.1 hc
  obtain ⟨main, body, h⟩ := Program.exists_loweredTo_of_makes hp hrun
  exact ⟨main, body, s, h⟩

end LittleTiny
