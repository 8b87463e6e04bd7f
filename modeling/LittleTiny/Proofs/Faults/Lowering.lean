import LittleTiny.Proofs.Faults

/-!
# Lowering finds the first fault

Lowering stops at what it cannot lower. `Lower.Answers` says what it answers, whatever numbers have
been taken before: that it succeeds, or with which fault it stops. In a sequence of steps the first
fault counts, as it does in a list of marked tokens, so that lowering a derivation answers the first
fault in its tokens. The rules for expressions hold inside parentheses too, which change the
location of a name and nothing else.
-/

namespace LittleTiny

open Grammar

/-! ## What lowering answers -/

namespace Lower

variable {α β : Type} {fault? other? : Option Fault}

/-- Lowering succeeds if there is no fault, and stops with the fault if there is one. It is never
the one that `main` is missing. -/
def Answers (x : Lower α) (fault? : Option Fault) : Prop :=
  (fault? = none → ∀ s, ∃ a s', x s = .ok a s') ∧
    ∀ fault, fault? = some fault → fault.value ≠ .noMain ∧ ∀ s, ∃ s', x s = .error fault s'

theorem answers_pure (a : α) : Answers (pure a) none := ⟨fun _ s => ⟨a, s, rfl⟩, nofun⟩

theorem answers_fail (e : SemanticError) (he : e ≠ .noMain) (l : Location) :
    Answers (fail e l : Lower α) (some ⟨e, l⟩) := by
  refine ⟨nofun, fun fault h => ?_⟩
  cases h
  exact ⟨he, fun s => ⟨s, rfl⟩⟩

theorem answers_freshTemp : Answers freshTemp none := ⟨fun _ _ => ⟨_, _, rfl⟩, nofun⟩

theorem answers_freshLabel : Answers freshLabel none := ⟨fun _ _ => ⟨_, _, rfl⟩, nofun⟩

theorem bind_eq (x : Lower α) (f : α → Lower β) (s : Supply) : (x >>= f) s = EStateM.bind x f s :=
  rfl

/-- Behind a fault nothing is looked at. -/
theorem Answers.stop {x : Lower α} {fault : Fault} (hx : x.Answers (some fault))
    (f : α → Lower β) : (x >>= f).Answers (some fault) := by
  obtain ⟨hmain, hstop⟩ := hx.2 fault rfl
  refine ⟨nofun, fun fault' h => ?_⟩
  cases h
  refine ⟨hmain, fun s => ?_⟩
  obtain ⟨s', hs⟩ := hstop s
  refine ⟨s', ?_⟩
  rw [bind_eq, EStateM.bind, hs]

/-- A step that succeeds leaves the answer to the next one. -/
theorem Answers.next {x : Lower α} {f : α → Lower β} (hx : x.Answers none)
    (hf : ∀ a, (f a).Answers fault?) : (x >>= f).Answers fault? := by
  have hnext : ∀ s, ∃ a s', (x >>= f) s = f a s' := by
    intro s
    obtain ⟨a, s', hs⟩ := hx.1 rfl s
    refine ⟨a, s', ?_⟩
    rw [bind_eq, EStateM.bind, hs]
  refine ⟨fun hnone s => ?_, fun fault hfault => ⟨?_, fun s => ?_⟩⟩
  · obtain ⟨a, s', hs⟩ := hnext s
    rw [hs]
    exact (hf a).1 hnone s'
  · obtain ⟨a, -⟩ := hnext {}
    exact ((hf a).2 fault hfault).1
  · obtain ⟨a, s', hs⟩ := hnext s
    rw [hs]
    exact ((hf a).2 fault hfault).2 s'

/-- Of two steps the first fault counts. -/
theorem Answers.bind {x : Lower α} {f : α → Lower β} (hx : x.Answers fault?)
    (hf : ∀ a, (f a).Answers other?) : (x >>= f).Answers (fault?.or other?) := by
  cases fault? with
  | none => exact hx.next hf
  | some fault => exact hx.stop f

/-- A step behind which nothing can fail has the answer. -/
theorem Answers.bind_pure {x : Lower α} (hx : x.Answers fault?) (f : α → β) :
    (x >>= fun a => pure (f a)).Answers fault? := by
  have h := hx.bind fun a => answers_pure (f a)
  rwa [Option.or_none] at h

end Lower

open Lower

/-! ## Names -/

theorem Grammar.Typing.type?_cons (names : List (String × VarType)) (env : Typing) (name : String) :
    Typing.type? (names :: env) name = (names.lookup name).or (env.type? name) := by
  rw [Typing.type?, List.findSome?_cons]
  cases names.lookup name <;> rfl

/-- The name and the type of a variable. -/
def Variable.typing (v : Variable) : String × VarType := (v.name.value, v.type)

theorem Variable.lookup_typing (vs : List Variable) (name : String) :
    (vs.map Variable.typing).lookup name =
      (vs.find? fun v => v.name.value == name).map Variable.type := by
  induction vs with
  | nil => rfl
  | cons v vs ih =>
    by_cases h : v.name.value = name
    · simp [Variable.typing, h]
    · have h' : (name == v.name.value) = false := by simpa using Ne.symm h
      simp [Variable.typing, List.lookup_cons, h, h', ih]

/-- The variables that names mean have the types of a typing. -/
def Typed (find : String → Option Variable) (env : Typing) : Prop :=
  ∀ name, env.type? name = (find name).map Variable.type

/-- The scope sees the names of a typing. -/
abbrev Scope.SeesTyping (scope : Scope) (env : Typing) : Prop := Typed scope.lookup? env

namespace Scope.SeesTyping

variable {scope : Scope} {env : Typing}

theorem answers_resolve (h : scope.SeesTyping env) (name : String) (l : Location) :
    (scope.resolve name l).Answers (env.undeclared? name l) := by
  rw [Scope.resolve, Typing.undeclared?, h name]
  cases scope.lookup? name with
  | none => exact answers_fail (.undeclared name) nofun l
  | some v => exact answers_pure v

theorem answers_numeric (h : scope.SeesTyping env) (name : String) (l : Location) :
    (scope.numeric name l).Answers (env.notNumber? name l) := by
  rw [Scope.numeric, Scope.resolve, Typing.notNumber?, h name]
  cases scope.lookup? name with
  | none => exact (answers_fail (.undeclared name) nofun l).stop _
  | some v =>
    rw [pure_bind, Option.map_some]
    cases v.type with
    | number of => exact answers_pure (of, v)
    | string => exact answers_fail (.notNumeric name) nofun l

end Scope.SeesTyping

/-! ## Expressions and conditions -/

/-- The expression at the location of the parentheses around it, if there are any. -/
def Expr.inside (around : Option Location) (e : Expr) : Expr := around.elim e fun l => e.relocate l

theorem Expr.relocate_relocate (e : Expr) (l l' : Location) :
    (e.relocate l).relocate l' = e.relocate l' := by
  cases e <;> rfl

section

variable {scope : Scope} {env : Typing} {fault? other? : Option Fault}

theorem Expr.answers_binary {op : ArithOp} {lhs rhs : Expr} {l : Location}
    (hlhs : (lhs.lower scope).Answers fault?) (hrhs : (rhs.lower scope).Answers other?) :
    ((Expr.binary op lhs rhs l).lower scope).Answers (fault?.or other?) :=
  answers_freshTemp.next fun _ => hlhs.bind fun _ => hrhs.bind_pure _

/-- Parentheses around an operation do not matter. -/
theorem Expr.answers_inside {op : ArithOp} {lhs rhs : Expr} {l : Location}
    (around : Option Location) (hlhs : (lhs.lower scope).Answers fault?)
    (hrhs : (rhs.lower scope).Answers other?) :
    (((Expr.binary op lhs rhs l).inside around).lower scope).Answers (fault?.or other?) := by
  cases around with
  | none => exact Expr.answers_binary hlhs hrhs
  | some l => exact Expr.answers_binary hlhs hrhs

namespace Grammar

mutual

theorem Sum.answers (h : scope.SeesTyping env) : ∀ (around : Option Location) (d : Sum),
    ((d.tree.inside around).lower scope).Answers (firstFault (d.marked env around))
  | around, .mk first rest => by
    rw [Sum.marked, firstFault_append]
    exact Terms.answers h around rest (Product.answers h (rest.within around) first)

/-- The operand in front of the terms is looked at before them. -/
theorem Terms.answers (h : scope.SeesTyping env) : ∀ (around : Option Location) (d : Terms)
    {lhs : Expr} {fault? : Option Fault},
    ((lhs.inside (d.within around)).lower scope).Answers fault? →
    (((d.tree lhs).inside around).lower scope).Answers (fault?.or (firstFault (d.marked env)))
  | around, .nil, lhs, fault?, hlhs => by
    rw [Terms.marked, firstFault_nil, Option.or_none]
    exact hlhs
  | around, .cons op operand rest, lhs, fault?, hlhs => by
    -- The operation on both operands stands in front of the terms that are left.
    rw [Terms.marked, firstFault_cons, firstFault_append, Option.none_or, ← Option.or_assoc]
    exact Terms.answers h around rest
      (Expr.answers_inside _ hlhs (Product.answers h none operand))

theorem Product.answers (h : scope.SeesTyping env) : ∀ (around : Option Location) (d : Product),
    ((d.tree.inside around).lower scope).Answers (firstFault (d.marked env around))
  | around, .mk first rest => by
    rw [Product.marked, firstFault_append]
    exact Factors.answers h around rest (Atom.answers h (rest.within around) first)

theorem Factors.answers (h : scope.SeesTyping env) : ∀ (around : Option Location) (d : Factors)
    {lhs : Expr} {fault? : Option Fault},
    ((lhs.inside (d.within around)).lower scope).Answers fault? →
    (((d.tree lhs).inside around).lower scope).Answers (fault?.or (firstFault (d.marked env)))
  | around, .nil, lhs, fault?, hlhs => by
    rw [Factors.marked, firstFault_nil, Option.or_none]
    exact hlhs
  | around, .cons op operand rest, lhs, fault?, hlhs => by
    rw [Factors.marked, firstFault_cons, firstFault_append, Option.none_or, ← Option.or_assoc]
    exact Factors.answers h around rest
      (Expr.answers_inside _ hlhs (Atom.answers h none operand))

theorem Atom.answers (h : scope.SeesTyping env) : ∀ (around : Option Location) (d : Atom),
    ((d.tree.inside around).lower scope).Answers (firstFault (d.marked env around))
  | around, .call function opening arguments closing => by
    have hcall : (fail (.unsupported .calls) function.location : Lower Value).Answers
        (some ⟨.unsupported .calls, function.location⟩) :=
      answers_fail (.unsupported .calls) nofun function.location
    cases around with
    | none => exact answers_freshTemp.next fun _ => hcall
    | some l => exact answers_freshTemp.next fun _ => hcall
  | around, .paren opening inner closing => by
    rw [Atom.marked, firstFault_cons, firstFault_append, firstFault_plain, Option.none_or,
      Option.or_none]
    have hinner := Sum.answers h (some (around.getD ⟨opening.first, closing.last⟩)) inner
    cases around with
    | none => exact hinner
    | some l =>
      -- Of parentheses in parentheses the outer ones give the location.
      have heq : (Atom.tree (.paren opening inner closing)).inside (some l) =
          inner.tree.inside (some l) := inner.tree.relocate_relocate _ l
      rw [heq]
      exact hinner
  | around, .var name => by
    have hvar := answers_freshTemp.next fun out =>
      (h.answers_numeric name.value (around.getD name.location)).bind_pure fun (of, v) =>
        Value.mk of out [.store of (.var v) (.temp out)]
    rw [Atom.marked, firstFault_cons, firstFault_nil, Option.or_none]
    cases around with
    | none => exact hvar
    | some l => exact hvar
  | around, .int digits => by
    cases around with
    | none => exact answers_freshTemp.bind_pure _
    | some l => exact answers_freshTemp.bind_pure _
  | around, .float digits => by
    cases around with
    | none => exact answers_freshTemp.bind_pure _
    | some l => exact answers_freshTemp.bind_pure _

end

theorem Cond.answers (h : scope.SeesTyping env) (d : Cond) (target : Label) :
    (d.tree.lower scope target).Answers (firstFault (d.marked env)) := by
  rw [Cond.marked, firstFault_append, firstFault_cons, Option.none_or]
  exact (Sum.answers h none d.lhs).bind fun _ => (Sum.answers h none d.rhs).bind_pure _

end Grammar

/-! ## Statements -/

/-- The faults of names, without the commas between them. -/
def checked (fault? : String → Location → Option Fault) (names : List (Located String)) :
    Marked :=
  names.map fun name => (identifier name, fault? name.value name.location)

theorem firstFault_checked_cons (fault? : String → Location → Option Fault)
    (name : Located String) (names : List (Located String)) :
    firstFault (checked fault? (name :: names)) =
      (fault? name.value name.location).or (firstFault (checked fault? names)) :=
  firstFault_cons _ _ _

theorem Statement.answers_reads (h : scope.SeesTyping env) (names : List (Located String)) :
    (Statement.lowerReads scope names).Answers (firstFault (checked env.notNumber? names)) := by
  induction names with
  | nil => exact answers_pure []
  | cons name names ih =>
    rw [firstFault_checked_cons]
    exact (h.answers_numeric name.value name.location).bind fun _ => ih.bind_pure _

theorem Statement.answers_writes (h : scope.SeesTyping env) (names : List (Located String)) :
    (Statement.lowerWrites scope names).Answers (firstFault (checked env.undeclared? names)) := by
  induction names with
  | nil => exact answers_pure []
  | cons name names ih =>
    rw [firstFault_checked_cons]
    exact (h.answers_resolve name.value name.location).bind fun _ => ih.bind_pure _

end

namespace Grammar

theorem firstFault_listMarked (fault? : String → Location → Option Fault) (opening : Location)
    (names : Separated (Located String)) (closing semicolon : Location) :
    firstFault (listMarked fault? opening names closing semicolon) =
      firstFault (checked fault? names.toList) := by
  have hrest : ∀ rest : List (Location × Located String),
      firstFault (rest.flatMap fun x =>
        [(sign .comma x.1, none), (identifier x.2, fault? x.2.value x.2.location)]) =
      firstFault (checked fault? (rest.map Prod.snd)) := by
    intro rest
    induction rest with
    | nil => rfl
    | cons x rest ih =>
      rw [List.flatMap_cons, firstFault_append, ih, List.map_cons, firstFault_checked_cons,
        firstFault_cons, firstFault_cons, firstFault_nil, Option.none_or, Option.or_none]
  rw [listMarked, firstFault_cons, firstFault_append, firstFault_plain, Option.none_or,
    Option.or_none, namesMarked, firstFault_cons, hrest, Separated.toList, firstFault_checked_cons]

theorem firstFault_headMarked (env : Typing) (opening : Location) (condition : Cond)
    (closing : Location) :
    firstFault (headMarked env opening condition closing) = firstFault (condition.marked env) := by
  rw [headMarked, firstFault_cons, firstFault_append, firstFault_plain, Option.none_or,
    Option.or_none]

theorem Decl.map_typing_declared (id : Nat) (ds : List Decl) :
    (Decl.declared id ds).map Variable.typing = ds.flatMap Decl.typing := by
  rw [Decl.declared, List.map_flatMap]
  congr 1
  funext d
  cases d with
  | text string name becomes value semicolon => rfl
  | numbers type names semicolon =>
    simp [Decl.tree, Declaration.declared, Decl.typing, Variable.typing]

/-- The scope of a block sees the names of the parameters and declarations, and those outside. -/
theorem seesTyping_add {scope : Scope} {outer : String → Option Variable} {env : Typing}
    {parameters : List (String × VarType)}
    (hdeclared : scope.declared.map Variable.typing = parameters) (hover : scope.Over outer)
    (houter : Typed outer env) (decls : List Decl) :
    (scope.add (Decl.declared scope.id decls)).SeesTyping
      ((parameters ++ decls.flatMap Decl.typing) :: env) := by
  intro name
  rw [hover.add (Decl.declared scope.id decls) name, Scope.own?, Option.map_or,
    ← Variable.lookup_typing, Scope.declared_add, List.map_append, hdeclared,
    Decl.map_typing_declared, ← houter name, Typing.type?_cons]

mutual

theorem Stmt.answers : ∀ {scope : Scope} {env : Typing} (_ : scope.SeesTyping env) (n : Nat)
    (d : Stmt), ((d.tree scope n).lower scope).Answers (firstFault (d.marked env))
  | scope, env, h, n, .assign target becomes value semicolon => by
    rw [Stmt.marked, firstFault_cons, firstFault_cons, firstFault_append, firstFault_plain,
      Option.none_or, Option.or_none]
    exact (h.answers_numeric target.value target.location).bind fun _ =>
      (Sum.answers h none value).bind_pure _
  | scope, env, h, n, .read read opening names closing semicolon => by
    rw [Stmt.marked, firstFault_cons, Option.none_or, firstFault_listMarked]
    exact Statement.answers_reads h names.toList
  | scope, env, h, n, .write write opening names closing semicolon => by
    rw [Stmt.marked, firstFault_cons, Option.none_or, firstFault_listMarked]
    exact Statement.answers_writes h names.toList
  | scope, env, h, n, .ifThen if_ opening condition closing body endIf => by
    rw [Stmt.marked, firstFault_cons, firstFault_append, firstFault_append, firstFault_headMarked,
      firstFault_plain, Option.none_or, Option.or_none]
    have hbody : (body.tree (scope.nested (n + 1)) (n + 1)).lower.Answers
        (firstFault (body.marked env [])) :=
      Body.answers rfl (scope.over_nested _) h (n + 1) body
    exact answers_freshLabel.next fun exit => (condition.answers h exit).bind fun _ =>
      hbody.bind_pure _
  | scope, env, h, n, .ifElse if_ opening condition closing body else_ alternative endIf => by
    rw [Stmt.marked, firstFault_cons, firstFault_append, firstFault_append, firstFault_headMarked,
      firstFault_cons, firstFault_append, firstFault_plain, Option.none_or, Option.none_or,
      Option.or_none, Option.or_assoc]
    let m := n + 1 + body.openings + 1
    have hbody : (body.tree (scope.nested (n + 1)) (n + 1)).lower.Answers
        (firstFault (body.marked env [])) :=
      Body.answers rfl (scope.over_nested _) h (n + 1) body
    have halternative : (alternative.tree (scope.nested m) m).lower.Answers
        (firstFault (alternative.marked env [])) :=
      Body.answers rfl (scope.over_nested m) h m alternative
    exact answers_freshLabel.next fun other => answers_freshLabel.next fun _ =>
      (condition.answers h other).bind fun _ => hbody.bind fun _ => halternative.bind_pure _
  | scope, env, h, n, .loop while_ opening condition closing body endWhile => by
    rw [Stmt.marked, firstFault_cons, firstFault_append, firstFault_append, firstFault_headMarked,
      firstFault_plain, Option.none_or, Option.or_none]
    have hbody : (body.tree (scope.nested (n + 1)) (n + 1)).lower.Answers
        (firstFault (body.marked env [])) :=
      Body.answers rfl (scope.over_nested _) h (n + 1) body
    exact answers_freshLabel.next fun _ => answers_freshLabel.next fun exit =>
      (condition.answers h exit).bind fun _ => hbody.bind_pure _
  | scope, env, h, n, .return_ return_ value semicolon =>
    answers_fail (.unsupported .returns) nofun value.tree.location

theorem Body.answers : ∀ {scope : Scope} {env : Typing} {parameters : List (String × VarType)}
    {outer : String → Option Variable} (_ : scope.declared.map Variable.typing = parameters)
    (_ : scope.Over outer) (_ : Typed outer env) (n : Nat) (d : Body),
    (d.tree scope n).lower.Answers (firstFault (d.marked env parameters))
  | scope, env, parameters, outer, hdeclared, hover, houter, n, ⟨decls, stmts⟩ => by
    rw [Body.marked, firstFault_append, firstFault_plain, Option.none_or]
    exact (Stmt.answersAll (seesTyping_add hdeclared hover houter decls) n stmts).bind_pure _

theorem Stmt.answersAll : ∀ {scope : Scope} {env : Typing} (_ : scope.SeesTyping env) (n : Nat)
    (ds : List Stmt), (Statement.lowerAll scope (Stmt.trees scope n ds)).Answers
      (firstFault (Stmt.markedAll env ds))
  | scope, env, h, n, [] => answers_pure []
  | scope, env, h, n, d :: ds => by
    rw [Stmt.markedAll, firstFault_append]
    exact (Stmt.answers h n d).bind fun _ =>
      (Stmt.answersAll h (n + d.openings) ds).bind_pure _

end

/-! ## Programs -/

theorem Func.answers {outer : Scope} {env : Typing} (h : outer.SeesTyping env) (n : Nat)
    (d : Func) : (d.tree outer n).body.lower.Answers (firstFault (d.marked env)) := by
  have hdeclared : (d.scope outer (n + 1)).declared.map Variable.typing =
      d.parameters.toList.map Param.typing := by
    simp [Param.declared, Param.tree, Parameter.variable, Variable.typing, Param.typing]
  rw [Func.marked, firstFault_append, firstFault_append, firstFault_plain, firstFault_plain,
    Option.none_or, Option.or_none]
  exact Body.answers hdeclared ((outer.over_nested (n + 1)).add _) h (n + 1) d.body

/-- The first function named `main` answers for all. -/
theorem Func.answers_main {outer : Scope} {env : Typing} (h : outer.SeesTyping env)
    {main : Function} : ∀ (n : Nat) (ds : List Func),
    (Func.trees outer n ds).find? (fun f => f.name.value == "main") = some main →
    main.body.lower.Answers (firstFault (Func.markedMain env ds))
  | n, [], hmain => nomatch hmain
  | n, d :: ds, hmain => by
    rw [Func.trees, List.find?_cons] at hmain
    rw [Func.markedMain]
    cases hname : d.name.value == "main" with
    | true =>
      rw [show ((d.tree outer n).name.value == "main") = true from hname] at hmain
      cases hmain
      rw [if_pos rfl, firstFault_append, firstFault_plain, Option.or_none]
      exact d.answers h n
    | false =>
      rw [show ((d.tree outer n).name.value == "main") = false from hname] at hmain
      rw [if_neg Bool.false_ne_true, firstFault_append, firstFault_plain, Option.none_or]
      exact Func.answers_main h (n + d.openings) ds hmain

theorem Prog.answers (d : Prog) {main : Function} (hmain : d.tree.main? = some main) :
    d.tree.lowerMain.Answers (firstFault d.marked) := by
  have hscope : d.scope.SeesTyping [d.globals.flatMap Decl.typing] :=
    @seesTyping_add Scope.global _ [] [] rfl Scope.over_global (fun _ => rfl) d.globals
  rw [Prog.marked, firstFault_append, firstFault_append, firstFault_plain, firstFault_plain,
    Option.none_or, Option.or_none, Program.lowerMain, hmain]
  exact (Func.answers_main hscope 0 d.functions hmain).bind_pure _

end Grammar

theorem Program.main?_eq_none_iff {p : Program} :
    p.main? = none ↔ ∀ f ∈ p.functions, f.name.value ≠ "main" := by
  simp [Program.main?]

theorem Program.lower_of_main?_eq_none {p : Program} (h : p.main? = none) :
    p.lower = .error ⟨.noMain, p.eof⟩ := by
  rw [Program.lower, Program.lowerMain, h]
  rfl

theorem Program.lower_of_answers {p : Program} {fault? : Option Fault}
    (h : p.lowerMain.Answers fault?) : ((∃ code, p.lower = .ok code) ↔ fault? = none) ∧
      ∀ fault, p.lower = .error fault ↔ fault? = some fault := by
  cases fault? with
  | none =>
    obtain ⟨code, s, hs⟩ := h.1 rfl {}
    have hcode : p.lower = .ok code := by rw [Program.lower, EStateM.run, hs]
    simp [hcode]
  | some fault =>
    obtain ⟨s, hs⟩ := (h.2 fault rfl).2 {}
    have hfault : p.lower = .error fault := by rw [Program.lower, EStateM.run, hs]
    simp [hfault]

/-- Lowering accepts the programs without a fault, and reports the first fault of the others: that
no function is named `main`, or else the first one in the tokens. -/
theorem Program.lower_reports_first_fault {tokens : List (Located Token)} {p : Program}
    (hp : Program.parse tokens = .ok p) :
    (p.lower = .error ⟨.noMain, p.eof⟩ ↔ ∀ f ∈ p.functions, f.name.value ≠ "main") ∧
      ∃ d : Prog, d.tokens = tokens ∧ d.tree = p ∧ d.marked.map Prod.fst = tokens ∧
        ((∃ f ∈ p.functions, f.name.value = "main") →
          ((∃ code, p.lower = .ok code) ↔ ∀ x ∈ d.marked, x.2 = none) ∧
            ∀ fault, p.lower = .error fault ↔ d.marked.findSome? Prod.snd = some fault) := by
  obtain ⟨d, rfl, -, rfl⟩ := Program.parse_eq_ok_iff.1 hp
  cases hmain : d.tree.main? with
  | none =>
    have hnames := Program.main?_eq_none_iff.1 hmain
    refine ⟨iff_of_true (Program.lower_of_main?_eq_none hmain) hnames, d, rfl, rfl,
      d.map_fst_marked, ?_⟩
    rintro ⟨f, hf, hname⟩
    exact absurd hname (hnames f hf)
  | some main =>
    have hanswers := d.answers hmain
    obtain ⟨hok, herror⟩ := Program.lower_of_answers hanswers
    refine ⟨iff_of_false (fun h => ?_) (fun hnames => ?_), d, rfl, rfl, d.map_fst_marked,
      fun _ => ⟨hok.trans firstFault_eq_none_iff, herror⟩⟩
    · exact (hanswers.2 _ ((herror _).1 h)).1 rfl
    · rw [Program.main?_eq_none_iff.2 hnames] at hmain
      cases hmain

/-! ## A program with several faults -/

/-- `PROGRAM p BEGIN STRING s := "t"; FUNCTION VOID main() BEGIN WRITE(s); WHILE ((k) > 0) INT k;
RETURN f(s); ENDWHILE END END` -/
def faulty : Prog where
  program := {}
  name := unplaced "p"
  begin_ := {}
  globals := [.text {} (unplaced "s") {} (unplaced "t") {}]
  functions := [{
    function := {}
    returns := unplaced .void
    name := unplaced "main"
    opening := {}
    parameters := .none
    closing := {}
    begin_ := {}
    body := ⟨[], [.write {} {} ⟨unplaced "s", []⟩ {} {},
      .loop {} {}
        ⟨.mk (.mk (.paren (.point ⟨2, 7⟩) (.var "k") (.point ⟨2, 9⟩)) .nil) .nil, unplaced .greater,
          .int "0"⟩ {}
        ⟨[.numbers (unplaced .int) ⟨unplaced "k", []⟩ {}],
          [.return_ {} (.mk (.mk (.call (unplaced "f") {} (.some (.var "s") .nil) {}) .nil) .nil)
            {}]⟩ {}]⟩
    end_ := {} }]
  end_ := {}

/-- The condition of a loop does not see what the loop declares, and is read before its RETURN. -/
theorem Program.lower_reports_first_fault_faulty :
    Program.parse faulty.tokens = .ok faulty.tree ∧
      faulty.tree.lower = .error ⟨.undeclared "k", ⟨⟨2, 7⟩, ⟨2, 9⟩⟩⟩ ∧
      ∃ d : Prog, d.tokens = faulty.tokens ∧ d.tree = faulty.tree ∧
        d.marked.findSome? Prod.snd = some ⟨.undeclared "k", ⟨⟨2, 7⟩, ⟨2, 9⟩⟩⟩ := by
  have hp : Program.parse faulty.tokens = .ok faulty.tree :=
    Program.parse_eq_ok_iff.2 ⟨faulty, rfl, by decide, rfl⟩
  obtain ⟨-, d, htokens, htree, -, h⟩ := Program.lower_reports_first_fault hp
  have hlower : faulty.tree.lower = .error ⟨.undeclared "k", ⟨⟨2, 7⟩, ⟨2, 9⟩⟩⟩ := rfl
  obtain ⟨-, hfault⟩ := h ⟨_, List.mem_cons_self, rfl⟩
  exact ⟨hp, hlower, d, htokens, htree, (hfault _).1 hlower⟩

end LittleTiny
