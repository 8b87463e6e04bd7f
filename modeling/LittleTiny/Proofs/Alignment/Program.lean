import LittleTiny.Proofs.Alignment
import LittleTiny.Tree.Program

/-!
# Reading two programs side by side

Every rule of the reader answers alike at cursors with the same tokens ahead: the trees are equal up
to locations, the scopes have the same variables, and an error is at locations that correspond
(`Program.parallel_parseWhole`). There is a theorem for each rule; they use each other as the rules
do, and come to an end for the same reason.
-/

namespace LittleTiny

open Reading Cursor

variable {C : Location → Location → Prop}

/-! ## Expressions -/

namespace Expr

theorem erase_leaf {t : Token} {f : Location → Expr} (h : t.leaf? = some f) (l l' : Location) :
    (f l).erase = (f l').erase := by
  unfold Token.leaf? at h
  split at h <;> cases h <;> rfl

mutual

theorem parallel_parse {s s' : Cursor} (h : s.Alike C s') :
    Parallel C (Same erase) (parse s) (parse s') := by
  rw [parse, parse]
  refine (parallel_parseProduct h).bind ?_
  intro lhs s₁ h₁ lhs' s₁' h₁' hlhs hs₁
  exact (parallel_parseSumFrom hlhs hs₁).afterLoose
termination_by 6 * s.size + 3

theorem parallel_parseSumFrom {s s' : Cursor} {lhs lhs' : Expr} (hlhs : lhs.erase = lhs'.erase)
    (h : s.Alike C s') : Parallel C (Same erase) (parseSumFrom lhs s) (parseSumFrom lhs' s') := by
  rw [parseSumFrom.eq_def lhs s, parseSumFrom.eq_def lhs' s']
  rcases h.take? Token.additive? with
    ⟨hnone, hnone'⟩ | ⟨op, s₁, h₁, op', s₁', h₁', hsome, hsome', hop, hs₁⟩
  · simp only [hnone, hnone']
    exact parallel_stay h hlhs
  · simp only [hsome, hsome']
    refine Parallel.loosen ((parallel_parseProduct hs₁).after.bind ?_)
    intro rhs s₂ h₂ rhs' s₂' h₂' hrhs hs₂
    have hjoin : (join op.value lhs rhs).erase = (join op'.value lhs' rhs').erase := by
      rw [erase_join, erase_join, hop.1, hlhs, hrhs]
    exact (parallel_parseSumFrom hjoin hs₂).afterLoose
termination_by 6 * s.size

theorem parallel_parseProduct {s s' : Cursor} (h : s.Alike C s') :
    Parallel C (Same erase) (parseProduct s) (parseProduct s') := by
  rw [parseProduct, parseProduct]
  refine (parallel_parseAtom h).bind ?_
  intro lhs s₁ h₁ lhs' s₁' h₁' hlhs hs₁
  exact (parallel_parseProductFrom hlhs hs₁).afterLoose
termination_by 6 * s.size + 2

theorem parallel_parseProductFrom {s s' : Cursor} {lhs lhs' : Expr} (hlhs : lhs.erase = lhs'.erase)
    (h : s.Alike C s') :
    Parallel C (Same erase) (parseProductFrom lhs s) (parseProductFrom lhs' s') := by
  rw [parseProductFrom.eq_def lhs s, parseProductFrom.eq_def lhs' s']
  rcases h.take? Token.multiplicative? with
    ⟨hnone, hnone'⟩ | ⟨op, s₁, h₁, op', s₁', h₁', hsome, hsome', hop, hs₁⟩
  · simp only [hnone, hnone']
    exact parallel_stay h hlhs
  · simp only [hsome, hsome']
    refine Parallel.loosen ((parallel_parseAtom hs₁).after.bind ?_)
    intro rhs s₂ h₂ rhs' s₂' h₂' hrhs hs₂
    have hjoin : (join op.value lhs rhs).erase = (join op'.value lhs' rhs').erase := by
      rw [erase_join, erase_join, hop.1, hlhs, hrhs]
    exact (parallel_parseProductFrom hjoin hs₂).afterLoose
termination_by 6 * s.size

theorem parallel_parseAtom {s s' : Cursor} (h : s.Alike C s') :
    Parallel C (Same erase) (parseAtom s) (parseAtom s') := by
  rw [parseAtom, parseAtom, ← h.seesCall_eq, ← h.peek?_eq]
  split
  · refine h.identifier.bind ?_
    intro function s₁ h₁ function' s₁' h₁' hfunction hs₁
    refine (hs₁.operator _).after.bind ?_
    intro _ s₂ h₂ _ s₂' h₂' _ hs₂
    refine (parallel_parseArguments hs₂).afterLoose.bind ?_
    intro arguments s₃ h₃ arguments' s₃' h₃' harguments hs₃
    refine (hs₃.operator _).after.bind ?_
    intro close s₄ h₄ close' s₄' h₄' _ hs₄
    refine parallel_pure hs₄ ?_
    rw [Same, erase, erase, hfunction.erase_eq, harguments]
  · rcases h.take? Token.leaf? with
      ⟨hnone, hnone'⟩ | ⟨leaf, s₁, h₁, leaf', s₁', h₁', hsome, hsome', hleaf, hs₁⟩
    · simp only [hnone, hnone']
      split
      · refine (h.operator _).bind ?_
        intro opening s₁ h₁ opening' s₁' h₁' _ hs₁
        refine (parallel_parse hs₁).after.bind ?_
        intro e s₂ h₂ e' s₂' h₂' he hs₂
        refine (hs₂.operator _).after.bind ?_
        intro close s₃ h₃ close' s₃' h₃' _ hs₃
        refine parallel_pure hs₃ ?_
        rw [Same, erase_relocate, erase_relocate, he]
      · exact .error (h.fault _)
    · simp only [hsome, hsome']
      obtain ⟨token, -, htoken⟩ := reads_of_take? hsome
      refine parallel_pure hs₁ ?_
      rw [Same, ← hleaf.1]
      exact erase_leaf htoken _ _
termination_by 6 * s.size + 1

theorem parallel_parseArguments {s s' : Cursor} (h : s.Alike C s') :
    Parallel C (Same eraseAll) (parseArguments s) (parseArguments s') := by
  rw [parseArguments, parseArguments, ← h.peek?_eq]
  split
  · exact (parallel_parseList h).loosen
  · exact parallel_stay h rfl
termination_by 6 * s.size + 5

theorem parallel_parseList {s s' : Cursor} (h : s.Alike C s') :
    Parallel C (Same eraseAll) (parseList s) (parseList s') := by
  rw [parseList.eq_def s, parseList.eq_def s']
  refine (parallel_parse h).bind ?_
  intro e s₁ h₁ e' s₁' h₁' he hs₁
  rcases hs₁.skip? (.operator .comma) with
    ⟨hnone, hnone'⟩ | ⟨s₂, g, s₂', g', hsome, hsome', hs₂⟩
  · simp only [hnone, hnone']
    refine parallel_pure hs₁ ?_
    rw [Same, eraseAll, eraseAll, he]
    rfl
  · simp only [hsome, hsome']
    refine (parallel_parseList hs₂).after.bind ?_
    intro more s₃ h₃ more' s₃' h₃' hmore hs₃
    refine parallel_pure hs₃ ?_
    rw [Same, eraseAll, eraseAll, he, hmore]
termination_by 6 * s.size + 4

end

end Expr

theorem Condition.parallel_parse {s s' : Cursor} (h : s.Alike C s') :
    Parallel C (Same Condition.erase) (Condition.parse s) (Condition.parse s') := by
  refine (Expr.parallel_parse h).bind ?_
  intro lhs s₁ h₁ lhs' s₁' h₁' hlhs hs₁
  refine (hs₁.take _ _).after.bind ?_
  intro op s₂ h₂ op' s₂' h₂' hop hs₂
  refine (Expr.parallel_parse hs₂).after.bind ?_
  intro rhs s₃ h₃ rhs' s₃' h₃' hrhs hs₃
  refine parallel_pure hs₃ ?_
  rw [Same, Condition.erase, Condition.erase, hop.1, hlhs, hrhs]

/-! ## Declarations -/

theorem Scope.declares_erase (s : Scope) (name : String) :
    s.erase.declares name = s.declares name :=
  s.declares_renumber (fun n => n) name

namespace Cursor

variable {s s' : Cursor} {scope scope' : Scope} (hscope : scope.erase = scope'.erase)

include hscope

theorem alike_declare {name name' : Located String} (hname : name.Alike C name') (type : VarType)
    (value : Option String) :
    Reading.Alike C (Same Scope.erase) (s.declare scope name type value)
      (s'.declare scope' name' type value) := by
  have hdeclares : scope'.declares name'.value = scope.declares name.value := by
    rw [← Scope.declares_erase, ← hscope, Scope.declares_erase, hname.1]
  by_cases hd : scope.declares name.value
  · simp only [declare, Scope.run_declare, hdeclares, hd, if_true]
    exact .error ⟨congrArg (fun name => SyntaxError.redeclared ⟨name⟩) hname.1, hname.2⟩
  · simp only [declare, Scope.run_declare, hdeclares, hd, if_false, Bool.false_eq_true]
    have henter : ∀ (scope : Scope) (name : Located String),
        (scope.enter ⟨name, type, value, scope.id⟩).erase =
          scope.erase.enter ⟨name.erase, type, value, scope.erase.id⟩ :=
      fun scope name => scope.enter_renumber (fun n => n) _
    exact .ok (by rw [Same, henter, henter, hscope, hname.erase_eq])

theorem alike_declareAll {names names' : List (Located String)}
    (hnames : List.Forall₂ (Located.Alike C) names names') (type : VarType) :
    Reading.Alike C (Same Scope.erase) (s.declareAll scope type names)
      (s'.declareAll scope' type names') := by
  induction hnames generalizing scope scope' with
  | nil => exact .ok hscope
  | cons hname _ ih =>
    refine (alike_declare hscope hname type none).bind ?_
    intro scope₁ scope₁' hscope₁
    exact ih hscope₁

end Cursor

namespace Declaration

variable {s s' : Cursor} {scope scope' : Scope}

theorem parallel_parseText (hscope : scope.erase = scope'.erase) (h : s.Alike C s') :
    Parallel C (Both (Same erase) (Same Scope.erase)) (parseText scope s)
      (parseText scope' s') := by
  refine (h.keyword _).bind ?_
  intro _ s₁ h₁ _ s₁' h₁' _ hs₁
  refine hs₁.identifier.after.bind ?_
  intro name s₂ h₂ name' s₂' h₂' hname hs₂
  refine (hs₂.operator _).after.bind ?_
  intro _ s₃ h₃ _ s₃' h₃' _ hs₃
  refine (hs₃.take _ _).after.bind ?_
  intro value s₄ h₄ value' s₄' h₄' hvalue hs₄
  refine (hs₄.operator _).after.bind ?_
  intro _ s₅ h₅ _ s₅' h₅' _ hs₅
  rw [← hvalue.1]
  refine (alike_declare hscope hname _ _).bind ?_
  intro scope₁ scope₁' hscope₁
  refine parallel_pure hs₅ ⟨?_, hscope₁⟩
  rw [Same, erase, erase, hname.erase_eq, hvalue.erase_eq]

theorem parallel_parseNumbers (hscope : scope.erase = scope'.erase) (h : s.Alike C s') :
    Parallel C (Both (Same erase) (Same Scope.erase)) (parseNumbers scope s)
      (parseNumbers scope' s') := by
  refine (h.take _ _).bind ?_
  intro type s₁ h₁ type' s₁' h₁' htype hs₁
  refine hs₁.names.after.bind ?_
  intro names s₂ h₂ names' s₂' h₂' hnames hs₂
  refine (hs₂.operator _).after.bind ?_
  intro _ s₃ h₃ _ s₃' h₃' _ hs₃
  rw [← htype.1]
  refine (alike_declareAll hscope hnames _).bind ?_
  intro scope₁ scope₁' hscope₁
  refine parallel_pure hs₃ ⟨?_, hscope₁⟩
  rw [Same, erase, erase, htype.erase_eq, Located.map_erase_eq hnames]

theorem parallel_parse (hscope : scope.erase = scope'.erase) (h : s.Alike C s') :
    Parallel C (Both (Same erase) (Same Scope.erase)) (parse scope s) (parse scope' s') := by
  rw [parse, parse, ← h.peek?_eq]
  split
  · exact parallel_parseText hscope h
  · exact parallel_parseNumbers hscope h

theorem parallel_parseAll {s s' : Cursor} {scope scope' : Scope}
    (hscope : scope.erase = scope'.erase) (h : s.Alike C s') :
    Parallel C (Both (Same (List.map erase)) (Same Scope.erase)) (parseAll scope s)
      (parseAll scope' s') := by
  rw [parseAll.eq_def scope s, parseAll.eq_def scope' s', ← h.peek?_eq]
  split
  · refine Parallel.loosen ((parallel_parse hscope h).bind ?_)
    rintro ⟨d, scope₁⟩ s₁ h₁ ⟨d', scope₁'⟩ s₁' h₁' ⟨hd, hscope₁⟩ hs₁
    refine (parallel_parseAll hscope₁ hs₁).afterLoose.bind ?_
    rintro ⟨ds, scope₂⟩ s₂ h₂ ⟨ds', scope₂'⟩ s₂' h₂' ⟨hds, hscope₂⟩ hs₂
    refine parallel_pure hs₂ ⟨?_, hscope₂⟩
    rw [Same, List.map_cons, List.map_cons, hd, hds]
  · exact parallel_stay h ⟨rfl, hscope⟩
termination_by s.size

end Declaration

namespace Parameter

variable {s s' : Cursor} {scope scope' : Scope}

theorem parallel_parse (hscope : scope.erase = scope'.erase) (h : s.Alike C s') :
    Parallel C (Both (Same erase) (Same Scope.erase)) (parse scope s) (parse scope' s') := by
  refine (h.take _ _).bind ?_
  intro type s₁ h₁ type' s₁' h₁' htype hs₁
  refine hs₁.identifier.after.bind ?_
  intro name s₂ h₂ name' s₂' h₂' hname hs₂
  rw [← htype.1]
  refine (alike_declare hscope hname _ _).bind ?_
  intro scope₁ scope₁' hscope₁
  refine parallel_pure hs₂ ⟨?_, hscope₁⟩
  rw [Same, erase, erase, htype.erase_eq, hname.erase_eq]

theorem parallel_parseList {s s' : Cursor} {scope scope' : Scope}
    (hscope : scope.erase = scope'.erase) (h : s.Alike C s') :
    Parallel C (Both (Same (List.map erase)) (Same Scope.erase)) (parseList scope s)
      (parseList scope' s') := by
  rw [parseList.eq_def scope s, parseList.eq_def scope' s']
  refine (parallel_parse hscope h).bind ?_
  rintro ⟨p, scope₁⟩ s₁ h₁ ⟨p', scope₁'⟩ s₁' h₁' ⟨hp, hscope₁⟩ hs₁
  rcases hs₁.skip? (.operator .comma) with
    ⟨hnone, hnone'⟩ | ⟨s₂, g, s₂', g', hsome, hsome', hs₂⟩
  · simp only [hnone, hnone']
    refine parallel_pure hs₁ ⟨?_, hscope₁⟩
    rw [Same, List.map_singleton, List.map_singleton, hp]
  · simp only [hsome, hsome']
    refine (parallel_parseList hscope₁ hs₂).after.bind ?_
    rintro ⟨ps, scope₂⟩ s₃ h₃ ⟨ps', scope₂'⟩ s₃' h₃' ⟨hps, hscope₂⟩ hs₃
    refine parallel_pure hs₃ ⟨?_, hscope₂⟩
    rw [Same, List.map_cons, List.map_cons, hp, hps]
termination_by s.size

theorem parallel_parseAll (hscope : scope.erase = scope'.erase) (h : s.Alike C s') :
    Parallel C (Both (Same (List.map erase)) (Same Scope.erase)) (parseAll scope s)
      (parseAll scope' s') := by
  rw [parseAll, parseAll, ← h.peek?_eq]
  split
  · exact (parallel_parseList hscope h).loosen
  · exact parallel_stay h ⟨rfl, hscope⟩

end Parameter

/-! ## Statements -/

namespace Statement

variable {s s' : Cursor}

theorem parallel_parseAssign (h : s.Alike C s') :
    Parallel C (Same (outline Scope.erase)) (parseAssign s) (parseAssign s') := by
  refine h.identifier.bind ?_
  intro target s₁ h₁ target' s₁' h₁' htarget hs₁
  refine (hs₁.operator _).after.bind ?_
  intro _ s₂ h₂ _ s₂' h₂' _ hs₂
  refine (Expr.parallel_parse hs₂).after.bind ?_
  intro value s₃ h₃ value' s₃' h₃' hvalue hs₃
  refine (hs₃.operator _).after.bind ?_
  intro _ s₄ h₄ _ s₄' h₄' _ hs₄
  refine parallel_pure hs₄ ?_
  rw [Same, outline, outline, htarget.erase_eq, hvalue]

theorem parallel_parseReturn (h : s.Alike C s') :
    Parallel C (Same (outline Scope.erase)) (parseReturn s) (parseReturn s') := by
  refine (h.keyword _).bind ?_
  intro _ s₁ h₁ _ s₁' h₁' _ hs₁
  refine (Expr.parallel_parse hs₁).after.bind ?_
  intro value s₂ h₂ value' s₂' h₂' hvalue hs₂
  refine (hs₂.operator _).after.bind ?_
  intro _ s₃ h₃ _ s₃' h₃' _ hs₃
  refine parallel_pure hs₃ ?_
  rw [Same, outline, outline, hvalue]

theorem parallel_parseNames (k : Keyword) {form : List (Located String) → Statement}
    (hform : ∀ names names', names.map Located.erase = names'.map Located.erase →
      (form names).outline Scope.erase = (form names').outline Scope.erase)
    (h : s.Alike C s') :
    Parallel C (Same (outline Scope.erase)) (parseNames k form s) (parseNames k form s') := by
  refine (h.keyword _).bind ?_
  intro _ s₁ h₁ _ s₁' h₁' _ hs₁
  refine (hs₁.operator _).after.bind ?_
  intro _ s₂ h₂ _ s₂' h₂' _ hs₂
  refine hs₂.names.after.bind ?_
  intro names s₃ h₃ names' s₃' h₃' hnames hs₃
  refine (hs₃.operator _).after.bind ?_
  intro _ s₄ h₄ _ s₄' h₄' _ hs₄
  refine (hs₄.operator _).after.bind ?_
  intro _ s₅ h₅ _ s₅' h₅' _ hs₅
  exact parallel_pure hs₅ (hform _ _ (Located.map_erase_eq hnames))

theorem parallel_parseHead (k : Keyword) (h : s.Alike C s') :
    Parallel C (Both Eq (Same Condition.erase)) (parseHead k s) (parseHead k s') := by
  refine (h.keyword _).bind ?_
  intro _ s₁ h₁ _ s₁' h₁' _ hs₁
  refine Parallel.bind (Parallel.after (hs₁.opened.operator _)) ?_
  intro _ s₂ h₂ _ s₂' h₂' _ hs₂
  refine (Condition.parallel_parse hs₂).after.bind ?_
  intro condition s₃ h₃ condition' s₃' h₃' hcondition hs₃
  refine (hs₃.operator _).after.bind ?_
  intro _ s₄ h₄ _ s₄' h₄' _ hs₄
  exact parallel_pure hs₄ ⟨hs₁.opened.scopes, hcondition⟩

end Statement

theorem Scope.erase_nested_eq {scope scope' : Scope} (hscope : scope.erase = scope'.erase)
    {id id' : Nat} (hid : id = id') : (scope.nested id).erase = (scope'.nested id').erase := by
  rw [Scope.nested_erase, Scope.nested_erase, hscope, hid]

mutual

theorem Block.parallel_parse {s s' : Cursor} {scope scope' : Scope}
    (hscope : scope.erase = scope'.erase) (h : s.Alike C s') :
    Parallel C (Same (Block.outline Scope.erase)) (Block.parse scope s)
      (Block.parse scope' s') := by
  rw [Block.parse, Block.parse]
  refine (Declaration.parallel_parseAll hscope h).bind ?_
  rintro ⟨ds, scope₁⟩ s₁ h₁ ⟨ds', scope₁'⟩ s₁' h₁' ⟨hds, hscope₁⟩ hs₁
  refine (Statement.parallel_parseAll hscope₁ hs₁).afterLoose.bind ?_
  intro sts s₂ h₂ sts' s₂' h₂' hsts hs₂
  refine parallel_pure hs₂ ?_
  rw [Same, Block.outline, Block.outline, hds, hsts, hscope₁]
termination_by 4 * s.size + 3

theorem Statement.parallel_parseAll {s s' : Cursor} {scope scope' : Scope}
    (hscope : scope.erase = scope'.erase) (h : s.Alike C s') :
    Parallel C (Same (Statement.outlineAll Scope.erase)) (Statement.parseAll scope s)
      (Statement.parseAll scope' s') := by
  rw [Statement.parseAll.eq_def scope s, Statement.parseAll.eq_def scope' s', ← h.peek?_eq]
  split
  · refine Parallel.loosen ((Statement.parallel_parse hscope h).bind ?_)
    intro st s₁ h₁ st' s₁' h₁' hst hs₁
    refine (Statement.parallel_parseAll hscope hs₁).afterLoose.bind ?_
    intro sts s₂ h₂ sts' s₂' h₂' hsts hs₂
    refine parallel_pure hs₂ ?_
    rw [Same, Statement.outlineAll, Statement.outlineAll, hst, hsts]
  · exact parallel_stay h rfl
termination_by 4 * s.size + 2

theorem Statement.parallel_parse {s s' : Cursor} {scope scope' : Scope}
    (hscope : scope.erase = scope'.erase) (h : s.Alike C s') :
    Parallel C (Same (Statement.outline Scope.erase)) (Statement.parse scope s)
      (Statement.parse scope' s') := by
  rw [Statement.parse, Statement.parse, ← h.peek?_eq]
  split
  · exact Statement.parallel_parseIf hscope h
  · exact Statement.parallel_parseWhile hscope h
  · exact Statement.parallel_parseNames .read (fun _ _ => congrArg Statement.read) h
  · exact Statement.parallel_parseNames .write (fun _ _ => congrArg Statement.write) h
  · exact Statement.parallel_parseReturn h
  · exact Statement.parallel_parseAssign h
termination_by 4 * s.size + 1

theorem Statement.parallel_parseIf {s s' : Cursor} {scope scope' : Scope}
    (hscope : scope.erase = scope'.erase) (h : s.Alike C s') :
    Parallel C (Same (Statement.outline Scope.erase)) (Statement.parseIf scope s)
      (Statement.parseIf scope' s') := by
  rw [Statement.parseIf, Statement.parseIf]
  refine (Statement.parallel_parseHead .if_ h).bind ?_
  rintro ⟨id, condition⟩ s₁ h₁ ⟨id', condition'⟩ s₁' h₁' ⟨hid, hcondition⟩ hs₁
  refine (Block.parallel_parse (Scope.erase_nested_eq hscope hid) hs₁).afterLoose.bind ?_
  intro body s₂ h₂ body' s₂' h₂' hbody hs₂
  rcases hs₂.skip? (.keyword .else_) with
    ⟨hnone, hnone'⟩ | ⟨s₃, g, s₃', g', hsome, hsome', hs₃⟩
  · simp only [hnone, hnone']
    refine (hs₂.keyword _).after.bind ?_
    intro _ s₃ h₃ _ s₃' h₃' _ hs₃
    refine parallel_pure hs₃ ?_
    rw [Same, Statement.outline, Statement.outline, hcondition, hbody]
  · simp only [hsome, hsome']
    have hshorter : s₃.opened.size < s.size := size_lt_trans h₂ g
    refine (Block.parallel_parse (Scope.erase_nested_eq hscope hs₃.opened.scopes)
      hs₃.opened).afterLoose.bind ?_
    intro alternative s₄ h₄ alternative' s₄' h₄' halternative hs₄
    refine (hs₄.keyword _).after.bind ?_
    intro _ s₅ h₅ _ s₅' h₅' _ hs₅
    refine parallel_pure hs₅ ?_
    rw [Same, Statement.outline, Statement.outline, hcondition, hbody, halternative]
termination_by 4 * s.size

theorem Statement.parallel_parseWhile {s s' : Cursor} {scope scope' : Scope}
    (hscope : scope.erase = scope'.erase) (h : s.Alike C s') :
    Parallel C (Same (Statement.outline Scope.erase)) (Statement.parseWhile scope s)
      (Statement.parseWhile scope' s') := by
  rw [Statement.parseWhile, Statement.parseWhile]
  refine (Statement.parallel_parseHead .while_ h).bind ?_
  rintro ⟨id, condition⟩ s₁ h₁ ⟨id', condition'⟩ s₁' h₁' ⟨hid, hcondition⟩ hs₁
  refine (Block.parallel_parse (Scope.erase_nested_eq hscope hid) hs₁).afterLoose.bind ?_
  intro body s₂ h₂ body' s₂' h₂' hbody hs₂
  refine (hs₂.keyword _).after.bind ?_
  intro _ s₃ h₃ _ s₃' h₃' _ hs₃
  refine parallel_pure hs₃ ?_
  rw [Same, Statement.outline, Statement.outline, hcondition, hbody]
termination_by 4 * s.size

end

/-! ## Programs -/

namespace Function

variable {s s' : Cursor} {outer outer' : Scope}

theorem parallel_parse (houter : outer.erase = outer'.erase) (h : s.Alike C s') :
    Parallel C (Same (outline Scope.erase)) (parse outer s) (parse outer' s') := by
  refine (h.keyword _).bind ?_
  intro _ s₁ h₁ _ s₁' h₁' _ hs₁
  refine (hs₁.take _ _).after.bind ?_
  intro returns s₂ h₂ returns' s₂' h₂' hreturns hs₂
  refine hs₂.identifier.after.bind ?_
  intro name s₃ h₃ name' s₃' h₃' hname hs₃
  refine Parallel.bind (Parallel.after (hs₃.opened.operator _)) ?_
  intro _ s₄ h₄ _ s₄' h₄' _ hs₄
  refine (Parameter.parallel_parseAll (Scope.erase_nested_eq houter hs₃.opened.scopes)
    hs₄).afterLoose.bind ?_
  rintro ⟨parameters, scope⟩ s₅ h₅ ⟨parameters', scope'⟩ s₅' h₅' ⟨hparameters, hscope⟩ hs₅
  refine (hs₅.operator _).after.bind ?_
  intro _ s₆ h₆ _ s₆' h₆' _ hs₆
  refine (hs₆.keyword _).after.bind ?_
  intro _ s₇ h₇ _ s₇' h₇' _ hs₇
  refine (Block.parallel_parse hscope hs₇).afterLoose.bind ?_
  intro body s₈ h₈ body' s₈' h₈' hbody hs₈
  refine (hs₈.keyword _).after.bind ?_
  intro _ s₉ h₉ _ s₉' h₉' _ hs₉
  refine parallel_pure hs₉ ?_
  rw [Same, outline, outline, hreturns.erase_eq, hname.erase_eq, hparameters, hbody]

theorem parallel_parseAll {s s' : Cursor} (houter : outer.erase = outer'.erase)
    (h : s.Alike C s') :
    Parallel C (Same (List.map (outline Scope.erase))) (parseAll outer s) (parseAll outer' s') := by
  rw [parseAll.eq_def outer s, parseAll.eq_def outer' s', ← h.peek?_eq]
  split
  · refine Parallel.loosen ((parallel_parse houter h).bind ?_)
    intro f s₁ h₁ f' s₁' h₁' hf hs₁
    refine (parallel_parseAll houter hs₁).afterLoose.bind ?_
    intro fs s₂ h₂ fs' s₂' h₂' hfs hs₂
    refine parallel_pure hs₂ ?_
    rw [Same, List.map_cons, List.map_cons, hf, hfs]
  · exact parallel_stay h rfl
termination_by s.size

end Function

namespace Program

/-- Two programs side by side. No token has been read at the start, so that there have to be some
ahead for an error to be at one of them. -/
theorem parallel_parseWhole {s s' : Cursor} (hne : s.ahead ≠ [])
    (hahead : List.Forall₂ (Located.Alike C) s.ahead s'.ahead) (hscopes : s.scopes = s'.scopes) :
    Parallel C (Same (outline Scope.erase)) (parseWhole s) (parseWhole s') := by
  refine (parallel_take_of_ahead hahead (fun h => absurd h hne) hscopes _ _).bind ?_
  intro _ s₁ h₁ _ s₁' h₁' _ hs₁
  refine hs₁.identifier.after.bind ?_
  intro name s₂ h₂ name' s₂' h₂' hname hs₂
  refine (hs₂.keyword _).after.bind ?_
  intro _ s₃ h₃ _ s₃' h₃' _ hs₃
  refine (Declaration.parallel_parseAll rfl hs₃).afterLoose.bind ?_
  rintro ⟨globals, scope⟩ s₄ h₄ ⟨globals', scope'⟩ s₄' h₄' ⟨hglobals, hscope⟩ hs₄
  refine (Function.parallel_parseAll hscope hs₄).afterLoose.bind ?_
  intro functions s₅ h₅ functions' s₅' h₅' hfunctions hs₅
  refine (hs₅.keyword _).after.bind ?_
  intro end_ s₆ h₆ end_' s₆' h₆' _ hs₆
  have hempty : s₆'.ahead.isEmpty = s₆.ahead.isEmpty := by
    have hvalues := congrArg List.isEmpty (Located.map_value_eq hs₆.ahead)
    simpa using hvalues.symm
  simp only [hempty]
  split
  · refine parallel_pure hs₆ ?_
    rw [Same, outline, outline, hname.erase_eq, hglobals, hscope, hfunctions]
  · exact .error (hs₆.fault _)

end Program

end LittleTiny
