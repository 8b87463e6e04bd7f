import LittleTiny.Proofs.Viability

/-!
# How far the rules get

Every rule takes the tokens of its derivations, or fails behind tokens that one of them goes on with
(`Program.within_parseWhole`). There is a theorem for each rule; they use each other as the rules
do, and come to an end for the same reason.
-/

namespace LittleTiny

open Reading Cursor Grammar

/-! ## Some derivation of each kind -/

instance {α : Type} [h : Nonempty α] : Nonempty (Located α) := h.map (⟨·, {}⟩)

namespace Grammar

instance : Nonempty Sum := ⟨.mk (.mk (.int ⟨"0", {}⟩) .nil) .nil⟩

instance : Nonempty Terms := ⟨.nil⟩

instance : Nonempty Factors := ⟨.nil⟩

instance : Nonempty Arguments := ⟨.none⟩

instance : Nonempty MoreArguments := ⟨.nil⟩

instance : Nonempty Cond :=
  ⟨⟨.mk (.mk (.int ⟨"0", {}⟩) .nil) .nil, ⟨.equal, {}⟩, .mk (.mk (.int ⟨"0", {}⟩) .nil) .nil⟩⟩

instance : Nonempty Params := ⟨.none⟩

instance : Nonempty Body := ⟨⟨[], []⟩⟩

instance {α : Type} [h : Nonempty α] : Nonempty (Separated α) := h.map (⟨·, []⟩)

end Grammar

instance : Nonempty Comparison := ⟨.equal⟩

instance : Nonempty ReturnType := ⟨.void⟩

/-! ## Classes of tokens -/

namespace Token

theorem requires_additive? : Requires additive? := by
  intro t op h
  obtain ⟨a, rfl, -⟩ := additive?_eq_some_iff.1 h
  cases a <;> rfl

theorem requires_multiplicative? : Requires multiplicative? := by
  intro t op h
  obtain ⟨a, rfl, -⟩ := multiplicative?_eq_some_iff.1 h
  cases a <;> rfl

theorem requires_comparison? : Requires comparison? := by
  intro t op h
  obtain rfl := comparison?_eq_some_iff.1 h
  cases op <;> rfl

theorem requires_leaf? : Requires leaf? := by
  intro t f h
  cases t <;> cases h <;> rfl

theorem requires_numClass? : Requires numClass? := by
  intro t type h
  obtain rfl := numClass?_eq_some_iff.1 h
  cases type <;> rfl

theorem requires_returnType? : Requires returnType? := by
  intro t type h
  obtain rfl := returnType?_eq_some_iff.1 h
  rcases type with (_ | _) | _ <;> rfl

end Token

namespace Grammar

/-- The sign of any test. -/
abbrev aComparison : Located Comparison → Tokens := fun op => [sign op.value.operator op.location]

/-- The word for any type of numbers. -/
abbrev aNumClass : Located NumClass → Tokens := fun type => [word type.value.keyword type.location]

/-- The word for anything that a function returns. -/
abbrev aReturnType : Located ReturnType → Tokens :=
  fun type => [word type.value.keyword type.location]

end Grammar

namespace Cursor

variable {s : Cursor}

theorem within_comparison :
    Within aComparison s (s.take Token.comparison? .expectedComparison) := by
  refine within_take Token.requires_comparison? ?_ (fun _ h => h) ⟨.operator .equal, rfl⟩
  intro token op l h
  obtain rfl := Token.comparison?_eq_some_iff.1 h
  exact ⟨⟨op, l⟩, rfl⟩

theorem within_varType : Within aNumClass s s.varType := by
  refine within_take Token.requires_numClass? ?_ ?_ ⟨.keyword .int, rfl⟩
  · intro token type l h
    obtain rfl := Token.numClass?_eq_some_iff.1 h
    exact ⟨⟨type, l⟩, rfl⟩
  · rintro token rfl
    rfl

theorem within_returnType : Within aReturnType s s.returnType := by
  refine within_take Token.requires_returnType? ?_ ?_ ⟨.keyword .int, rfl⟩
  · intro token type l h
    obtain rfl := Token.returnType?_eq_some_iff.1 h
    exact ⟨⟨type, l⟩, rfl⟩
  · rintro token rfl
    rfl

theorem within_names (s : Cursor) : Within nameTokens s s.names := by
  have h : Within (seq aName (Separated.restTokens aName)) s s.names := by
    rw [Cursor.names.eq_def s]
    refine within_identifier.bind fun name s₁ h₁ => ?_
    dsimp only
    split
    · exact within_pure.map (fun _ => []) fun _ => rfl
    · next s₂ g hskip =>
      obtain ⟨l, hs⟩ := passes_of_skip? rfl hskip
      have hmore : Within nameTokens s₂ s₂.names := within_names s₂
      refine Within.map (.prepend hs (hmore.after.yielding fun _ _ _ => ⟨_, _, rfl⟩))
        (fun d => (l, d.first) :: d.rest) fun d => ?_
      simp [Separated.restTokens, nameTokens, Separated.tokens]
  exact h.map (fun d => ⟨d.1, d.2⟩) fun _ => rfl
termination_by s.size

end Cursor

/-! ## Expressions -/

namespace Expr

mutual

theorem within_parse (s : Cursor) : Within Sum.tokens s (parse s) := by
  have h : Within (seq Product.tokens Terms.tokens) s (parse s) := by
    rw [parse]
    refine (within_parseProduct s).bind fun lhs s₁ h₁ => ?_
    exact (within_parseSumFrom lhs s₁).afterLoose
  exact h.map (fun d => .mk d.1 d.2) fun d => by rw [Sum.tokens]
termination_by 6 * s.size + 3

theorem within_parseSumFrom (lhs : Expr) (s : Cursor) :
    Within Terms.tokens s (parseSumFrom lhs s) := by
  rw [parseSumFrom.eq_def]
  split
  · exact within_stay.map (fun _ => .nil) fun _ => by rw [Terms.tokens]
  · next op s₁ h₁ htake =>
    obtain ⟨token, hw, hs⟩ := passes_of_take? Token.requires_additive? htake
    obtain ⟨a, rfl, -⟩ := Token.additive?_eq_some_iff.1 hw
    have hrest : ∀ rhs s₂ (_ : s₂.size < s.size),
        Within Terms.tokens s₂ (parseSumFrom (.join op.value lhs rhs) s₂) :=
      fun rhs s₂ _ => within_parseSumFrom _ s₂
    refine Within.map (.prepend hs (.loosen ((within_parseProduct s₁).after.bind
      fun rhs s₂ h₂ => (hrest rhs s₂ h₂).afterLoose)))
      (fun d => .cons ⟨a, op.location⟩ d.1 d.2) fun d => ?_
    rw [Terms.tokens]
    rfl
termination_by 6 * s.size

theorem within_parseProduct (s : Cursor) : Within Product.tokens s (parseProduct s) := by
  have h : Within (seq Atom.tokens Factors.tokens) s (parseProduct s) := by
    rw [parseProduct]
    refine (within_parseAtom s).bind fun lhs s₁ h₁ => ?_
    exact (within_parseProductFrom lhs s₁).afterLoose
  exact h.map (fun d => .mk d.1 d.2) fun d => by rw [Product.tokens]
termination_by 6 * s.size + 2

theorem within_parseProductFrom (lhs : Expr) (s : Cursor) :
    Within Factors.tokens s (parseProductFrom lhs s) := by
  rw [parseProductFrom.eq_def]
  split
  · exact within_stay.map (fun _ => .nil) fun _ => by rw [Factors.tokens]
  · next op s₁ h₁ htake =>
    obtain ⟨token, hw, hs⟩ := passes_of_take? Token.requires_multiplicative? htake
    obtain ⟨a, rfl, -⟩ := Token.multiplicative?_eq_some_iff.1 hw
    have hrest : ∀ rhs s₂ (_ : s₂.size < s.size),
        Within Factors.tokens s₂ (parseProductFrom (.join op.value lhs rhs) s₂) :=
      fun rhs s₂ _ => within_parseProductFrom _ s₂
    refine Within.map (.prepend hs (.loosen ((within_parseAtom s₁).after.bind
      fun rhs s₂ h₂ => (hrest rhs s₂ h₂).afterLoose)))
      (fun d => .cons ⟨a, op.location⟩ d.1 d.2) fun d => ?_
    rw [Factors.tokens]
    rfl
termination_by 6 * s.size

theorem within_parseAtom (s : Cursor) : Within Atom.tokens s (parseAtom s) := by
  rw [parseAtom]
  split
  · refine Within.map (?_ : Within (seq aName (seq (aSign .openParen) (seq Arguments.tokens
      (aSign .closeParen)))) s _) (fun d => .call d.1 d.2.1 d.2.2.1 d.2.2.2)
      fun d => by simp [seq, Atom.tokens]
    refine within_identifier.bind fun function s₁ h₁ => ?_
    refine (within_operator .openParen).after.bind fun _ s₂ h₂ => ?_
    refine (within_parseArguments s₂).afterLoose.bind fun arguments s₃ h₃ => ?_
    exact (within_operator .closeParen).after.yielding fun _ _ _ => ⟨_, _, rfl⟩
  · split
    · next leaf s₁ h₁ htake =>
      obtain ⟨token, hw, hs⟩ := passes_of_take? Token.requires_leaf? htake
      have hd : ∃ d : Atom, d.tokens = [⟨token, leaf.location⟩] := by
        cases token with
        | identifier name => exact ⟨.var ⟨name, leaf.location⟩, by rw [Atom.tokens]⟩
        | intLiteral digits => exact ⟨.int ⟨digits, leaf.location⟩, by rw [Atom.tokens]⟩
        | floatLiteral digits => exact ⟨.float ⟨digits, leaf.location⟩, by rw [Atom.tokens]⟩
        | keyword k => cases hw
        | stringLiteral content => cases hw
        | operator o => cases hw
      obtain ⟨d, hd⟩ := hd
      exact .ok d (hd ▸ hs)
    · split
      · refine Within.map (?_ : Within (seq (aSign .openParen) (seq Sum.tokens
          (aSign .closeParen))) s _) (fun d => .paren d.1 d.2.1 d.2.2)
          fun d => by simp [seq, Atom.tokens]
        refine (within_operator .openParen).bind fun opening s₁ h₁ => ?_
        refine (within_parse s₁).after.bind fun e s₂ h₂ => ?_
        exact (within_operator .closeParen).after.yielding fun _ _ _ => ⟨_, _, rfl⟩
      · refine .fault [] (.refl s) ⟨.intLiteral "0", rfl⟩ fun x hx => ?_
        obtain ⟨token, l⟩ := x
        cases token <;> cases hx
        next digits => exact ⟨.int ⟨digits, l⟩, [], by rw [Atom.tokens]; rfl⟩
termination_by 6 * s.size + 1

theorem within_parseArguments (s : Cursor) : Within Arguments.tokens s (parseArguments s) := by
  rw [parseArguments]
  split
  · exact (within_parseList s).loosen.map (fun d => .some d.1 d.2) fun d => by
      rw [Arguments.tokens]
  · exact within_stay.map (fun _ => .none) fun _ => by rw [Arguments.tokens]
termination_by 6 * s.size + 5

theorem within_parseList (s : Cursor) :
    Within (seq Sum.tokens MoreArguments.tokens) s (parseList s) := by
  rw [parseList.eq_def s]
  refine (within_parse s).bind fun e s₁ h₁ => ?_
  dsimp only
  split
  · exact within_pure.map (fun _ => .nil) fun _ => by rw [MoreArguments.tokens]
  · next s₂ g hskip =>
    obtain ⟨l, hs⟩ := passes_of_skip? rfl hskip
    have hmore := within_parseList s₂
    refine Within.map (.prepend hs (hmore.after.yielding fun _ _ _ => ⟨_, _, rfl⟩))
      (fun d => .cons l d.1 d.2) fun d => ?_
    rw [MoreArguments.tokens]
    rfl
termination_by 6 * s.size + 4

end

end Expr

theorem Condition.within_parse (s : Cursor) : Within Cond.tokens s (Condition.parse s) := by
  have h : Within (seq Sum.tokens (seq aComparison Sum.tokens)) s (Condition.parse s) := by
    refine (Expr.within_parse s).bind fun lhs s₁ h₁ => ?_
    refine within_comparison.after.bind fun op s₂ h₂ => ?_
    exact (Expr.within_parse s₂).after.yielding fun _ _ _ => ⟨_, _, rfl⟩
  exact h.map (fun d => ⟨d.1, d.2.1, d.2.2⟩) fun _ => rfl

/-! ## Declarations -/

namespace Cursor

variable {β : Type} {n : Nat} {s : Cursor} {scope : Scope} {type : VarType}

/-- Names are entered into a scope, or one of them is declared twice, wherever the cursor is. -/
def Enters (enter : Cursor → Reading Scope) : Prop :=
  (∃ scope, ∀ s, enter s = .ok scope) ∨
    ∃ error l, ∀ s, enter s = .error ⟨⟨.redeclared error, l⟩, s⟩

theorem enters_declare {name : Located String} {value : Option String} :
    Enters fun s => s.declare scope name type value := by
  unfold declare
  split
  · exact .inl ⟨_, fun _ => rfl⟩
  · exact .inr ⟨_, _, fun _ => rfl⟩

theorem enters_declareAll {names : List (Located String)} :
    Enters fun s => s.declareAll scope type names := by
  induction names generalizing scope with
  | nil => exact .inl ⟨scope, fun _ => rfl⟩
  | cons name names ih =>
    have hfirst : Enters fun s => s.declare scope name type none := enters_declare
    obtain ⟨scope₁, hok⟩ | ⟨error, l, herror⟩ := hfirst
    · simp only [declareAll, hok]
      exact ih
    · simp only [declareAll, herror]
      exact .inr ⟨error, l, fun _ => rfl⟩

theorem Enters.settles {enter : Cursor → Reading Scope} (h : Enters enter) {g : Scope → β}
    {hs : s.size < n} :
    Settles s (enter s >>= fun scope => pure ⟨g scope, s, hs⟩ : Reading (Advance n β)) := by
  obtain ⟨scope, hok⟩ | ⟨error, l, herror⟩ := h
  · exact .inl ⟨g scope, hs, by rw [hok]; rfl⟩
  · exact .inr ⟨error, l, by rw [herror]; rfl⟩

end Cursor

namespace Declaration

theorem within_parseText (scope : Scope) (s : Cursor) :
    Within Decl.tokens s (parseText scope s) := by
  have h : Within (seq (aWord .string) (seq aName (seq (aSign .assign) (seq aText
      (aSign .semicolon))))) s (parseText scope s) := by
    refine (within_keyword .string).bind fun _ s₁ h₁ => ?_
    refine within_identifier.after.bind fun name s₂ h₂ => ?_
    refine (within_operator .assign).after.bind fun _ s₃ h₃ => ?_
    refine within_stringLiteral.after.bind fun value s₄ h₄ => ?_
    exact (within_operator .semicolon).after.settle (fun _ => List.cons_ne_nil _ _)
      fun _ s₅ h₅ => enters_declare.settles
  exact h.map (fun d => .text d.1 d.2.1 d.2.2.1 d.2.2.2.1 d.2.2.2.2) fun _ => rfl

theorem within_parseNumbers (scope : Scope) (s : Cursor) :
    Within Decl.tokens s (parseNumbers scope s) := by
  have h : Within (seq aNumClass (seq nameTokens (aSign .semicolon))) s
      (parseNumbers scope s) := by
    refine within_varType.bind fun type s₁ h₁ => ?_
    refine (within_names s₁).after.bind fun names s₂ h₂ => ?_
    exact (within_operator .semicolon).after.settle (fun _ => List.cons_ne_nil _ _)
      fun _ s₃ h₃ => enters_declareAll.settles
  exact h.map (fun d => .numbers d.1 d.2.1 d.2.2) fun _ => rfl

theorem within_parse (scope : Scope) (s : Cursor) : Within Decl.tokens s (parse scope s) := by
  unfold parse
  split
  · exact within_parseText scope s
  · exact within_parseNumbers scope s

theorem within_parseAll (scope : Scope) (s : Cursor) :
    Within (List.flatMap Decl.tokens) s (parseAll scope s) := by
  rw [parseAll]
  split
  · refine Within.loosen (Within.map (?_ : Within (seq Decl.tokens (List.flatMap Decl.tokens)) s _)
      (fun d => d.1 :: d.2) fun _ => rfl)
    refine (within_parse scope s).bind fun d s₁ h₁ => ?_
    have hmore := within_parseAll d.2 s₁
    exact hmore.afterLoose.yielding fun _ _ _ => ⟨_, _, rfl⟩
  · exact within_stay.map (fun _ => []) fun _ => rfl
termination_by s.size

end Declaration

namespace Parameter

theorem within_parse (scope : Scope) (s : Cursor) : Within Param.tokens s (parse scope s) := by
  have h : Within (seq aNumClass aName) s (parse scope s) := by
    refine within_varType.bind fun type s₁ h₁ => ?_
    exact within_identifier.after.settle (fun _ => List.cons_ne_nil _ _)
      fun name s₂ h₂ => enters_declare.settles
  exact h.map (fun d => ⟨d.1, d.2⟩) fun _ => rfl

theorem within_parseList (scope : Scope) (s : Cursor) :
    Within (Separated.tokens Param.tokens) s (parseList scope s) := by
  have h : Within (seq Param.tokens (Separated.restTokens Param.tokens)) s
      (parseList scope s) := by
    rw [parseList.eq_def]
    refine (within_parse scope s).bind fun p s₁ h₁ => ?_
    dsimp only
    split
    · exact within_pure.map (fun _ => []) fun _ => rfl
    · next s₂ g hskip =>
      obtain ⟨l, hs⟩ := passes_of_skip? rfl hskip
      have hmore := within_parseList p.2 s₂
      refine Within.map (.prepend hs (hmore.after.yielding fun _ _ _ => ⟨_, _, rfl⟩))
        (fun d => (l, d.first) :: d.rest) fun d => ?_
      simp [Separated.restTokens, Separated.tokens]
  exact h.map (fun d => ⟨d.1, d.2⟩) fun _ => rfl
termination_by s.size

theorem within_parseAll (scope : Scope) (s : Cursor) :
    Within Params.tokens s (parseAll scope s) := by
  unfold parseAll
  split
  · exact (within_parseList scope s).loosen.map .some fun _ => rfl
  · exact within_stay.map (fun _ => .none) fun _ => rfl

end Parameter

/-! ## Statements -/

namespace Grammar

/-- The tokens of the condition of an IF or a WHILE, with the parentheses. -/
abbrev aHead : Location × Cond × Location → Tokens := fun d => headTokens d.1 d.2.1 d.2.2

/-- The tokens of an ELSE with its block, if there is one. -/
abbrev anElse : Option (Location × Body) → Tokens :=
  fun d => d.elim [] fun x => word .else_ x.1 :: x.2.tokens

end Grammar

namespace Statement

theorem within_parseAssign (s : Cursor) : Within Stmt.tokens s (parseAssign s) := by
  have h : Within (seq aName (seq (aSign .assign) (seq Sum.tokens (aSign .semicolon)))) s
      (parseAssign s) := by
    refine within_identifier.bind fun target s₁ h₁ => ?_
    refine (within_operator .assign).after.bind fun _ s₂ h₂ => ?_
    refine (Expr.within_parse s₂).after.bind fun value s₃ h₃ => ?_
    exact (within_operator .semicolon).after.yielding fun _ _ _ => ⟨_, _, rfl⟩
  exact h.map (fun d => .assign d.1 d.2.1 d.2.2.1 d.2.2.2) fun _ => by rw [Stmt.tokens]; rfl

theorem within_parseReturn (s : Cursor) : Within Stmt.tokens s (parseReturn s) := by
  have h : Within (seq (aWord .return_) (seq Sum.tokens (aSign .semicolon))) s
      (parseReturn s) := by
    refine (within_keyword .return_).bind fun _ s₁ h₁ => ?_
    refine (Expr.within_parse s₁).after.bind fun value s₂ h₂ => ?_
    exact (within_operator .semicolon).after.yielding fun _ _ _ => ⟨_, _, rfl⟩
  exact h.map (fun d => .return_ d.1 d.2.1 d.2.2) fun _ => by rw [Stmt.tokens]; rfl

theorem within_parseNames {k : Keyword} (hk : k ≠ .else_)
    (form : List (Located String) → Statement) (s : Cursor) :
    Within (fun d : Location × Location × Separated (Located String) × Location × Location =>
      word k d.1 :: listTokens d.2.1 d.2.2.1 d.2.2.2.1 d.2.2.2.2) s (parseNames k form s) := by
  have h : Within (seq (aWord k) (seq (aSign .openParen) (seq nameTokens (seq (aSign .closeParen)
      (aSign .semicolon))))) s (parseNames k form s) := by
    refine (within_keyword k hk).bind fun _ s₁ h₁ => ?_
    refine (within_operator .openParen).after.bind fun _ s₂ h₂ => ?_
    refine (within_names s₂).after.bind fun names s₃ h₃ => ?_
    refine (within_operator .closeParen).after.bind fun _ s₄ h₄ => ?_
    exact (within_operator .semicolon).after.yielding fun _ _ _ => ⟨_, _, rfl⟩
  exact h.map (fun d => d) fun _ => rfl

theorem within_parseHead {k : Keyword} (hk : k ≠ .else_) (s : Cursor) :
    Within (seq (aWord k) aHead) s (parseHead k s) := by
  have h : Within (seq (aWord k) (seq (aSign .openParen) (seq Cond.tokens (aSign .closeParen)))) s
      (parseHead k s) := by
    refine (within_keyword k hk).bind fun _ s₁ h₁ => ?_
    refine (within_operator .openParen).afterOpened.bind fun _ s₂ h₂ => ?_
    refine (Condition.within_parse s₂).after.bind fun condition s₃ h₃ => ?_
    exact (within_operator .closeParen).after.yielding fun _ _ _ => ⟨_, _, rfl⟩
  exact h.map (fun d => d) fun _ => rfl

end Statement

mutual

theorem Block.within_parse (scope : Scope) (s : Cursor) :
    Within Body.tokens s (Block.parse scope s) := by
  have h : Within (seq (List.flatMap Decl.tokens) Stmt.tokensAll) s (Block.parse scope s) := by
    rw [Block.parse]
    refine (Declaration.within_parseAll scope s).bind fun ds s₁ h₁ => ?_
    have hstmts := Statement.within_parseAll ds.2 s₁
    exact hstmts.afterLoose.yielding fun _ _ _ => ⟨_, _, rfl⟩
  exact h.map (fun d => ⟨d.1, d.2⟩) fun _ => by rw [Body.tokens]
termination_by 4 * s.size + 3

theorem Statement.within_parseAll (scope : Scope) (s : Cursor) :
    Within Stmt.tokensAll s (Statement.parseAll scope s) := by
  rw [Statement.parseAll]
  split
  · refine Within.loosen (Within.map (?_ : Within (seq Stmt.tokens Stmt.tokensAll) s _)
      (fun d => d.1 :: d.2) fun _ => by rw [Stmt.tokensAll])
    refine (Statement.within_parse scope s).bind fun st s₁ h₁ => ?_
    have hmore := Statement.within_parseAll scope s₁
    exact hmore.afterLoose.yielding fun _ _ _ => ⟨_, _, rfl⟩
  · exact within_stay.map (fun _ => []) fun _ => by rw [Stmt.tokensAll]
termination_by 4 * s.size + 2

theorem Statement.within_parse (scope : Scope) (s : Cursor) :
    Within Stmt.tokens s (Statement.parse scope s) := by
  rw [Statement.parse]
  split
  · exact Statement.within_parseIf scope s
  · exact Statement.within_parseWhile scope s
  · exact (Statement.within_parseNames (by decide) .read s).map
      (fun d => .read d.1 d.2.1 d.2.2.1 d.2.2.2.1 d.2.2.2.2) fun _ => by rw [Stmt.tokens]
  · exact (Statement.within_parseNames (by decide) .write s).map
      (fun d => .write d.1 d.2.1 d.2.2.1 d.2.2.2.1 d.2.2.2.2) fun _ => by rw [Stmt.tokens]
  · exact Statement.within_parseReturn s
  · exact Statement.within_parseAssign s
termination_by 4 * s.size + 1

theorem Statement.within_parseIf (scope : Scope) (s : Cursor) :
    Within Stmt.tokens s (Statement.parseIf scope s) := by
  have h : Within (seq (seq (aWord .if_) aHead) (seq Body.tokens (seq anElse (aWord .endIf)))) s
      (Statement.parseIf scope s) := by
    rw [Statement.parseIf]
    refine (Statement.within_parseHead (by decide) s).bind fun head s₁ h₁ => ?_
    have hbody := Block.within_parse (scope.nested head.1) s₁
    refine hbody.afterLoose.bind fun body s₂ h₂ => ?_
    dsimp only
    split
    · exact Within.map ((within_keyword .endIf).after.yielding fun _ _ _ => ⟨_, _, rfl⟩)
        (fun l => (none, l)) fun _ => rfl
    · next s₃ g hskip =>
      obtain ⟨l, hs⟩ := passes_of_skip? rfl hskip
      have h₃ : s₃.opened.size < s.size := size_lt_trans h₂ g
      have halternative := Block.within_parse (scope.nested s₃.opened.scopes) s₃.opened
      refine Within.map (.prepend hs (?_ : Within (seq Body.tokens (aWord .endIf)) s₃ _))
        (fun d => (some (l, d.1), d.2)) fun _ => rfl
      refine (within_of_opened halternative.afterLoose).bind fun alternative s₄ h₄ => ?_
      exact (within_keyword .endIf).after.yielding fun _ _ _ => ⟨_, _, rfl⟩
  refine h.map (fun d => d.2.2.1.elim
    (.ifThen d.1.1 d.1.2.1 d.1.2.2.1 d.1.2.2.2 d.2.1 d.2.2.2)
    fun x => .ifElse d.1.1 d.1.2.1 d.1.2.2.1 d.1.2.2.2 d.2.1 x.1 x.2 d.2.2.2) fun d => ?_
  obtain ⟨_, _, _ | _, _⟩ := d <;> simp [seq, Stmt.tokens]
termination_by 4 * s.size

theorem Statement.within_parseWhile (scope : Scope) (s : Cursor) :
    Within Stmt.tokens s (Statement.parseWhile scope s) := by
  have h : Within (seq (seq (aWord .while_) aHead) (seq Body.tokens (aWord .endWhile))) s
      (Statement.parseWhile scope s) := by
    rw [Statement.parseWhile]
    refine (Statement.within_parseHead (by decide) s).bind fun head s₁ h₁ => ?_
    have hbody := Block.within_parse (scope.nested head.1) s₁
    refine hbody.afterLoose.bind fun body s₂ h₂ => ?_
    exact (within_keyword .endWhile).after.yielding fun _ _ _ => ⟨_, _, rfl⟩
  refine h.map (fun d => .loop d.1.1 d.1.2.1 d.1.2.2.1 d.1.2.2.2 d.2.1 d.2.2) fun d => ?_
  simp [seq, Stmt.tokens]
termination_by 4 * s.size

end

/-! ## Programs -/

namespace Function

theorem within_parse (outer : Scope) (s : Cursor) : Within Func.tokens s (parse outer s) := by
  have h : Within (seq (aWord .function) (seq aReturnType (seq aName (seq (aSign .openParen)
      (seq Params.tokens (seq (aSign .closeParen) (seq (aWord .begin_) (seq Body.tokens
        (aWord .end_))))))))) s (parse outer s) := by
    refine (within_keyword .function).bind fun _ s₁ h₁ => ?_
    refine within_returnType.after.bind fun returns s₂ h₂ => ?_
    refine within_identifier.after.bind fun name s₃ h₃ => ?_
    refine (within_operator .openParen).afterOpened.bind fun _ s₄ h₄ => ?_
    refine (Parameter.within_parseAll _ s₄).afterLoose.bind fun parameters s₅ h₅ => ?_
    refine (within_operator .closeParen).after.bind fun _ s₆ h₆ => ?_
    refine (within_keyword .begin_).after.bind fun _ s₇ h₇ => ?_
    refine (Block.within_parse _ s₇).afterLoose.bind fun body s₈ h₈ => ?_
    exact (within_keyword .end_).after.yielding fun _ _ _ => ⟨_, _, rfl⟩
  exact h.map (fun d => ⟨d.1, d.2.1, d.2.2.1, d.2.2.2.1, d.2.2.2.2.1, d.2.2.2.2.2.1,
    d.2.2.2.2.2.2.1, d.2.2.2.2.2.2.2.1, d.2.2.2.2.2.2.2.2⟩) fun _ => rfl

theorem within_parseAll (outer : Scope) (s : Cursor) :
    Within (List.flatMap Func.tokens) s (parseAll outer s) := by
  rw [parseAll]
  split
  · refine Within.loosen (Within.map (?_ : Within (seq Func.tokens (List.flatMap Func.tokens)) s _)
      (fun d => d.1 :: d.2) fun _ => rfl)
    refine (within_parse outer s).bind fun f s₁ h₁ => ?_
    have hmore := within_parseAll outer s₁
    exact hmore.afterLoose.yielding fun _ _ _ => ⟨_, _, rfl⟩
  · exact within_stay.map (fun _ => []) fun _ => rfl
termination_by s.size

end Function

theorem Program.within_parseWhole (s : Cursor) : WithinWhole Prog.tokens s (parseWhole s) := by
  have h : WithinWhole (seq (aWord .program) (seq aName (seq (aWord .begin_)
      (seq (List.flatMap Decl.tokens) (seq (List.flatMap Func.tokens) (seq (aWord .end_)
        fun _ : Unit => [])))))) s (parseWhole s) := by
    refine (within_keyword .program).bindWhole fun _ s₁ h₁ => ?_
    refine within_identifier.after.bindWhole fun name s₂ h₂ => ?_
    refine (within_keyword .begin_).after.bindWhole fun _ s₃ h₃ => ?_
    refine (Declaration.within_parseAll _ s₃).afterLoose.bindWhole fun globals s₄ h₄ => ?_
    refine (Function.within_parseAll _ s₄).afterLoose.bindWhole fun functions s₅ h₅ => ?_
    refine (within_keyword .end_).after.bindWhole fun end_ s₆ h₆ => ?_
    dsimp only
    split
    · exact .inl within_pure
    · next hne => exact .inr ⟨(), s₆, .refl s₆, fun h => hne (by rw [h]; rfl), rfl⟩
  refine h.map (fun d => ⟨d.1, d.2.1, d.2.2.1, d.2.2.2.1, d.2.2.2.2.1, d.2.2.2.2.2.1⟩) fun d => ?_
  simp [seq, Prog.tokens]

end LittleTiny
