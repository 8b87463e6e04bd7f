import LittleTiny.Proofs.Viability

/-!
# Names that are declared twice

`Prog.repeated?` looks through the scopes of a derivation, in the order in which they are opened,
for the first identifier whose scope has already declared it. Without one, the derivation is read to
its end; with one, the error is reported there (`Program.parse_tokens`).
-/

namespace LittleTiny

open Reading Cursor Grammar Token

namespace Grammar

/-- The first name that is one of `seen` or of those before it. -/
def repeatedIn? (seen : List String) : List (Located String) → Option (Located String)
  | [] => none
  | name :: names =>
    if name.value ∈ seen then some name else repeatedIn? (seen ++ [name.value]) names

/-- The first name that is declared twice, given the names that each scope declares. -/
def repeated? (scopes : List (List (Located String))) : Option (Located String) :=
  scopes.findSome? (repeatedIn? [])

theorem repeatedIn?_append (seen : List String) (names more : List (Located String)) :
    repeatedIn? seen (names ++ more) =
      (repeatedIn? seen names).or (repeatedIn? (seen ++ names.map Located.value) more) := by
  induction names generalizing seen with
  | nil => simp [repeatedIn?]
  | cons name names ih =>
    rw [List.cons_append, repeatedIn?, repeatedIn?]
    split
    · rfl
    · rw [ih, List.map_cons, List.append_assoc]
      rfl

theorem repeatedIn?_eq_none_iff {seen : List String} {names : List (Located String)}
    (h : seen.Nodup) :
    repeatedIn? seen names = none ↔ (seen ++ names.map Located.value).Nodup := by
  induction names generalizing seen with
  | nil => simpa [repeatedIn?] using h
  | cons name names ih =>
    have happ : seen ++ (name :: names).map Located.value =
        (seen ++ [name.value]) ++ names.map Located.value := by simp
    rw [repeatedIn?, happ]
    split
    · next hmem =>
      refine iff_of_false (Option.some_ne_none name) fun hn => ?_
      exact (List.nodup_append.1 hn.of_append_left).2.2 _ hmem _ (List.mem_singleton_self _) rfl
    · next hmem =>
      refine ih (List.nodup_append.2 ⟨h, List.nodup_singleton _, ?_⟩)
      rintro a ha b hb rfl
      exact hmem (List.mem_singleton.1 hb ▸ ha)

theorem repeated?_cons (names : List (Located String)) (scopes : List (List (Located String))) :
    repeated? (names :: scopes) = (repeatedIn? [] names).or (repeated? scopes) := by
  rw [repeated?, List.findSome?_cons]
  cases repeatedIn? [] names <;> rfl

theorem repeated?_append (scopes more : List (List (Located String))) :
    repeated? (scopes ++ more) = (repeated? scopes).or (repeated? more) :=
  List.findSome?_append

theorem repeated?_eq_none_iff {scopes : List (List (Located String))} :
    repeated? scopes = none ↔ ∀ names ∈ scopes.map (List.map Located.value), names.Nodup := by
  rw [repeated?, List.findSome?_eq_none_iff, List.forall_mem_map]
  exact forall₂_congr fun names _ => repeatedIn?_eq_none_iff List.nodup_nil

/-! ## The identifiers that a derivation declares -/

/-- The names that a declaration declares. -/
def Decl.identifiers : Decl → List (Located String)
  | text _ name _ _ _ => [name]
  | numbers _ names _ => names.toList

theorem Decl.map_value_identifiers (d : Decl) : d.identifiers.map Located.value = d.names := by
  cases d <;> rfl

theorem Decl.map_value_flatMap_identifiers (ds : List Decl) :
    (ds.flatMap identifiers).map Located.value = ds.flatMap names := by
  rw [List.map_flatMap]
  exact congrArg (List.flatMap · ds) (funext map_value_identifiers)

mutual

/-- For every scope that a statement opens, the identifiers that it declares. -/
def Stmt.declarations : Stmt → List (List (Located String))
  | .assign .. => []
  | .read .. => []
  | .write .. => []
  | .ifThen _ _ _ _ body _ => body.declarations []
  | .ifElse _ _ _ _ body _ alternative _ => body.declarations [] ++ alternative.declarations []
  | .loop _ _ _ _ body _ => body.declarations []
  | .return_ .. => []

/-- The identifiers declared in a block, behind those of the parameters, and those of the scopes
inside. -/
def Body.declarations (parameters : List (Located String)) : Body → List (List (Located String))
  | ⟨decls, stmts⟩ =>
    (parameters ++ decls.flatMap Decl.identifiers) :: Stmt.declarationsAll stmts

/-- The names declared in each scope that statements in a row open. -/
def Stmt.declarationsAll : List Stmt → List (List (Located String))
  | [] => []
  | s :: ss => s.declarations ++ Stmt.declarationsAll ss

end

mutual

theorem Stmt.map_declarations : ∀ d : Stmt,
    d.declarations.map (List.map Located.value) = d.scopes
  | .assign .. => by rw [Stmt.declarations, Stmt.scopes, List.map_nil]
  | .read .. => by rw [Stmt.declarations, Stmt.scopes, List.map_nil]
  | .write .. => by rw [Stmt.declarations, Stmt.scopes, List.map_nil]
  | .ifThen _ _ _ _ body _ => by
    rw [Stmt.declarations, Stmt.scopes]
    exact body.map_declarations []
  | .ifElse _ _ _ _ body _ alternative _ => by
    rw [Stmt.declarations, Stmt.scopes, List.map_append, body.map_declarations,
      alternative.map_declarations]
    rfl
  | .loop _ _ _ _ body _ => by
    rw [Stmt.declarations, Stmt.scopes]
    exact body.map_declarations []
  | .return_ .. => by rw [Stmt.declarations, Stmt.scopes, List.map_nil]

theorem Body.map_declarations : ∀ (b : Body) (parameters : List (Located String)),
    (b.declarations parameters).map (List.map Located.value) =
      b.scopes (parameters.map Located.value)
  | ⟨decls, stmts⟩, parameters => by
    rw [Body.declarations, Body.scopes, List.map_cons, List.map_append,
      Decl.map_value_flatMap_identifiers, Stmt.map_declarationsAll stmts]

theorem Stmt.map_declarationsAll : ∀ ds : List Stmt,
    (Stmt.declarationsAll ds).map (List.map Located.value) = Stmt.scopesAll ds
  | [] => by rw [Stmt.declarationsAll, Stmt.scopesAll, List.map_nil]
  | d :: ds => by
    rw [Stmt.declarationsAll, Stmt.scopesAll, List.map_append, d.map_declarations,
      Stmt.map_declarationsAll ds]

end

/-- The names declared in each scope of a function, its parameters among those of the first. -/
def Func.declarations (f : Func) : List (List (Located String)) :=
  f.body.declarations (f.parameters.toList.map Param.name)

theorem Func.map_declarations (f : Func) :
    f.declarations.map (List.map Located.value) = f.scopes := by
  rw [declarations, scopes, f.body.map_declarations, List.map_map]
  rfl

theorem Func.map_flatMap_declarations (fs : List Func) :
    (fs.flatMap declarations).map (List.map Located.value) = fs.flatMap scopes := by
  rw [List.map_flatMap]
  exact congrArg (List.flatMap · fs) (funext map_declarations)

namespace Prog

/-- For every scope, in the order in which they are opened, the identifiers that it declares. -/
def declarations (p : Prog) : List (List (Located String)) :=
  p.globals.flatMap Decl.identifiers :: p.functions.flatMap Func.declarations

/-- The first identifier whose scope has already declared it. -/
def repeated? (p : Prog) : Option (Located String) := Grammar.repeated? p.declarations

theorem repeated?_eq_none_iff {p : Prog} : p.repeated? = none ↔ p.Distinct := by
  have hscopes : p.declarations.map (List.map Located.value) = p.scopes := by
    rw [declarations, scopes, List.map_cons, Decl.map_value_flatMap_identifiers,
      Func.map_flatMap_declarations]
  rw [repeated?, Grammar.repeated?_eq_none_iff, hscopes, Distinct]

end Prog

end Grammar

/-! ## Rules that find a name twice -/

namespace Reading

variable {α β : Type} {m n : Nat} {x : Located String}

/-- The rule fails at the name `x`, which its scope has already. -/
def Redeclares (x : Located String) (r : Reading (Advance n α)) : Prop :=
  ∃ t, r = .error ⟨⟨.redeclared ⟨x.value⟩, x.location⟩, t⟩

theorem Redeclares.bind {r : Reading (Advance m α)} {f : Advance m α → Reading (Advance n β)}
    (h : Redeclares x r) : Redeclares x (r >>= f) := by
  obtain ⟨t, rfl⟩ := h
  exact ⟨t, rfl⟩

theorem Redeclares.of_agrees {r : Reading (Advance m α)} {q : Reading (Advance n α)}
    (h : Redeclares x r) (hq : Agrees r q) : Redeclares x q := by
  obtain ⟨t, rfl⟩ := h
  cases hq
  exact ⟨t, rfl⟩

theorem Yields.redeclares {r : Reading (Advance m α)} {f : Advance m α → Reading (Advance n β)}
    {a : α} {t : Cursor} (h : r.Yields a t) (hf : ∀ ht, Redeclares x (f ⟨a, t, ht⟩)) :
    Redeclares x (r >>= f) := by
  obtain ⟨ht, rfl⟩ := h
  exact hf ht

end Reading

namespace Cursor

variable {s : Cursor} {scope : Scope} {type : VarType} {x : Located String}

theorem declare_eq_error {name : Located String} {value : Option String}
    (h : name.value ∈ scope.names) :
    s.declare scope name type value =
      .error ⟨⟨.redeclared ⟨name.value⟩, name.location⟩, s⟩ := by
  rw [declare, Scope.run_declare, if_pos (Scope.declares_iff.2 h)]
  rfl

theorem declareAll_eq_error {names : List (Located String)}
    (h : repeatedIn? scope.names names = some x) :
    s.declareAll scope type names = .error ⟨⟨.redeclared ⟨x.value⟩, x.location⟩, s⟩ := by
  induction names generalizing scope with
  | nil => cases h
  | cons name names ih =>
    rw [repeatedIn?] at h
    rw [declareAll]
    split at h
    · next hmem =>
      cases h
      rw [declare_eq_error hmem]
      rfl
    · next hmem =>
      have hok : s.declare scope name type none =
          .ok (scope.add [⟨name, type, none, scope.id⟩]) := by
        rw [declare, Scope.run_declare, if_neg (mt Scope.declares_iff.1 hmem)]
        rfl
      rw [hok]
      refine ih ?_
      rwa [Scope.names_add]

end Cursor

namespace Grammar

variable {x : Located String}

theorem Decl.redeclares (d : Decl) {scope : Scope} (s : Cursor) {rest : Tokens}
    (h : s.ahead = d.tokens ++ rest) (hx : repeatedIn? scope.names d.identifiers = some x) :
    Redeclares x (Declaration.parse scope s) := by
  cases d with
  | text string name becomes value semicolon =>
    have hp : s.peek? = some (.keyword .string) := by simp [peek?, h, Decl.tokens]
    have hdeclare : ∀ s : Cursor, s.declare scope name .string (some value.value) =
        .error ⟨⟨.redeclared ⟨x.value⟩, x.location⟩, s⟩ := by
      rw [identifiers, repeatedIn?] at hx
      split at hx
      · next hmem =>
        cases hx
        exact fun s => declare_eq_error hmem
      · cases hx
    rw [Declaration.parse, if_pos hp, Declaration.parseText]
    refine Yields.redeclares (a := ⟨(), string⟩) (yields_keyword.2 ⟨_, h, rfl⟩) fun h₁ => ?_
    refine Yields.redeclares (yields_after.2 (yields_identifier.2 ⟨_, rfl, rfl⟩)) fun h₂ => ?_
    refine Yields.redeclares (a := ⟨(), becomes⟩)
      (yields_after.2 (yields_operator.2 ⟨_, rfl, rfl⟩)) fun h₃ => ?_
    refine Yields.redeclares (yields_after.2 (yields_stringLiteral.2 ⟨_, rfl, rfl⟩)) fun h₄ => ?_
    refine Yields.redeclares (a := ⟨(), semicolon⟩)
      (yields_after.2 (yields_operator.2 ⟨_, rfl, rfl⟩)) fun h₅ => ?_
    dsimp only
    rw [hdeclare]
    exact ⟨_, rfl⟩
  | numbers type names semicolon =>
    have hp : ¬ s.peek? = some (.keyword .string) := by
      cases ht : type.value <;> simp [peek?, h, Decl.tokens, ht, NumClass.keyword]
    rw [Decl.tokens, List.cons_append, List.append_assoc] at h
    have hw := numClass?_eq_some_iff.2 (rfl : Token.keyword type.value.keyword = _)
    obtain ⟨first, more⟩ := names
    have hdeclare : ∀ s : Cursor, s.declareAll scope (.number type.value)
        (Separated.toList ⟨first, more⟩) = .error ⟨⟨.redeclared ⟨x.value⟩, x.location⟩, s⟩ :=
      fun s => declareAll_eq_error hx
    have hstop : Avoids (· = .operator .comma) ([sign .semicolon semicolon] ++ rest) := by simp
    obtain ⟨s₂, hy₂, ha, -⟩ := leaves_names first more ⟨_, type.location, s.scopes⟩ rfl hstop
    rw [Declaration.parse, if_neg hp, Declaration.parseNumbers]
    refine Yields.redeclares (yields_take.2 ⟨_, _, h, hw, rfl⟩) fun h₁ => ?_
    refine Yields.redeclares (yields_after.2 hy₂) fun h₂ => ?_
    refine Yields.redeclares (a := ⟨(), semicolon⟩)
      (yields_after.2 (yields_operator.2 ⟨_, ha, rfl⟩)) fun h₃ => ?_
    dsimp only
    rw [hdeclare]
    exact ⟨_, rfl⟩

theorem Decl.redeclaresAll (ds : List Decl) {scope : Scope} (s : Cursor) {rest : Tokens}
    (h : s.ahead = ds.flatMap Decl.tokens ++ rest) (hn : scope.names.Nodup)
    (hx : repeatedIn? scope.names (ds.flatMap identifiers) = some x) :
    Redeclares x (Declaration.parseAll scope s) := by
  induction ds generalizing scope s with
  | nil => cases hx
  | cons d ds ih =>
    rw [List.flatMap_cons, List.append_assoc] at h
    have hp : s.peek?.any startsDeclaration = true := by
      obtain ⟨y, ts, hy, hstart⟩ := d.startsDeclaration_head
      simp [peek?, h, hy, hstart]
    rw [List.flatMap_cons, repeatedIn?_append, d.map_value_identifiers,
      Option.or_eq_some_iff] at hx
    rw [Declaration.parseAll, if_pos hp]
    refine Redeclares.of_agrees ?_ agrees_loosen
    obtain hx | ⟨hnone, hx⟩ := hx
    · exact (d.redeclares s h hx).bind
    · have hd : (scope.names ++ d.names).Nodup := by
        rw [← d.map_value_identifiers]
        exact (repeatedIn?_eq_none_iff hn).1 hnone
      obtain ⟨s₁, hy₁, ha, -⟩ := d.leaves s h hd
      rw [← d.names_add] at hd hx
      exact hy₁.redeclares fun h₁ => ((ih s₁ ha hd hx).of_agrees agrees_afterLoose).bind

theorem Param.redeclares (p : Param) {scope : Scope} (s : Cursor) {rest : Tokens}
    (h : s.ahead = p.tokens ++ rest) (hx : p.name.value ∈ scope.names) :
    Redeclares p.name (Parameter.parse scope s) := by
  have hw := numClass?_eq_some_iff.2 (rfl : Token.keyword p.type.value.keyword = _)
  refine Yields.redeclares (yields_take.2 ⟨_, _, h, hw, rfl⟩) fun h₁ => ?_
  refine Yields.redeclares (yields_after.2 (yields_identifier.2 ⟨_, rfl, rfl⟩)) fun h₂ => ?_
  dsimp only
  rw [declare_eq_error hx]
  exact ⟨_, rfl⟩

theorem Param.redeclaresAll (p : Param) (more : List (Location × Param)) {scope : Scope}
    (s : Cursor) {rest : Tokens} (h : s.ahead = Separated.tokens Param.tokens ⟨p, more⟩ ++ rest)
    (hn : scope.names.Nodup)
    (hx : repeatedIn? scope.names ((Separated.toList ⟨p, more⟩).map Param.name) = some x) :
    Redeclares x (Parameter.parseList scope s) := by
  induction more generalizing p scope s with
  | nil =>
    rw [Separated.toList, List.map_cons, repeatedIn?] at hx
    rw [Parameter.parseList.eq_def]
    split at hx
    · next hmem =>
      cases hx
      exact (p.redeclares s h hmem).bind
    · cases hx
  | cons y more ih =>
    obtain ⟨comma, next⟩ := y
    rw [Separated.toList, List.map_cons, repeatedIn?] at hx
    rw [Parameter.parseList.eq_def]
    split at hx
    · next hmem =>
      cases hx
      exact (p.redeclares s h hmem).bind
    · next hmem =>
      have hfresh : repeatedIn? scope.names [p.name] = none := by
        rw [repeatedIn?, if_neg hmem]
        rfl
      have hd : (scope.names ++ [p.name.value]).Nodup := (repeatedIn?_eq_none_iff hn).1 hfresh
      obtain ⟨s₁, hy₁, ha, -⟩ := p.leaves s h hd
      rw [← p.names_add] at hd hx
      have hskip : s₁.Skips (.operator .comma)
          ⟨Separated.tokens Param.tokens ⟨next, more⟩ ++ rest, s₁.last, s₁.scopes⟩ :=
        ⟨comma, ha, rfl, rfl⟩
      have hsome := skip?_eq_some_iff (h := hskip.size_lt).2 hskip
      have hmore := ih next ⟨_, s₁.last, s₁.scopes⟩ rfl hd hx
      refine hy₁.redeclares fun h₁ => ?_
      dsimp only
      rw [hsome]
      exact (hmore.of_agrees agrees_after).bind

theorem Params.redeclares (ps : Params) {scope : Scope} (s : Cursor) {rest : Tokens}
    (h : s.ahead = ps.tokens ++ rest) (hn : scope.names.Nodup)
    (hx : repeatedIn? scope.names (ps.toList.map Param.name) = .some x) :
    Redeclares x (Parameter.parseAll scope s) := by
  cases ps with
  | none => cases hx
  | some list =>
    have hp : (s.peek?.bind Token.numClass?).isSome = true := by
      have hw := numClass?_eq_some_iff.2
        (rfl : Token.keyword list.first.type.value.keyword = _)
      simp [peek?, h, Params.tokens, Separated.tokens, Param.tokens, hw]
    rw [Parameter.parseAll, if_pos hp]
    exact (Param.redeclaresAll list.first list.rest s h hn hx).of_agrees agrees_loosen

/-- The parameters of a block come first, then its declarations, then the scopes inside. -/
theorem Body.repeated?_declarations (b : Body) (parameters : List (Located String)) :
    repeated? (b.declarations parameters) =
      (repeatedIn? [] parameters).or
        ((repeatedIn? (parameters.map Located.value) (b.decls.flatMap Decl.identifiers)).or
          (repeated? (Stmt.declarationsAll b.stmts))) := by
  obtain ⟨decls, stmts⟩ := b
  rw [Body.declarations, repeated?_cons, repeatedIn?_append, Option.or_assoc, List.nil_append]

theorem nodup_of_repeated?_eq_none {scopes : List (List (Located String))}
    {names : List (List String)} (h : repeated? scopes = none)
    (hnames : scopes.map (List.map Located.value) = names) : ∀ ns ∈ names, ns.Nodup :=
  hnames ▸ repeated?_eq_none_iff.1 h

mutual

theorem Stmt.redeclares : ∀ (d : Stmt) {scope : Scope} (s : Cursor) {rest : Tokens},
    s.ahead = d.tokens ++ rest → repeated? d.declarations = some x →
    Redeclares x (Statement.parse scope s)
  | .assign .., _, _, _, _, hx => by
    rw [Stmt.declarations] at hx
    cases hx
  | .read .., _, _, _, _, hx => by
    rw [Stmt.declarations] at hx
    cases hx
  | .write .., _, _, _, _, hx => by
    rw [Stmt.declarations] at hx
    cases hx
  | .ifThen if_ opening condition closing body endIf, scope, s, rest, h, hx => by
    rw [Statement.parse_of_if (by simp [peek?, h, Stmt.tokens]), Statement.parseIf]
    rw [Stmt.tokens, List.cons_append, List.append_assoc, List.append_assoc] at h
    rw [Stmt.declarations] at hx
    obtain ⟨s₁, hy₁, ha₁, -⟩ := leaves_head s h
    have hbody := body.redeclares (scope.nested (s.scopes + 1)) s₁ ha₁
      (avoids_extendsBody rfl rfl) rfl rfl hx
    exact hy₁.redeclares fun h₁ => (hbody.of_agrees agrees_afterLoose).bind
  | .ifElse if_ opening condition closing body else_ alternative endIf, scope, s, rest, h, hx => by
    rw [Statement.parse_of_if (by simp [peek?, h, Stmt.tokens]), Statement.parseIf]
    rw [Stmt.tokens, List.cons_append, List.append_assoc, List.append_assoc, List.cons_append,
      List.append_assoc] at h
    rw [Stmt.declarations, repeated?_append, Option.or_eq_some_iff] at hx
    obtain ⟨s₁, hy₁, ha₁, hs₁⟩ := leaves_head s h
    refine hy₁.redeclares fun h₁ => ?_
    obtain hx | ⟨hnone, hx⟩ := hx
    · have hbody := body.redeclares (scope.nested (s.scopes + 1)) s₁ ha₁
        (avoids_extendsBody rfl rfl) rfl rfl hx
      exact (hbody.of_agrees agrees_afterLoose).bind
    · have hn := nodup_of_repeated?_eq_none hnone (body.map_declarations [])
      obtain ⟨s₂, hy₂, ha₂, -⟩ := body.leaves (scope.nested (s.scopes + 1)) s₁ ha₁
        (avoids_extendsBody rfl rfl) hn
      let s₃ : Cursor := ⟨alternative.tokens ++ ([word .endIf endIf] ++ rest), s₂.last, s₂.scopes⟩
      have hskip : s₂.Skips (.keyword .else_) s₃ := ⟨else_, ha₂, rfl, rfl⟩
      have hsome := skip?_eq_some_iff (h := hskip.size_lt).2 hskip
      have halternative := alternative.redeclares (scope.nested s₃.opened.scopes) s₃.opened rfl
        (avoids_extendsBody rfl rfl) rfl rfl hx
      refine Yields.redeclares (yields_afterLoose.2 hy₂) fun h₂ => ?_
      dsimp only
      rw [hsome]
      exact (halternative.of_agrees agrees_afterLoose).bind
  | .loop while_ opening condition closing body endWhile, scope, s, rest, h, hx => by
    rw [Statement.parse_of_while (by simp [peek?, h, Stmt.tokens]), Statement.parseWhile]
    rw [Stmt.tokens, List.cons_append, List.append_assoc, List.append_assoc] at h
    rw [Stmt.declarations] at hx
    obtain ⟨s₁, hy₁, ha₁, -⟩ := leaves_head s h
    have hbody := body.redeclares (scope.nested (s.scopes + 1)) s₁ ha₁
      (avoids_extendsBody rfl rfl) rfl rfl hx
    exact hy₁.redeclares fun h₁ => (hbody.of_agrees agrees_afterLoose).bind
  | .return_ .., _, _, _, _, hx => by
    rw [Stmt.declarations] at hx
    cases hx

theorem Body.redeclares : ∀ (b : Body) {parameters : List (Located String)} (scope : Scope)
    (s : Cursor) {rest : Tokens}, s.ahead = b.tokens ++ rest → Avoids ExtendsBody rest →
    scope.names = parameters.map Located.value → repeatedIn? [] parameters = none →
    repeated? (b.declarations parameters) = some x → Redeclares x (Block.parse scope s)
  | ⟨decls, stmts⟩, parameters, scope, s, rest, h, hr, hscope, hnone, hx => by
    rw [Body.tokens, List.append_assoc] at h
    rw [Body.repeated?_declarations, hnone, ← hscope, Option.none_or, Option.or_eq_some_iff] at hx
    have hn : scope.names.Nodup := hscope ▸ (repeatedIn?_eq_none_iff List.nodup_nil).1 hnone
    rw [Block.parse]
    obtain hx | ⟨hdecls, hx⟩ := hx
    · exact (Decl.redeclaresAll decls s h hn hx).bind
    · have hd : (scope.names ++ decls.flatMap Decl.names).Nodup := by
        rw [← Decl.map_value_flatMap_identifiers]
        exact (repeatedIn?_eq_none_iff hn).1 hdecls
      obtain ⟨s₁, hy₁, ha, -⟩ :=
        Decl.leavesAll decls s h hd (Stmt.avoids_startsDeclaration hr stmts)
      have hstmts : Redeclares x
          (Statement.parseAll (scope.add (Decl.declared scope.id decls)) s₁) :=
        Stmt.redeclaresAll stmts s₁ ha hx
      exact hy₁.redeclares fun h₁ => (hstmts.of_agrees agrees_afterLoose).bind

theorem Stmt.redeclaresAll : ∀ (ds : List Stmt) {scope : Scope} (s : Cursor) {rest : Tokens},
    s.ahead = Stmt.tokensAll ds ++ rest → repeated? (Stmt.declarationsAll ds) = some x →
    Redeclares x (Statement.parseAll scope s)
  | [], _, _, _, _, hx => by
    rw [Stmt.declarationsAll] at hx
    cases hx
  | d :: ds, scope, s, rest, h, hx => by
    rw [Stmt.tokensAll, List.append_assoc] at h
    rw [Stmt.declarationsAll, repeated?_append, Option.or_eq_some_iff] at hx
    have hp : s.peek?.any startsStatement = true := by
      obtain ⟨y, ts, hy, hstart⟩ := d.startsStatement_head
      simp [peek?, h, hy, hstart]
    rw [Statement.parseAll, if_pos hp]
    refine Redeclares.of_agrees ?_ agrees_loosen
    obtain hx | ⟨hnone, hx⟩ := hx
    · exact (d.redeclares s h hx).bind
    · have hn := nodup_of_repeated?_eq_none hnone d.map_declarations
      obtain ⟨s₁, hy₁, ha, -⟩ := d.leaves s h hn
      exact hy₁.redeclares fun h₁ =>
        ((Stmt.redeclaresAll ds s₁ ha hx).of_agrees agrees_afterLoose).bind

end

theorem Func.redeclares (f : Func) {outer : Scope} (s : Cursor) {rest : Tokens}
    (h : s.ahead = f.tokens ++ rest) (hx : repeated? f.declarations = some x) :
    Redeclares x (Function.parse outer s) := by
  simp only [tokens, List.cons_append, List.append_assoc] at h
  have hw := returnType?_eq_some_iff.2 (rfl : Token.keyword f.returns.value.keyword = _)
  have hnil : (outer.nested (s.scopes + 1)).names.Nodup := List.nodup_nil
  refine Yields.redeclares (a := ⟨(), f.function⟩) (yields_keyword.2 ⟨_, h, rfl⟩) fun h₁ => ?_
  refine Yields.redeclares (yields_after.2 (yields_take.2 ⟨_, _, rfl, hw, rfl⟩)) fun h₂ => ?_
  refine Yields.redeclares (yields_after.2 (yields_identifier.2 ⟨_, rfl, rfl⟩)) fun h₃ => ?_
  refine Yields.redeclares (a := ⟨(), f.opening⟩)
    (yields_after_opened.2 (yields_operator.2 ⟨_, rfl, rfl⟩)) fun h₄ => ?_
  cases hparams : repeatedIn? [] (f.parameters.toList.map Param.name) with
  | some y =>
    have hxy : some y = some x := by
      rw [← hx, declarations, Body.repeated?_declarations, hparams, Option.some_or]
    cases hxy
    exact ((f.parameters.redeclares _ rfl hnil hparams).of_agrees agrees_afterLoose).bind
  | none =>
    have hnodup : ((outer.nested (s.scopes + 1)).names ++
        f.parameters.toList.map fun p => p.name.value).Nodup := by
      have hnames := (repeatedIn?_eq_none_iff hnil).1 hparams
      rwa [List.map_map] at hnames
    have hscope : (f.scope outer (s.scopes + 1)).names =
        (f.parameters.toList.map Param.name).map Located.value := by
      rw [List.map_map]
      exact Param.names_add_all (outer.nested (s.scopes + 1)) _
    obtain ⟨⟨_, last, _⟩, hy₅, rfl, rfl⟩ :=
      f.parameters.leaves ⟨_, f.opening, s.scopes + 1⟩ rfl hnodup
    refine Yields.redeclares (yields_afterLoose.2 hy₅) fun h₅ => ?_
    refine Yields.redeclares (a := ⟨(), f.closing⟩)
      (yields_after.2 (yields_operator.2 ⟨_, rfl, rfl⟩)) fun h₆ => ?_
    refine Yields.redeclares (a := ⟨(), f.begin_⟩)
      (yields_after.2 (yields_keyword.2 ⟨_, rfl, rfl⟩)) fun h₇ => ?_
    have hbody := f.body.redeclares (f.scope outer (s.scopes + 1)) ⟨_, f.begin_, s.scopes + 1⟩ rfl
      (avoids_extendsBody rfl rfl : Avoids ExtendsBody ([word .end_ f.end_] ++ rest)) hscope hparams
      hx
    exact (hbody.of_agrees agrees_afterLoose).bind

theorem Func.redeclaresAll (fs : List Func) {outer : Scope} (s : Cursor) {rest : Tokens}
    (h : s.ahead = fs.flatMap tokens ++ rest)
    (hx : repeated? (fs.flatMap declarations) = some x) :
    Redeclares x (Function.parseAll outer s) := by
  induction fs generalizing s with
  | nil => cases hx
  | cons f fs ih =>
    have hp : s.peek? = some (.keyword .function) := by simp [peek?, h, tokens]
    rw [List.flatMap_cons, List.append_assoc] at h
    rw [List.flatMap_cons, repeated?_append, Option.or_eq_some_iff] at hx
    rw [Function.parseAll, if_pos hp]
    refine Redeclares.of_agrees ?_ agrees_loosen
    obtain hx | ⟨hnone, hx⟩ := hx
    · exact (f.redeclares s h hx).bind
    · have hn := nodup_of_repeated?_eq_none hnone f.map_declarations
      obtain ⟨s₁, hy₁, ha, -⟩ := f.leaves s h hn
      exact hy₁.redeclares fun h₁ => ((ih s₁ ha hx).of_agrees agrees_afterLoose).bind

theorem Prog.redeclares {d : Prog} (hx : d.repeated? = some x) :
    Redeclares x (Program.parseWhole ⟨d.tokens, {}, 0⟩) := by
  rw [repeated?, declarations, repeated?_cons, Option.or_eq_some_iff] at hx
  have hnil : Scope.global.names.Nodup := List.nodup_nil
  let s₃ : Cursor := ⟨d.globals.flatMap Decl.tokens ++
    (d.functions.flatMap Func.tokens ++ [word .end_ d.end_]), d.begin_, 0⟩
  refine Yields.redeclares (a := ⟨(), d.program⟩) (yields_keyword.2 ⟨_, rfl, rfl⟩) fun h₁ => ?_
  refine Yields.redeclares (yields_after.2 (yields_identifier.2 ⟨_, rfl, rfl⟩)) fun h₂ => ?_
  refine Yields.redeclares (a := ⟨(), d.begin_⟩) (t := s₃)
    (yields_after.2 (yields_keyword.2 ⟨_, rfl, by rw [List.append_assoc]⟩)) fun h₃ => ?_
  obtain hx | ⟨hnone, hx⟩ := hx
  · exact ((Decl.redeclaresAll d.globals s₃ rfl hnil hx).of_agrees agrees_afterLoose).bind
  · have hd : (Scope.global.names ++ d.globals.flatMap Decl.names).Nodup := by
      rw [← Decl.map_value_flatMap_identifiers]
      exact (repeatedIn?_eq_none_iff hnil).1 hnone
    obtain ⟨s₄, hy₄, ha₄, -⟩ := Decl.leavesAll d.globals s₃ rfl hd
      (Func.avoids_startsDeclaration d.end_ d.functions)
    refine Yields.redeclares (yields_afterLoose.2 hy₄) fun h₄ => ?_
    exact ((Func.redeclaresAll d.functions s₄ ha₄ hx).of_agrees agrees_afterLoose).bind

end Grammar

/-- The tokens of a derivation are a program, or the first name that is declared twice is
reported. -/
theorem Program.parse_tokens (d : Prog) :
    parse d.tokens =
      d.repeated?.elim (.ok d.tree) fun x => .error ⟨.redeclared ⟨x.value⟩, x.location⟩ := by
  cases hx : d.repeated? with
  | none => exact parse_eq_ok_iff.2 ⟨d, rfl, Prog.repeated?_eq_none_iff.1 hx, rfl⟩
  | some x =>
    obtain ⟨t, ht⟩ := Prog.redeclares hx
    rw [parse, ht]
    rfl

end LittleTiny
