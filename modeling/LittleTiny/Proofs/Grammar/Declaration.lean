import LittleTiny.Proofs.Grammar.Expression
import Mathlib.Data.List.Nodup

/-!
# Reading declarations

Names, parameters and declarations are read exactly as the grammar derives them, and a name that is
read enters the scope. That it does so without an error means that the names of the scope are then
still distinct, which is what the rules say here beside the derivation.
-/

namespace LittleTiny

open Reading Cursor Grammar Token

/-! ## Entering names -/

namespace Scope

/-- The names of the variables that the scope itself declares. -/
def names (s : Scope) : List String := s.declared.map fun v => v.name.value

theorem names_add (s : Scope) (vs : List Variable) :
    (s.add vs).names = s.names ++ vs.map fun v => v.name.value := by
  rw [names, declared_add, List.map_append, names]

theorem declares_iff {s : Scope} {name : String} : s.declares name = true ↔ name ∈ s.names := by
  simp [declares, names]

end Scope

namespace Cursor

variable {s : Cursor} {scope scope' : Scope} {type : VarType}

/-- Entering a name succeeds exactly if the names of the scope stay distinct. -/
theorem declare_eq_ok_iff {name : Located String} {value : Option String}
    (hn : scope.names.Nodup) :
    s.declare scope name type value = .ok scope' ↔
      (scope.names ++ [name.value]).Nodup ∧
        scope.add [⟨name, type, value, scope.id⟩] = scope' := by
  have hnodup : (scope.names ++ [name.value]).Nodup ↔ name.value ∉ scope.names := by
    simp only [List.nodup_append, hn, List.nodup_singleton, true_and, List.mem_singleton, forall_eq]
    exact ⟨fun h hm => h _ hm rfl, fun h a ha e => h (e ▸ ha)⟩
  rw [hnodup, declare, Scope.run_declare]
  by_cases h : name.value ∈ scope.names
  · simp [Scope.declares_iff.2 h, h]
  · simp [mt Scope.declares_iff.1 h, h, Scope.add]

theorem declareAll_eq_ok_iff {names : List (Located String)} (hn : scope.names.Nodup) :
    s.declareAll scope type names = .ok scope' ↔
      (scope.names ++ names.map Located.value).Nodup ∧
        scope.add (names.map fun name => ⟨name, type, none, scope.id⟩) = scope' := by
  induction names generalizing scope with
  | nil => simp [declareAll, Scope.add_nil, hn]
  | cons name names ih =>
    -- The first name is entered into `scope`, the others into the scope that this makes.
    let first : Variable := ⟨name, type, none, scope.id⟩
    have hnames : (scope.add [first]).names = scope.names ++ [name.value] := Scope.names_add _ _
    have happ : scope.names ++ (name :: names).map Located.value =
        (scope.add [first]).names ++ names.map Located.value := by
      rw [hnames, List.append_assoc]
      rfl
    have hadd : scope.add ((name :: names).map fun name => ⟨name, type, none, scope.id⟩) =
        (scope.add [first]).add (names.map fun name => ⟨name, type, none, scope.id⟩) := by
      rw [Scope.add_add]
      rfl
    rw [declareAll, bind_eq_ok_iff, happ, hadd]
    constructor
    · rintro ⟨scope₁, h₁, h₂⟩
      obtain ⟨hn₁, rfl⟩ := (declare_eq_ok_iff hn).1 h₁
      exact (ih (hnames ▸ hn₁)).1 h₂
    · intro h
      have hn₁ : (scope.add [first]).names.Nodup := h.1.of_append_left
      exact ⟨scope.add [first], (declare_eq_ok_iff hn).2 ⟨hnames ▸ hn₁, rfl⟩, (ih hn₁).2 h⟩

/-! ## Lists of names -/

/-- The tokens of a list of names. -/
abbrev nameTokens (names : Separated (Located String)) : Tokens :=
  names.tokens fun name => [Grammar.identifier name]

theorem yields_names {ns : List (Located String)} {t : Cursor} :
    s.names.Yields ns t ↔
      ∃ name s₁, s.identifier.Yields name s₁ ∧
        ((Avoids (· = .operator .comma) s₁.ahead ∧ [name] = ns ∧ s₁ = t) ∨
          ∃ s₂, s₁.Skips (.operator .comma) s₂ ∧
            ∃ more s₃, s₂.names.Yields more s₃ ∧ name :: more = ns ∧ s₃ = t) := by
  rw [Cursor.names, yields_bind]
  refine exists_congr fun name => exists_congr fun s₁ => ?_
  refine Iff.trans (exists_congr fun h₁ => yields_match_skip?) ?_
  simp only [yields_bind, yields_after, yields_pure, exists_prop]

theorem sound_names (s : Cursor) : Sound nameTokens Separated.toList s s.names := by
  induction s using Cursor.names.induct with
  | case1 s ih =>
    intro ns t hn
    obtain ⟨name, s₁, hy₁, ⟨-, rfl, rfl⟩ | ⟨s₂, hc, more, s₃, hy₃, rfl, rfl⟩⟩ := yields_names.1 hn
    · exact ⟨⟨name, []⟩, reads_identifier hy₁, rfl⟩
    · obtain ⟨d, hd, rfl⟩ := ih s₁ hy₁.size_lt s₂ hc.size_lt _ _ hy₃
      obtain ⟨comma, hc⟩ := hc.reads
      exact ⟨⟨name, (comma, d.first) :: d.rest⟩, (reads_identifier hy₁).trans (hc.trans hd), rfl⟩

/-- A list of names is read to its end. -/
theorem leaves_names (name : Located String) (more : List (Location × Located String)) (s : Cursor)
    {rest : Tokens} (h : s.ahead = nameTokens ⟨name, more⟩ ++ rest)
    (hr : Avoids (· = .operator .comma) rest) :
    s.names.Leaves (Separated.toList ⟨name, more⟩) rest s.scopes := by
  induction more generalizing name s with
  | nil =>
    exact ⟨_, yields_names.2 ⟨name, _, yields_identifier.2 ⟨rest, h, rfl⟩, .inl ⟨hr, rfl, rfl⟩⟩,
      rfl, rfl⟩
  | cons x more ih =>
    obtain ⟨comma, next⟩ := x
    have hc : Skips ⟨_, name.location, s.scopes⟩ (.operator .comma)
        ⟨nameTokens ⟨next, more⟩ ++ rest, name.location, s.scopes⟩ := ⟨comma, rfl, rfl, rfl⟩
    obtain ⟨t, ht, hb, hs⟩ := ih next ⟨_, name.location, s.scopes⟩ rfl
    exact ⟨t, yields_names.2 ⟨name, _, yields_identifier.2 ⟨_, h, rfl⟩,
      .inr ⟨_, hc, _, t, ht, rfl, rfl⟩⟩, hb, hs⟩

end Cursor

namespace Token

theorem numClass?_eq_some_iff {t : Token} {of : NumClass} :
    t.numClass? = some of ↔ t = .keyword of.keyword := by
  constructor
  · intro h
    unfold numClass? at h
    split at h <;> cases h <;> rfl
  · rintro rfl
    cases of <;> rfl

theorem returnType?_eq_some_iff {t : Token} {of : ReturnType} :
    t.returnType? = some of ↔ t = .keyword of.keyword := by
  constructor
  · intro h
    unfold returnType? at h
    split at h <;> cases h <;> rfl
  · rintro rfl
    rcases of with (_ | _) | _ <;> rfl

end Token

/-! ## Declarations -/

namespace Grammar.Decl

/-- The variables of a declaration have the names that it declares. -/
theorem map_name_tree_declared (d : Decl) (id : Nat) :
    (d.tree.declared id).map (fun v => v.name.value) = d.names := by
  cases d with
  | text => rfl
  | numbers => simp [tree, Declaration.declared, names, Function.comp_def]

theorem names_add (scope : Scope) (d : Decl) :
    (scope.add (d.tree.declared scope.id)).names = scope.names ++ d.names := by
  rw [Scope.names_add, d.map_name_tree_declared]

end Grammar.Decl

namespace Declaration

variable {s t : Cursor} {scope scope' : Scope} {decl : Declaration}

theorem yields_parseText {x : Declaration × Scope} :
    (parseText scope s).Yields x t ↔
      ∃ u₁ s₁, (s.keyword .string).Yields u₁ s₁ ∧
        ∃ name s₂, s₁.identifier.Yields name s₂ ∧
          ∃ u₂ s₃, (s₂.operator .assign).Yields u₂ s₃ ∧
            ∃ value s₄, s₃.stringLiteral.Yields value s₄ ∧
              ∃ u₃ s₅, (s₄.operator .semicolon).Yields u₃ s₅ ∧
                ∃ scope', s₅.declare scope name .string (some value.value) = .ok scope' ∧
                  (.text name value, scope') = x ∧ s₅ = t := by
  rw [parseText]
  simp only [yields_bind, yields_bind_scope, yields_after, yields_pure, exists_prop]

theorem yields_parseNumbers {x : Declaration × Scope} :
    (parseNumbers scope s).Yields x t ↔
      ∃ type s₁, s.varType.Yields type s₁ ∧
        ∃ names s₂, s₁.names.Yields names s₂ ∧
          ∃ u s₃, (s₂.operator .semicolon).Yields u s₃ ∧
            ∃ scope', s₃.declareAll scope (.number type.value) names = .ok scope' ∧
              (.numbers type names, scope') = x ∧ s₃ = t := by
  rw [parseNumbers]
  simp only [yields_bind, yields_bind_scope, yields_after, yields_pure, exists_prop]

theorem yields_parse {x : Declaration × Scope} :
    (parse scope s).Yields x t ↔
      if s.peek? = some (.keyword .string) then (parseText scope s).Yields x t
      else (parseNumbers scope s).Yields x t := by
  rw [parse]
  split <;> rfl

theorem yields_parseAll {x : List Declaration × Scope} :
    (parseAll scope s).Yields x t ↔
      if s.peek?.any startsDeclaration then
        ∃ d s₁, (parse scope s).Yields d s₁ ∧
          ∃ ds s₂, (parseAll d.2 s₁).Yields ds s₂ ∧ (d.1 :: ds.1, ds.2) = x ∧ s₂ = t
      else ([], scope) = x ∧ s = t := by
  rw [parseAll]
  split
  · simp only [yields_loosen, yields_bind, yields_afterLoose, yields_pure, exists_prop]
  · rw [yields_stay]

/-- A declaration that is read has a derivation, and its names are new in the scope. -/
theorem exists_decl_of_yields (hn : scope.names.Nodup)
    (h : (parse scope s).Yields (decl, scope') t) :
    ∃ d : Decl, s.Reads d.tokens 0 t ∧ d.tree = decl ∧
      scope.add (d.tree.declared scope.id) = scope' ∧ (scope.names ++ d.names).Nodup := by
  rw [yields_parse] at h
  split at h
  · obtain ⟨u₁, s₁, hy₁, name, s₂, hy₂, u₂, s₃, hy₃, value, s₄, hy₄, u₃, s₅, hy₅, scope₁, hd, he,
      rfl⟩ := yields_parseText.1 h
    cases he
    obtain ⟨hnodup, hadd⟩ := (declare_eq_ok_iff hn).1 hd
    exact ⟨.text u₁.location name u₂.location value u₃.location, (reads_keyword hy₁).trans
      ((reads_identifier hy₂).trans ((reads_operator hy₃).trans ((reads_stringLiteral hy₄).trans
        (reads_operator hy₅)))), rfl, hadd, hnodup⟩
  · obtain ⟨type, s₁, hy₁, names, s₂, hy₂, u, s₃, hy₃, scope₁, hd, he, rfl⟩ :=
      yields_parseNumbers.1 h
    cases he
    obtain ⟨token, ht, hw⟩ := reads_take hy₁
    obtain rfl := numClass?_eq_some_iff.1 hw
    obtain ⟨d, hr, rfl⟩ := sound_names s₁ _ _ hy₂
    obtain ⟨hnodup, hadd⟩ := (declareAll_eq_ok_iff hn).1 hd
    exact ⟨.numbers type d u.location, ht.trans (hr.trans (reads_operator hy₃)), rfl, hadd, hnodup⟩

end Declaration

namespace Grammar.Decl

variable {scope : Scope}

theorem startsDeclaration_head (d : Decl) :
    ∃ x ts, d.tokens = x :: ts ∧ x.value.startsDeclaration = true := by
  cases d with
  | text => exact ⟨_, _, rfl, rfl⟩
  | numbers type => exact ⟨_, _, rfl, by cases type.value <;> rfl⟩

theorem leaves (d : Decl) (s : Cursor) {rest : Tokens} (h : s.ahead = d.tokens ++ rest)
    (hd : (scope.names ++ d.names).Nodup) :
    (Declaration.parse scope s).Leaves (d.tree, scope.add (d.tree.declared scope.id)) rest
      s.scopes := by
  have hn : scope.names.Nodup := hd.of_append_left
  cases d with
  | text string name becomes value semicolon =>
    have hp : s.peek? = some (.keyword .string) := by simp [peek?, h, Decl.tokens]
    refine ⟨⟨rest, semicolon, s.scopes⟩, ?_, rfl, rfl⟩
    rw [Declaration.yields_parse, if_pos hp, Declaration.yields_parseText]
    exact ⟨⟨(), string⟩, _, yields_keyword.2 ⟨_, h, rfl⟩, name, _,
      yields_identifier.2 ⟨_, rfl, rfl⟩, ⟨(), becomes⟩, _, yields_operator.2 ⟨_, rfl, rfl⟩, value,
      _,
      yields_stringLiteral.2 ⟨_, rfl, rfl⟩, ⟨(), semicolon⟩, _, yields_operator.2 ⟨_, rfl, rfl⟩, _,
      (declare_eq_ok_iff hn).2 ⟨hd, rfl⟩, rfl, rfl⟩
  | numbers type names semicolon =>
    have hp : ¬ s.peek? = some (.keyword .string) := by
      cases ht : type.value <;> simp [peek?, h, Decl.tokens, ht, NumClass.keyword]
    rw [Decl.tokens, List.cons_append, List.append_assoc] at h
    have hw := numClass?_eq_some_iff.2 (rfl : Token.keyword type.value.keyword = _)
    obtain ⟨first, more⟩ := names
    have hstop : Avoids (· = .operator .comma) ([sign .semicolon semicolon] ++ rest) := by simp
    obtain ⟨s₂, hy₂, ha, hs⟩ := leaves_names first more ⟨_, type.location, s.scopes⟩ rfl hstop
    refine ⟨⟨rest, semicolon, s₂.scopes⟩, ?_, rfl, hs⟩
    rw [Declaration.yields_parse, if_neg hp, Declaration.yields_parseNumbers]
    exact ⟨type, _, yields_take.2 ⟨_, _, h, hw, rfl⟩, _, s₂, hy₂, ⟨(), semicolon⟩, _,
      yields_operator.2 ⟨_, ha, rfl⟩, _, (declareAll_eq_ok_iff hn).2 ⟨hd, rfl⟩, rfl, rfl⟩

theorem map_name_declared (id : Nat) (ds : List Decl) :
    (declared id ds).map (fun v => v.name.value) = ds.flatMap names := by
  rw [declared, List.map_flatMap]
  exact congrArg (List.flatMap · ds) (funext fun d => d.map_name_tree_declared id)

theorem add_declared_cons (scope : Scope) (d : Decl) (ds : List Decl) :
    scope.add (declared scope.id (d :: ds)) =
      (scope.add (d.tree.declared scope.id)).add (declared scope.id ds) := by
  rw [Scope.add_add]
  rfl

theorem leavesAll (ds : List Decl) (s : Cursor) {rest : Tokens}
    (h : s.ahead = ds.flatMap Decl.tokens ++ rest)
    (hd : (scope.names ++ ds.flatMap Decl.names).Nodup)
    (hr : Avoids (fun t => t.startsDeclaration = true) rest) :
    (Declaration.parseAll scope s).Leaves
      (ds.map Decl.tree, scope.add (declared scope.id ds)) rest s.scopes := by
  induction ds generalizing scope s with
  | nil =>
    have hp : ¬ s.peek?.any startsDeclaration = true := by
      rw [any_peek?_iff, h]
      exact not_not.2 hr
    refine ⟨s, ?_, h, rfl⟩
    rw [Declaration.yields_parseAll, if_neg hp]
    exact ⟨by rw [declared, List.flatMap_nil, Scope.add_nil]; rfl, rfl⟩
  | cons d ds ih =>
    rw [List.flatMap_cons, List.append_assoc] at h
    rw [List.flatMap_cons, ← List.append_assoc] at hd
    have hp : s.peek?.any startsDeclaration = true := by
      obtain ⟨x, ts, hx, hstart⟩ := d.startsDeclaration_head
      simp [peek?, h, hx, hstart]
    obtain ⟨s₁, hy₁, ha, hs⟩ := d.leaves s h hd.of_append_left
    rw [← d.names_add] at hd
    obtain ⟨t, hy₂, hb, ht⟩ := ih s₁ ha hd
    rw [Scope.id_add] at hy₂
    refine ⟨t, ?_, hb, ht.trans hs⟩
    rw [Declaration.yields_parseAll, if_pos hp, add_declared_cons]
    exact ⟨_, s₁, hy₁, _, t, hy₂, rfl, rfl⟩

end Grammar.Decl

/-- The declarations that are read have derivations, and their names are new in the scope. -/
theorem Declaration.exists_decls_of_yields {scope : Scope} {s : Cursor} :
    ∀ {x : List Declaration × Scope} {t : Cursor}, scope.names.Nodup →
      (Declaration.parseAll scope s).Yields x t →
      ∃ ds : List Decl, s.Reads (ds.flatMap Decl.tokens) 0 t ∧ ds.map Decl.tree = x.1 ∧
        scope.add (Decl.declared scope.id ds) = x.2 ∧
        (scope.names ++ ds.flatMap Decl.names).Nodup := by
  induction scope, s using Declaration.parseAll.induct with
  | case1 scope s hp ih =>
    intro x t hn h
    rw [yields_parseAll, if_pos hp] at h
    obtain ⟨⟨decl, scope₁⟩, s₁, hy₁, ⟨decls, scope₂⟩, s₂, hy₂, rfl, rfl⟩ := h
    obtain ⟨d, hd, rfl, rfl, hn₁⟩ := exists_decl_of_yields hn hy₁
    rw [← d.names_add] at hn₁
    obtain ⟨ds, hds, rfl, rfl, hn₂⟩ := ih _ s₁ hy₁.size_lt hn₁ hy₂
    rw [d.names_add, List.append_assoc] at hn₂
    refine ⟨d :: ds, hd.trans hds, rfl, ?_, hn₂⟩
    rw [Decl.add_declared_cons, Scope.id_add]
  | case2 scope s hp =>
    intro x t hn h
    rw [yields_parseAll, if_neg hp] at h
    obtain ⟨rfl, rfl⟩ := h
    exact ⟨[], .refl s, rfl, Scope.add_nil scope, by simpa using hn⟩

/-! ## Parameters -/

namespace Parameter

variable {s t : Cursor} {scope : Scope}

theorem yields_parse {x : Parameter × Scope} :
    (parse scope s).Yields x t ↔
      ∃ type s₁, s.varType.Yields type s₁ ∧
        ∃ name s₂, s₁.identifier.Yields name s₂ ∧
          ∃ scope', s₂.declare scope name (.number type.value) none = .ok scope' ∧
            (⟨type, name⟩, scope') = x ∧ s₂ = t := by
  rw [parse]
  simp only [yields_bind, yields_bind_scope, yields_after, yields_pure, exists_prop]

theorem yields_parseList {x : List Parameter × Scope} :
    (parseList scope s).Yields x t ↔
      ∃ p s₁, (parse scope s).Yields p s₁ ∧
        ((Avoids (· = .operator .comma) s₁.ahead ∧ ([p.1], p.2) = x ∧ s₁ = t) ∨
          ∃ s₂, s₁.Skips (.operator .comma) s₂ ∧
            ∃ ps s₃, (parseList p.2 s₂).Yields ps s₃ ∧ (p.1 :: ps.1, ps.2) = x ∧ s₃ = t) := by
  rw [parseList, yields_bind]
  refine exists_congr fun p => exists_congr fun s₁ => ?_
  refine Iff.trans (exists_congr fun h₁ => yields_match_skip?) ?_
  simp only [yields_bind, yields_after, yields_pure, exists_prop]

theorem yields_parseAll {x : List Parameter × Scope} :
    (parseAll scope s).Yields x t ↔
      if (s.peek?.bind numClass?).isSome then (parseList scope s).Yields x t
      else ([], scope) = x ∧ s = t := by
  rw [parseAll]
  split
  · rw [yields_loosen]
  · rw [yields_stay]

/-- A parameter that is read has a derivation, and its name is new in the scope. -/
theorem exists_param_of_yields {x : Parameter × Scope} (hn : scope.names.Nodup)
    (h : (parse scope s).Yields x t) :
    ∃ p : Param, s.Reads p.tokens 0 t ∧ p.tree = x.1 ∧
      scope.add (Param.declared scope.id [p]) = x.2 ∧ (scope.names ++ [p.name.value]).Nodup := by
  obtain ⟨type, s₁, hy₁, name, s₂, hy₂, scope', hd, rfl, rfl⟩ := yields_parse.1 h
  obtain ⟨token, ht, hw⟩ := reads_take hy₁
  obtain rfl := numClass?_eq_some_iff.1 hw
  obtain ⟨hnodup, hadd⟩ := (declare_eq_ok_iff hn).1 hd
  exact ⟨⟨type, name⟩, ht.trans (reads_identifier hy₂), rfl, hadd, hnodup⟩

end Parameter

namespace Grammar.Param

theorem names_add (scope : Scope) (p : Param) :
    (scope.add (declared scope.id [p])).names = scope.names ++ [p.name.value] :=
  Scope.names_add _ _

theorem names_add_all (scope : Scope) (ps : List Param) :
    (scope.add (declared scope.id ps)).names = scope.names ++ ps.map fun p => p.name.value := by
  rw [Scope.names_add, declared, List.map_map]
  rfl

theorem add_declared_cons (scope : Scope) (p : Param) (ps : List Param) :
    scope.add (declared scope.id (p :: ps)) =
      (scope.add (declared scope.id [p])).add (declared scope.id ps) := by
  rw [Scope.add_add]
  rfl

end Grammar.Param

namespace Parameter

theorem exists_params_of_yields {scope : Scope} {s : Cursor} :
    ∀ {x : List Parameter × Scope} {t : Cursor}, scope.names.Nodup →
      (parseList scope s).Yields x t →
      ∃ ps : Separated Param, s.Reads (ps.tokens Param.tokens) 0 t ∧
        ps.toList.map Param.tree = x.1 ∧ scope.add (Param.declared scope.id ps.toList) = x.2 ∧
        (scope.names ++ ps.toList.map fun p => p.name.value).Nodup := by
  induction scope, s using parseList.induct with
  | case1 scope s ih =>
    intro x t hn h
    obtain ⟨p, s₁, hy₁, ⟨-, rfl, rfl⟩ | ⟨s₂, hc, ps, s₃, hy₃, rfl, rfl⟩⟩ := yields_parseList.1 h
    · obtain ⟨d, hd, hp, hadd, hn₁⟩ := exists_param_of_yields hn hy₁
      exact ⟨⟨d, []⟩, hd.trans (.refl _), by rw [← hp]; rfl, hadd, hn₁⟩
    · obtain ⟨d, hd, hp, hadd, hn₁⟩ := exists_param_of_yields hn hy₁
      rw [← Param.names_add, hadd] at hn₁
      obtain ⟨ds, hds, hps, hadd₂, hn₂⟩ := ih _ s₁ hy₁.size_lt s₂ hc.size_lt hn₁ hy₃
      obtain ⟨comma, hc⟩ := hc.reads
      refine ⟨⟨d, (comma, ds.first) :: ds.rest⟩, hd.trans (hc.trans hds), ?_, ?_, ?_⟩
      · rw [← hp, ← hps]
        rfl
      · rw [← hadd₂, ← hadd]
        exact Param.add_declared_cons scope d ds.toList
      · rw [← hadd, Param.names_add, List.append_assoc] at hn₂
        exact hn₂

theorem exists_paramList_of_yields {scope : Scope} {s t : Cursor} {x : List Parameter × Scope}
    (hn : scope.names.Nodup) (h : (parseAll scope s).Yields x t) :
    ∃ ps : Params, s.Reads ps.tokens 0 t ∧ ps.toList.map Param.tree = x.1 ∧
      scope.add (Param.declared scope.id ps.toList) = x.2 ∧
      (scope.names ++ ps.toList.map fun p => p.name.value).Nodup := by
  rw [yields_parseAll] at h
  split at h
  · obtain ⟨ps, hps⟩ := exists_params_of_yields hn h
    exact ⟨.some ps, hps⟩
  · obtain ⟨rfl, rfl⟩ := h
    exact ⟨.none, .refl s, rfl, Scope.add_nil scope, by simpa [Params.toList] using hn⟩

end Parameter

namespace Grammar

theorem Param.leaves {scope : Scope} (p : Param) (s : Cursor) {rest : Tokens}
    (h : s.ahead = p.tokens ++ rest) (hd : (scope.names ++ [p.name.value]).Nodup) :
    (Parameter.parse scope s).Leaves (p.tree, scope.add (Param.declared scope.id [p])) rest
      s.scopes := by
  have hn : scope.names.Nodup := hd.of_append_left
  have hw := numClass?_eq_some_iff.2 (rfl : Token.keyword p.type.value.keyword = _)
  exact ⟨_, Parameter.yields_parse.2 ⟨p.type, _, yields_take.2 ⟨_, _, h, hw, rfl⟩, p.name, _,
    yields_identifier.2 ⟨_, rfl, rfl⟩, _, (declare_eq_ok_iff hn).2 ⟨hd, rfl⟩, rfl, rfl⟩, rfl, rfl⟩

theorem Param.leavesAll {scope : Scope} (p : Param) (more : List (Location × Param)) (s : Cursor)
    {rest : Tokens} (h : s.ahead = Separated.tokens Param.tokens ⟨p, more⟩ ++ rest)
    (hd : (scope.names ++ (Separated.toList ⟨p, more⟩).map fun p => p.name.value).Nodup)
    (hr : Avoids (· = .operator .comma) rest) :
    (Parameter.parseList scope s).Leaves ((Separated.toList ⟨p, more⟩).map Param.tree,
      scope.add (Param.declared scope.id (Separated.toList ⟨p, more⟩))) rest s.scopes := by
  induction more generalizing p s scope with
  | nil =>
    obtain ⟨t, hy, ha, hs⟩ := p.leaves s h hd
    subst ha
    exact ⟨t, Parameter.yields_parseList.2 ⟨_, t, hy, .inl ⟨hr, rfl, rfl⟩⟩, rfl, hs⟩
  | cons x more ih =>
    obtain ⟨comma, next⟩ := x
    rw [Separated.toList, List.map_cons, ← List.singleton_append, ← List.append_assoc] at hd
    obtain ⟨s₁, hy₁, ha, hs⟩ := p.leaves s h hd.of_append_left
    rw [← p.names_add] at hd
    have hc : s₁.Skips (.operator .comma)
        ⟨Separated.tokens Param.tokens ⟨next, more⟩ ++ rest, s₁.last, s₁.scopes⟩ :=
      ⟨comma, ha, rfl, rfl⟩
    obtain ⟨t, hy₂, hb, ht⟩ := ih next ⟨_, s₁.last, s₁.scopes⟩ rfl hd
    refine ⟨t, ?_, hb, ht.trans hs⟩
    rw [Parameter.yields_parseList, Separated.toList, List.map_cons, Param.add_declared_cons]
    exact ⟨_, s₁, hy₁, .inr ⟨_, hc, _, t, hy₂, rfl, rfl⟩⟩

theorem Params.leaves {scope : Scope} (ps : Params) (s : Cursor) {closing : Location}
    {rest : Tokens} (h : s.ahead = ps.tokens ++ sign .closeParen closing :: rest)
    (hd : (scope.names ++ ps.toList.map fun p => p.name.value).Nodup) :
    (Parameter.parseAll scope s).Leaves (ps.toList.map Param.tree,
      scope.add (Param.declared scope.id ps.toList))
      (sign .closeParen closing :: rest) s.scopes := by
  cases ps with
  | none =>
    have hp : ¬ (s.peek?.bind Token.numClass?).isSome = true := by
      simp [peek?, h, Params.tokens, numClass?]
    refine ⟨s, ?_, h, rfl⟩
    rw [Parameter.yields_parseAll, if_neg hp]
    exact ⟨congrArg (Prod.mk []) (Scope.add_nil scope).symm, rfl⟩
  | some list =>
    have hp : (s.peek?.bind Token.numClass?).isSome = true := by
      have hw := numClass?_eq_some_iff.2
        (rfl : Token.keyword list.first.type.value.keyword = _)
      simp [peek?, h, Params.tokens, Separated.tokens, Param.tokens, hw]
    obtain ⟨t, hy, ha, hs⟩ := Param.leavesAll list.first list.rest s h hd (by simp)
    refine ⟨t, ?_, ha, hs⟩
    rw [Parameter.yields_parseAll, if_pos hp]
    exact hy

end Grammar

end LittleTiny
