import LittleTiny.Proofs.Grammar.Statement
import LittleTiny.Tree.Program

/-!
# Reading programs

The rules of functions and programs read exactly the derivations of `Grammar.Func` and
`Grammar.Prog` in which no scope declares a name twice, so that a list of tokens has a tree exactly
when it has such a derivation (`Program.parse_eq_ok_iff`).
-/

namespace LittleTiny

open Reading Cursor Grammar Token

namespace Function

variable {outer : Scope} {s t : Cursor}

theorem yields_parse {f : Function} :
    (parse outer s).Yields f t ↔
      ∃ u₁ s₁, (s.keyword .function).Yields u₁ s₁ ∧
        ∃ returns s₂, s₁.returnType.Yields returns s₂ ∧
          ∃ name s₃, s₂.identifier.Yields name s₃ ∧
            ∃ u₂ s₄, (s₃.opened.operator .openParen).Yields u₂ s₄ ∧
              ∃ ps s₅, (Parameter.parseAll (outer.nested s₃.opened.scopes) s₄).Yields ps s₅ ∧
                ∃ u₃ s₆, (s₅.operator .closeParen).Yields u₃ s₆ ∧
                  ∃ u₄ s₇, (s₆.keyword .begin_).Yields u₄ s₇ ∧
                    ∃ body s₈, (Block.parse ps.2 s₇).Yields body s₈ ∧
                      ∃ u₅ s₉, (s₈.keyword .end_).Yields u₅ s₉ ∧
                        ⟨returns, name, ps.1, body⟩ = f ∧ s₉ = t := by
  rw [parse]
  simp only [yields_bind, yields_after, yields_after_opened, yields_afterLoose, yields_pure,
    exists_prop]

theorem yields_parseAll {fs : List Function} :
    (parseAll outer s).Yields fs t ↔
      if s.peek? = some (.keyword .function) then
        ∃ f s₁, (parse outer s).Yields f s₁ ∧
          ∃ more s₂, (parseAll outer s₁).Yields more s₂ ∧ f :: more = fs ∧ s₂ = t
      else [] = fs ∧ s = t := by
  rw [parseAll]
  split
  · simp only [yields_loosen, yields_bind, yields_afterLoose, yields_pure, exists_prop]
  · rw [yields_stay]

/-- A function that is read has a derivation with distinct names in each scope. -/
theorem exists_func_of_yields {f : Function} (h : (parse outer s).Yields f t) :
    ∃ d : Func, s.Reads d.tokens d.openings t ∧ d.tree outer s.scopes = f ∧
      ∀ names ∈ d.scopes, names.Nodup := by
  obtain ⟨u₁, s₁, hy₁, returns, s₂, hy₂, name, s₃, hy₃, u₂, s₄, hy₄, ps, s₅, hy₅, u₃, s₆, hy₆, u₄,
    s₇, hy₇, body, s₈, hy₈, u₅, s₉, hy₉, rfl, rfl⟩ := yields_parse.1 h
  obtain ⟨token, ht, hw⟩ := reads_take hy₂
  obtain rfl := returnType?_eq_some_iff.1 hw
  have hnil : (outer.nested s₃.opened.scopes).names.Nodup := List.nodup_nil
  obtain ⟨params, hp, hps, hscope, hn⟩ := Parameter.exists_paramList_of_yields hnil hy₅
  have hnames : (outer.nested s₃.opened.scopes).names ++
      params.toList.map (fun p => p.name.value) = ps.2.names := by
    rw [← hscope, Param.names_add_all]
  obtain ⟨b, hb, hbody, hns⟩ := Block.exists_body_of_yields _ s₇ _ _ (hnames ▸ hn) hy₈
  have hbefore : s.Reads _ 1 s₄ := (reads_keyword hy₁).trans (ht.trans ((reads_identifier hy₃).trans
    ((reads_opened s₃).trans (reads_operator hy₄))))
  have hhead : s.Reads _ 1 s₇ :=
    hbefore.trans (hp.trans ((reads_operator hy₆).trans (reads_keyword hy₇)))
  refine ⟨⟨u₁.location, returns, name, u₂.location, params, u₃.location, u₄.location, b,
    u₅.location⟩,
    (hhead.trans (hb.trans (reads_keyword hy₉))).of_eq (by simp [Func.tokens]) rfl, ?_, ?_⟩
  · have hopen : s₃.opened.scopes = s.scopes + 1 := by rw [← hbefore.2, (reads_operator hy₄).2]; rfl
    rw [Func.tree, hps, Func.scope, ← hopen, ← hbody, ← hscope, hhead.2, hopen]
    rfl
  · rw [Func.scopes]
    rw [← hnames] at hns
    exact hns

theorem exists_funcs_of_yields :
    ∀ {fs : List Function} {t : Cursor}, (parseAll outer s).Yields fs t →
      ∃ ds : List Func, s.Reads (ds.flatMap Func.tokens) (Func.openingsAll ds) t ∧
        Func.trees outer s.scopes ds = fs ∧ ∀ names ∈ ds.flatMap Func.scopes, names.Nodup := by
  induction s using parseAll.induct with
  | case1 s hp ih =>
    intro fs t h
    rw [yields_parseAll, if_pos hp] at h
    obtain ⟨f, s₁, hy₁, more, s₂, hy₂, rfl, rfl⟩ := h
    obtain ⟨d, hd, rfl, hn⟩ := exists_func_of_yields hy₁
    obtain ⟨ds, hds, rfl, hns⟩ := ih s₁ hy₁.size_lt hy₂
    refine ⟨d :: ds, hd.trans hds, ?_, List.forall_mem_append.2 ⟨hn, hns⟩⟩
    rw [Func.trees, hd.2]
  | case2 s hp =>
    intro fs t h
    rw [yields_parseAll, if_neg hp] at h
    obtain ⟨rfl, rfl⟩ := h
    exact ⟨[], .refl s, rfl, by simp⟩

end Function

theorem Grammar.Body.nodup_parameters {ps : List String} {b : Body}
    (h : ∀ names ∈ b.scopes ps, names.Nodup) : ps.Nodup := by
  obtain ⟨decls, stmts⟩ := b
  exact (h _ (List.mem_cons_self ..)).of_append_left

namespace Grammar.Func

theorem leaves (f : Func) {outer : Scope} (s : Cursor) {rest : Tokens}
    (h : s.ahead = f.tokens ++ rest) (hn : ∀ names ∈ f.scopes, names.Nodup) :
    (Function.parse outer s).Leaves (f.tree outer s.scopes) rest (s.scopes + f.openings) := by
  simp only [tokens, List.cons_append, List.append_assoc] at h
  have hw := returnType?_eq_some_iff.2 (rfl : Token.keyword f.returns.value.keyword = _)
  have hnames : (f.scope outer (s.scopes + 1)).names =
      (outer.nested (s.scopes + 1)).names ++ f.parameters.toList.map fun p => p.name.value :=
    Param.names_add_all (outer.nested (s.scopes + 1)) _
  have hparams : ((outer.nested (s.scopes + 1)).names ++
      f.parameters.toList.map fun p => p.name.value).Nodup := Body.nodup_parameters hn
  have hend : Avoids ExtendsBody ([word .end_ f.end_] ++ rest) := avoids_extendsBody rfl rfl
  obtain ⟨⟨_, last, _⟩, hy₅, rfl, rfl⟩ :=
    f.parameters.leaves ⟨_, f.opening, s.scopes + 1⟩ rfl hparams
  obtain ⟨s₈, hy₈, ha₈, hs₈⟩ := f.body.leaves (f.scope outer (s.scopes + 1))
    ⟨_, f.begin_, s.scopes + 1⟩ rfl hend (hnames ▸ hn)
  exact ⟨_, Function.yields_parse.2 ⟨⟨(), f.function⟩, _, yields_keyword.2 ⟨_, h, rfl⟩, f.returns,
    _, yields_take.2 ⟨_, _, rfl, hw, rfl⟩, f.name, _, yields_identifier.2 ⟨_, rfl, rfl⟩,
    ⟨(), f.opening⟩, _, yields_operator.2 ⟨_, rfl, rfl⟩, _, _, hy₅, ⟨(), f.closing⟩, _,
    yields_operator.2 ⟨_, rfl, rfl⟩, ⟨(), f.begin_⟩, _, yields_keyword.2 ⟨_, rfl, rfl⟩, _, s₈, hy₈,
    ⟨(), f.end_⟩, _, yields_keyword.2 ⟨_, ha₈, rfl⟩, rfl, rfl⟩, rfl,
    hs₈.trans (Nat.add_assoc _ _ _)⟩

theorem leavesAll (fs : List Func) {outer : Scope} (s : Cursor) {rest : Tokens}
    (h : s.ahead = fs.flatMap tokens ++ rest) (hr : Avoids (· = .keyword .function) rest)
    (hn : ∀ names ∈ fs.flatMap scopes, names.Nodup) :
    (Function.parseAll outer s).Leaves (trees outer s.scopes fs) rest
      (s.scopes + openingsAll fs) := by
  induction fs generalizing s with
  | nil =>
    have hp : ¬ s.peek? = some (.keyword .function) := by
      rw [peek?_eq_some_iff, h]
      exact not_not.2 hr
    refine ⟨s, ?_, h, rfl⟩
    rw [Function.yields_parseAll, if_neg hp]
    exact ⟨rfl, rfl⟩
  | cons f fs ih =>
    have hp : s.peek? = some (.keyword .function) := by simp [peek?, h, tokens]
    rw [List.flatMap_cons, List.append_assoc] at h
    rw [List.flatMap_cons, List.forall_mem_append] at hn
    obtain ⟨s₁, hy₁, ha, hs⟩ := f.leaves s h hn.1
    obtain ⟨t, hy₂, hb, ht⟩ := ih s₁ ha hn.2
    rw [hs] at hy₂ ht
    refine ⟨t, ?_, hb, ?_⟩
    · rw [Function.yields_parseAll, if_pos hp]
      exact ⟨_, s₁, hy₁, _, t, hy₂, rfl, rfl⟩
    · rw [openingsAll, ← Nat.add_assoc]
      exact ht

/-- Functions behind the declarations of a program, with its END behind them. -/
theorem avoids_startsDeclaration (end_ : Location) :
    ∀ fs : List Func, Avoids (fun t => t.startsDeclaration = true)
      (fs.flatMap tokens ++ [word .end_ end_])
  | [] => by simp [startsDeclaration]
  | f :: fs => by simp [tokens, startsDeclaration]

end Grammar.Func

namespace Program

variable {s t : Cursor} {p : Program}

theorem yields_parseWhole :
    (parseWhole s).Yields p t ↔
      ∃ u₁ s₁, (s.keyword .program).Yields u₁ s₁ ∧
        ∃ name s₂, s₁.identifier.Yields name s₂ ∧
          ∃ u₂ s₃, (s₂.keyword .begin_).Yields u₂ s₃ ∧
            ∃ ds s₄, (Declaration.parseAll .global s₃).Yields ds s₄ ∧
              ∃ fs s₅, (Function.parseAll ds.2 s₄).Yields fs s₅ ∧
                ∃ end_ s₆, (s₅.keyword .end_).Yields end_ s₆ ∧
                  s₆.ahead = [] ∧ ⟨name, ds.1, ds.2, fs, end_.location⟩ = p ∧ s₆ = t := by
  rw [parseWhole]
  simp only [yields_bind, yields_after, yields_afterLoose, exists_prop, yields_if_throw,
    List.isEmpty_iff]

theorem parse_eq_ok_iff_yields {tokens : List (Located Token)} :
    parse tokens = .ok p ↔ ∃ t, (parseWhole ⟨tokens, {}, 0⟩).Yields p t := by
  rw [parse]
  cases h : parseWhole ⟨tokens, {}, 0⟩ with
  | error stop => simp [not_yields_error]
  | ok step => simp [yields_ok]

/-- A list of tokens has the tree `p` exactly when it has a derivation for `p` in which no scope
declares a name twice. -/
theorem parse_eq_ok_iff {tokens : List (Located Token)} :
    parse tokens = .ok p ↔ ∃ d : Prog, d.tokens = tokens ∧ d.Distinct ∧ d.tree = p := by
  rw [parse_eq_ok_iff_yields]
  constructor
  · rintro ⟨t, h⟩
    obtain ⟨u₁, s₁, hy₁, name, s₂, hy₂, u₂, s₃, hy₃, ds, s₄, hy₄, fs, s₅, hy₅, end_, s₆, hy₆, hnil,
      rfl, rfl⟩ := yields_parseWhole.1 h
    have hglobal : Scope.global.names.Nodup := List.nodup_nil
    obtain ⟨decls, hd, hds, hscope, hnodup⟩ := Declaration.exists_decls_of_yields hglobal hy₄
    obtain ⟨funcs, hf, rfl, hns⟩ := Function.exists_funcs_of_yields hy₅
    have hbefore : Cursor.Reads _ _ 0 s₄ :=
      (reads_keyword hy₁).trans ((reads_identifier hy₂).trans ((reads_keyword hy₃).trans hd))
    have hall := hbefore.trans (hf.trans (reads_keyword hy₆))
    refine ⟨⟨u₁.location, name, u₂.location, decls, funcs, end_.location⟩, ?_, ?_, ?_⟩
    · have htokens := hall.1
      rw [hnil, List.append_nil] at htokens
      exact Eq.trans (by simp [Prog.tokens]) htokens.symm
    · exact List.forall_mem_cons.2 ⟨hnodup, hns⟩
    · rw [Prog.tree, hds, Prog.scope, hbefore.2, ← hscope]
      rfl
  · rintro ⟨d, rfl, hn, rfl⟩
    obtain ⟨hglobals, hfunctions⟩ := List.forall_mem_cons.1 hn
    have hdecls : (Scope.global.names ++ d.globals.flatMap Decl.names).Nodup := hglobals
    obtain ⟨s₄, hy₄, ha₄, hs₄⟩ := Decl.leavesAll d.globals ⟨_, d.begin_, 0⟩ (List.append_assoc ..)
      hdecls (Func.avoids_startsDeclaration d.end_ d.functions)
    obtain ⟨s₅, hy₅, ha₅, -⟩ := Func.leavesAll d.functions s₄ ha₄ (by simp) hfunctions
    rw [hs₄] at hy₅
    exact ⟨_, yields_parseWhole.2 ⟨⟨(), d.program⟩, _, yields_keyword.2 ⟨_, rfl, rfl⟩, d.name, _,
      yields_identifier.2 ⟨_, rfl, rfl⟩, ⟨(), d.begin_⟩, _, yields_keyword.2 ⟨_, rfl, rfl⟩, _, s₄,
      hy₄, _, s₅, hy₅, ⟨(), d.end_⟩, _, yields_keyword.2 ⟨_, ha₅, rfl⟩, rfl, rfl, rfl⟩⟩

end Program

end LittleTiny
