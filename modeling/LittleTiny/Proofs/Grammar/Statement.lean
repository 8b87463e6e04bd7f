import LittleTiny.Proofs.Grammar.Declaration
import LittleTiny.Tree.Statement

/-!
# Reading statements

The rules of statements and blocks read exactly the derivations of `Grammar.Stmt` and
`Grammar.Body`. A block is read in a scope that may hold parameters already. What the rules yield
has a derivation in which no scope declares a name twice (`Block.exists_body_of_yields`), and each
such derivation is read to its end, if what comes behind it begins neither a declaration nor a
statement (`Body.leaves`). The number of scopes opened on the way is that of the derivation.
-/

namespace LittleTiny

open Reading Cursor Grammar Token

namespace Cursor

theorem reads_opened (s : Cursor) : s.Reads [] 1 s.opened := ⟨rfl, rfl⟩

theorem Reads.of_eq {s t : Cursor} {ts ts' : Tokens} {k k' : Nat} (h : s.Reads ts k t)
    (hts : ts = ts') (hk : k = k') : s.Reads ts' k' t :=
  hk ▸ hts ▸ h

end Cursor

/-- A rule that opens a scope before it takes a token. -/
theorem Reading.yields_after_opened {α : Type} {n : Nat} {s t : Cursor} {h : s.size < n}
    {r : Reading (Advance s.opened.size α)} {a : α} :
    Yields (@after α n s h r) a t ↔ Yields r a t :=
  yields_after

/-! ## The rules, taken apart -/

namespace Statement

variable {s t : Cursor} {st : Statement} {scope : Scope}

theorem yields_parseAssign :
    (parseAssign s).Yields st t ↔
      ∃ target s₁, s.identifier.Yields target s₁ ∧
        ∃ u₁ s₂, (s₁.operator .assign).Yields u₁ s₂ ∧
          ∃ value s₃, (Expr.parse s₂).Yields value s₃ ∧
            ∃ u₂ s₄, (s₃.operator .semicolon).Yields u₂ s₄ ∧
              .assign target value = st ∧ s₄ = t := by
  rw [parseAssign]
  simp only [yields_bind, yields_after, yields_pure, exists_prop]

theorem yields_parseReturn :
    (parseReturn s).Yields st t ↔
      ∃ u₁ s₁, (s.keyword .return_).Yields u₁ s₁ ∧
        ∃ value s₂, (Expr.parse s₁).Yields value s₂ ∧
          ∃ u₂ s₃, (s₂.operator .semicolon).Yields u₂ s₃ ∧ .return_ value = st ∧ s₃ = t := by
  rw [parseReturn]
  simp only [yields_bind, yields_after, yields_pure, exists_prop]

theorem yields_parseNames {k : Keyword} {form : List (Located String) → Statement} :
    (parseNames k form s).Yields st t ↔
      ∃ u₁ s₁, (s.keyword k).Yields u₁ s₁ ∧
        ∃ u₂ s₂, (s₁.operator .openParen).Yields u₂ s₂ ∧
          ∃ names s₃, s₂.names.Yields names s₃ ∧
            ∃ u₃ s₄, (s₃.operator .closeParen).Yields u₃ s₄ ∧
              ∃ u₄ s₅, (s₄.operator .semicolon).Yields u₄ s₅ ∧ form names = st ∧ s₅ = t := by
  rw [parseNames]
  simp only [yields_bind, yields_after, yields_pure, exists_prop]

theorem yields_parseHead {k : Keyword} {x : Nat × Condition} :
    (parseHead k s).Yields x t ↔
      ∃ u₁ s₁, (s.keyword k).Yields u₁ s₁ ∧
        ∃ u₂ s₂, (s₁.opened.operator .openParen).Yields u₂ s₂ ∧
          ∃ condition s₃, (Condition.parse s₂).Yields condition s₃ ∧
            ∃ u₃ s₄, (s₃.operator .closeParen).Yields u₃ s₄ ∧
              (s₁.opened.scopes, condition) = x ∧ s₄ = t := by
  rw [parseHead]
  simp only [yields_bind, yields_after, yields_after_opened, yields_pure, exists_prop]

theorem yields_parseAll {sts : List Statement} :
    (parseAll scope s).Yields sts t ↔
      if s.peek?.any startsStatement then
        ∃ st s₁, (parse scope s).Yields st s₁ ∧
          ∃ more s₂, (parseAll scope s₁).Yields more s₂ ∧ st :: more = sts ∧ s₂ = t
      else [] = sts ∧ s = t := by
  rw [parseAll]
  split
  · simp only [yields_loosen, yields_bind, yields_afterLoose, yields_pure, exists_prop]
  · rw [yields_stay]

theorem yields_parseIf :
    (parseIf scope s).Yields st t ↔
      ∃ head s₁, (parseHead .if_ s).Yields head s₁ ∧
        ∃ body s₂, (Block.parse (scope.nested head.1) s₁).Yields body s₂ ∧
          ((Avoids (· = .keyword .else_) s₂.ahead ∧
              ∃ u s₃, (s₂.keyword .endIf).Yields u s₃ ∧ .ifThen head.2 body = st ∧ s₃ = t) ∨
            ∃ s₃, s₂.Skips (.keyword .else_) s₃ ∧
              ∃ alternative s₄,
                (Block.parse (scope.nested s₃.opened.scopes) s₃.opened).Yields alternative s₄ ∧
                ∃ u s₅, (s₄.keyword .endIf).Yields u s₅ ∧
                  .ifElse head.2 body alternative = st ∧ s₅ = t) := by
  rw [parseIf, yields_bind]
  refine exists_congr fun head => exists_congr fun s₁ => ?_
  refine Iff.trans (exists_congr fun h₁ => ?_) exists_prop
  rw [yields_bind]
  refine exists_congr fun body => exists_congr fun s₂ => ?_
  refine Iff.trans (exists_congr fun h₂ => yields_match_skip?) ?_
  simp only [yields_bind, yields_after, yields_afterLoose, yields_pure, exists_prop]

theorem yields_parseWhile :
    (parseWhile scope s).Yields st t ↔
      ∃ head s₁, (parseHead .while_ s).Yields head s₁ ∧
        ∃ body s₂, (Block.parse (scope.nested head.1) s₁).Yields body s₂ ∧
          ∃ u s₃, (s₂.keyword .endWhile).Yields u s₃ ∧ .loop head.2 body = st ∧ s₃ = t := by
  rw [parseWhile]
  simp only [yields_bind, yields_after, yields_afterLoose, yields_pure, exists_prop]

/-! The word ahead decides for a form of statement; without one it is an assignment. -/

theorem parse_of_if (h : s.peek? = some (.keyword .if_)) : parse scope s = parseIf scope s := by
  rw [parse, h]

theorem parse_of_while (h : s.peek? = some (.keyword .while_)) :
    parse scope s = parseWhile scope s := by
  rw [parse, h]

theorem parse_of_read (h : s.peek? = some (.keyword .read)) :
    parse scope s = parseNames .read .read s := by
  rw [parse, h]

theorem parse_of_write (h : s.peek? = some (.keyword .write)) :
    parse scope s = parseNames .write .write s := by
  rw [parse, h]

theorem parse_of_return (h : s.peek? = some (.keyword .return_)) :
    parse scope s = parseReturn s := by
  rw [parse, h]

theorem parse_of_other (hif : s.peek? ≠ some (.keyword .if_))
    (hwhile : s.peek? ≠ some (.keyword .while_)) (hread : s.peek? ≠ some (.keyword .read))
    (hwrite : s.peek? ≠ some (.keyword .write)) (hreturn : s.peek? ≠ some (.keyword .return_)) :
    parse scope s = parseAssign s := by
  rw [parse]
  split
  case h_1 h => exact absurd h hif
  case h_2 h => exact absurd h hwhile
  case h_3 h => exact absurd h hread
  case h_4 h => exact absurd h hwrite
  case h_5 h => exact absurd h hreturn
  case h_6 => rfl

end Statement

theorem Block.yields_parse {scope : Scope} {s t : Cursor} {b : Block} :
    (Block.parse scope s).Yields b t ↔
      ∃ ds s₁, (Declaration.parseAll scope s).Yields ds s₁ ∧
        ∃ sts s₂, (Statement.parseAll ds.2 s₁).Yields sts s₂ ∧ ⟨ds.1, sts, ds.2⟩ = b ∧ s₂ = t := by
  rw [Block.parse]
  simp only [yields_bind, yields_afterLoose, yields_pure, exists_prop]

/-! ## What is yielded has a derivation -/

/-- Whatever the rule yields at `s` in `scope` is the tree of a statement in which no scope declares
a name twice. -/
def SoundStmt {n : Nat} (scope : Scope) (s : Cursor) (r : Reading (Advance n Statement)) : Prop :=
  ∀ st t, r.Yields st t →
    ∃ d : Stmt, s.Reads d.tokens d.openings t ∧ d.tree scope s.scopes = st ∧
      ∀ names ∈ d.scopes, names.Nodup

/-- Statements that are read from the cursor have derivations, and no scope inside declares a name
twice. -/
def SoundStmts (scope : Scope) (s : Cursor) : Prop :=
  ∀ sts t, (Statement.parseAll scope s).Yields sts t →
    ∃ ds : List Stmt, s.Reads (Stmt.tokensAll ds) (Stmt.openingsAll ds) t ∧
      Stmt.trees scope s.scopes ds = sts ∧ ∀ names ∈ Stmt.scopesAll ds, names.Nodup

/-- A block that is read from the cursor has a derivation, and no scope of it declares a name twice.
-/
def SoundBody (scope : Scope) (s : Cursor) : Prop :=
  ∀ b t, scope.names.Nodup → (Block.parse scope s).Yields b t →
    ∃ d : Body, s.Reads d.tokens d.openings t ∧ d.tree scope s.scopes = b ∧
      ∀ names ∈ d.scopes scope.names, names.Nodup

namespace Statement

variable {scope : Scope} {s : Cursor}

theorem soundStmt_assign : SoundStmt scope s (parseAssign s) := by
  intro st t h
  obtain ⟨target, s₁, hy₁, u₁, s₂, hy₂, value, s₃, hy₃, u₂, s₄, hy₄, rfl, rfl⟩ :=
    yields_parseAssign.1 h
  obtain ⟨d, hd, rfl⟩ := Expr.sound_sum s₂ _ _ hy₃
  exact ⟨.assign target u₁.location d u₂.location, (reads_identifier hy₁).trans
    ((reads_operator hy₂).trans (hd.trans (reads_operator hy₄))), rfl, by simp [Stmt.scopes]⟩

theorem soundStmt_return : SoundStmt scope s (parseReturn s) := by
  intro st t h
  obtain ⟨u₁, s₁, hy₁, value, s₂, hy₂, u₂, s₃, hy₃, rfl, rfl⟩ := yields_parseReturn.1 h
  obtain ⟨d, hd, rfl⟩ := Expr.sound_sum s₁ _ _ hy₂
  exact ⟨.return_ u₁.location d u₂.location,
    (reads_keyword hy₁).trans (hd.trans (reads_operator hy₃)), rfl, by simp [Stmt.scopes]⟩

/-- The parts of a READ or a WRITE that is yielded. -/
theorem exists_names_of_yields {k : Keyword} {form : List (Located String) → Statement}
    {st : Statement} {t : Cursor} (h : (parseNames k form s).Yields st t) :
    ∃ start opening names closing semicolon,
      s.Reads (word k start :: listTokens opening names closing semicolon) 0 t ∧
        form names.toList = st := by
  obtain ⟨u₁, s₁, hy₁, u₂, s₂, hy₂, names, s₃, hy₃, u₃, s₄, hy₄, u₄, s₅, hy₅, rfl, rfl⟩ :=
    yields_parseNames.1 h
  obtain ⟨d, hd, rfl⟩ := sound_names s₂ _ _ hy₃
  exact ⟨u₁.location, u₂.location, d, u₃.location, u₄.location, (reads_keyword hy₁).trans
    ((reads_operator hy₂).trans (hd.trans ((reads_operator hy₄).trans (reads_operator hy₅)))), rfl⟩

/-- The parts of the head of an IF or a WHILE; the scope opened in it takes the next number. -/
theorem exists_head_of_yields {k : Keyword} {x : Nat × Condition} {t : Cursor}
    (h : (parseHead k s).Yields x t) :
    ∃ start opening c closing, s.Reads (word k start :: headTokens opening c closing) 1 t ∧
      (s.scopes + 1, c.tree) = x := by
  obtain ⟨u₁, s₁, hy₁, u₂, s₂, hy₂, condition, s₃, hy₃, u₃, s₄, hy₄, rfl, rfl⟩ :=
    yields_parseHead.1 h
  obtain ⟨d, hd, rfl⟩ := Condition.sound_parse s₂ _ _ hy₃
  have hk := reads_keyword hy₁
  refine ⟨u₁.location, u₂.location, d, u₃.location, hk.trans ((reads_opened s₁).trans
    ((reads_operator hy₂).trans (hd.trans (reads_operator hy₄)))), ?_⟩
  rw [Cursor.opened, hk.2]

theorem soundStmt_if (ih : ∀ (id : Nat) (s₁ : Cursor), s₁.size < s.size →
      SoundBody (scope.nested id) s₁)
    (ih' : ∀ s₂ : Cursor, s₂.size < s.size → ∀ s₃ : Cursor, s₃.size < s₂.size →
      SoundBody (scope.nested s₃.opened.scopes) s₃.opened) :
    SoundStmt scope s (parseIf scope s) := by
  intro st t h
  obtain ⟨head, s₁, hy₁, body, s₂, hy₂, hrest⟩ := yields_parseIf.1 h
  obtain ⟨start, opening, c, closing, hhead, rfl⟩ := exists_head_of_yields hy₁
  obtain ⟨b, hb, rfl, hn⟩ := ih _ s₁ hy₁.size_lt _ _ List.nodup_nil hy₂
  obtain ⟨-, u, s₃, hy₃, rfl, rfl⟩ | ⟨s₃, hskip, alternative, s₄, hy₄, u, s₅, hy₅, rfl, rfl⟩ :=
    hrest
  · refine ⟨.ifThen start opening c closing b u.location, ?_, ?_, hn⟩
    · exact (hhead.trans (hb.trans (reads_keyword hy₃))).of_eq (by simp [Stmt.tokens]) rfl
    · rw [Stmt.tree, hhead.2]
  · have hs₂ : s₂.size < s.size := Nat.lt_of_lt_of_le hy₂.size_lt hy₁.size_lt
    obtain ⟨a, ha, rfl, hn'⟩ := ih' s₂ hs₂ s₃ hskip.size_lt _ _ List.nodup_nil hy₄
    obtain ⟨else_, helse⟩ := hskip.reads
    have hopen : s₃.opened.scopes = s.scopes + 1 + b.openings + 1 := by
      rw [Cursor.opened, helse.2, hb.2, hhead.2]
    refine ⟨.ifElse start opening c closing b else_ a u.location, ?_, ?_, ?_⟩
    · exact (hhead.trans (hb.trans (helse.trans ((reads_opened s₃).trans
        (ha.trans (reads_keyword hy₅)))))).of_eq (by simp [Stmt.tokens])
          (by simp [Stmt.openings]; omega)
    · rw [Stmt.tree, hhead.2, hopen]
    · rw [Stmt.scopes]
      exact List.forall_mem_append.2 ⟨hn, hn'⟩

theorem soundStmt_while (ih : ∀ (id : Nat) (s₁ : Cursor), s₁.size < s.size →
      SoundBody (scope.nested id) s₁) :
    SoundStmt scope s (parseWhile scope s) := by
  intro st t h
  obtain ⟨head, s₁, hy₁, body, s₂, hy₂, u, s₃, hy₃, rfl, rfl⟩ := yields_parseWhile.1 h
  obtain ⟨start, opening, c, closing, hhead, rfl⟩ := exists_head_of_yields hy₁
  obtain ⟨b, hb, rfl, hn⟩ := ih _ s₁ hy₁.size_lt _ _ List.nodup_nil hy₂
  refine ⟨.loop start opening c closing b u.location, ?_, ?_, hn⟩
  · exact (hhead.trans (hb.trans (reads_keyword hy₃))).of_eq (by simp [Stmt.tokens]) rfl
  · rw [Stmt.tree, hhead.2]

theorem soundStmt_read : SoundStmt scope s (parseNames .read .read s) := by
  intro st t h
  obtain ⟨start, opening, names, closing, semicolon, hr, rfl⟩ := exists_names_of_yields h
  exact ⟨.read start opening names closing semicolon, hr, rfl, by simp [Stmt.scopes]⟩

theorem soundStmt_write : SoundStmt scope s (parseNames .write .write s) := by
  intro st t h
  obtain ⟨start, opening, names, closing, semicolon, hr, rfl⟩ := exists_names_of_yields h
  exact ⟨.write start opening names closing semicolon, hr, rfl, by simp [Stmt.scopes]⟩

theorem soundStmts_cons (hp : s.peek?.any startsStatement = true)
    (hst : SoundStmt scope s (parse scope s))
    (ih : ∀ s₁ : Cursor, s₁.size < s.size → SoundStmts scope s₁) : SoundStmts scope s := by
  intro sts t h
  rw [yields_parseAll, if_pos hp] at h
  obtain ⟨st, s₁, hy₁, more, s₂, hy₂, rfl, rfl⟩ := h
  obtain ⟨d, hd, rfl, hn⟩ := hst _ _ hy₁
  obtain ⟨ds, hds, rfl, hn'⟩ := ih s₁ hy₁.size_lt _ _ hy₂
  refine ⟨d :: ds, hd.trans hds, ?_, List.forall_mem_append.2 ⟨hn, hn'⟩⟩
  rw [Stmt.trees, hd.2]

theorem soundStmts_nil (hp : ¬ s.peek?.any startsStatement = true) : SoundStmts scope s := by
  intro sts t h
  rw [yields_parseAll, if_neg hp] at h
  obtain ⟨rfl, rfl⟩ := h
  exact ⟨[], .refl s, rfl, by simp [Stmt.scopesAll]⟩

end Statement

theorem Block.soundBody {scope : Scope} {s : Cursor}
    (ih : ∀ (scope : Scope) (s₁ : Cursor), s₁.size < s.size + 1 → SoundStmts scope s₁) :
    SoundBody scope s := by
  intro b t hn h
  obtain ⟨ds, s₁, hy₁, sts, s₂, hy₂, rfl, rfl⟩ := Block.yields_parse.1 h
  obtain ⟨decls, hd, hds, hscope, hnodup⟩ := Declaration.exists_decls_of_yields hn hy₁
  obtain ⟨stmts, hs, rfl, hns⟩ := ih _ s₁ hy₁.size_lt _ _ hy₂
  refine ⟨⟨decls, stmts⟩, (hd.trans hs).of_eq rfl (Nat.zero_add _), ?_, ?_⟩
  · rw [Body.tree, hds, hscope, hd.2]
    rfl
  · rw [Body.scopes]
    exact List.forall_mem_cons.2 ⟨hnodup, hns⟩

open Statement in
/-- The rule of blocks yields trees of derivations only, with distinct names in each scope. -/
theorem Block.exists_body_of_yields (scope : Scope) (s : Cursor) : SoundBody scope s :=
  Block.parse.induct SoundBody SoundStmts
    (fun scope s => SoundStmt scope s (Statement.parse scope s))
    (fun scope s => SoundStmt scope s (Statement.parseWhile scope s))
    (fun scope s => SoundStmt scope s (Statement.parseIf scope s))
    (fun _ _ => Block.soundBody)
    (fun _ _ => soundStmts_cons)
    (fun _ _ => soundStmts_nil)
    (fun _ _ h ih => parse_of_if h ▸ ih)
    (fun _ _ h ih => parse_of_while h ▸ ih)
    (fun _ _ h => parse_of_read h ▸ soundStmt_read)
    (fun _ _ h => parse_of_write h ▸ soundStmt_write)
    (fun _ _ h => parse_of_return h ▸ soundStmt_return)
    (fun _ _ h₁ h₂ h₃ h₄ h₅ => parse_of_other h₁ h₂ h₃ h₄ h₅ ▸ soundStmt_assign)
    (fun _ _ => soundStmt_while)
    (fun _ s ih ih' => soundStmt_if ih (ih' s)) scope s

/-! ## What has a derivation is yielded -/

/-- A token that goes on with a block. -/
def Token.ExtendsBody (t : Token) : Prop := t.startsDeclaration = true ∨ t.startsStatement = true

theorem Token.not_startsDeclaration {t : Token} (h : t.startsStatement = true) :
    ¬ t.startsDeclaration = true := by
  intro h'
  unfold startsDeclaration at h'
  split at h' <;> simp [startsStatement] at h h'

namespace Grammar

open Statement

theorem Stmt.startsStatement_head (d : Stmt) :
    ∃ x ts, d.tokens = x :: ts ∧ x.value.startsStatement = true := by
  cases d <;> exact ⟨_, _, rfl, rfl⟩

theorem Stmt.avoids_startsDeclaration {rest : Tokens} (hr : Avoids ExtendsBody rest) :
    ∀ ds : List Stmt, Avoids (fun t => t.startsDeclaration = true) (tokensAll ds ++ rest)
  | [] => hr.mono fun _ => .inl
  | d :: ds => by
    obtain ⟨x, ts, hx, hstart⟩ := d.startsStatement_head
    rw [tokensAll, hx, List.cons_append, List.cons_append, avoids_cons]
    exact not_startsDeclaration hstart

/-- What may stand behind an expression in a statement does not go on with it. -/
theorem avoids_extendsSum_semicolon (l : Location) (rest : Tokens) :
    Avoids ExtendsSum (sign .semicolon l :: rest) := by
  simp [ExtendsSum, ExtendsProduct, ExtendsAtom, multiplicative?, additive?]

theorem avoids_extendsSum_closeParen (l : Location) (rest : Tokens) :
    Avoids ExtendsSum (sign .closeParen l :: rest) := by
  simp [ExtendsSum, ExtendsProduct, ExtendsAtom, multiplicative?, additive?]

/-- A word that begins neither a declaration nor a statement ends a block. -/
theorem avoids_extendsBody {k : Keyword} {l : Location} {rest : Tokens}
    (hd : (Token.keyword k).startsDeclaration = false)
    (hs : (Token.keyword k).startsStatement = false) : Avoids ExtendsBody (word k l :: rest) := by
  simp [ExtendsBody, hd, hs]

theorem leaves_head {k : Keyword} {start opening closing : Location} {c : Cond} (s : Cursor)
    {rest : Tokens} (h : s.ahead = word k start :: (headTokens opening c closing ++ rest)) :
    (Statement.parseHead k s).Leaves (s.scopes + 1, c.tree) rest (s.scopes + 1) := by
  rw [headTokens, List.cons_append, List.append_assoc] at h
  obtain ⟨s₃, hy₃, ha, hs⟩ := c.leaves ⟨_, opening, s.scopes + 1⟩ rfl
    (avoids_extendsSum_closeParen closing rest)
  exact ⟨_, Statement.yields_parseHead.2 ⟨⟨(), start⟩, _, yields_keyword.2 ⟨_, h, rfl⟩,
    ⟨(), opening⟩, _, yields_operator.2 ⟨_, rfl, rfl⟩, _, s₃, hy₃, ⟨(), closing⟩, _,
    yields_operator.2 ⟨_, ha, rfl⟩, rfl, rfl⟩, rfl, hs⟩

theorem leaves_list {k : Keyword} {form : List (Located String) → Statement}
    {start opening closing semicolon : Location} {names : Separated (Located String)} (s : Cursor)
    {rest : Tokens}
    (h : s.ahead = word k start :: (listTokens opening names closing semicolon ++ rest)) :
    (Statement.parseNames k form s).Leaves (form names.toList) rest s.scopes := by
  rw [listTokens, List.cons_append, List.append_assoc] at h
  obtain ⟨s₃, hy₃, ha, hs⟩ := leaves_names names.first names.rest ⟨_, opening, s.scopes⟩ rfl
    (by simp : Avoids (· = .operator .comma)
      ([sign .closeParen closing, sign .semicolon semicolon] ++ rest))
  exact ⟨_, Statement.yields_parseNames.2 ⟨⟨(), start⟩, _, yields_keyword.2 ⟨_, h, rfl⟩,
    ⟨(), opening⟩, _, yields_operator.2 ⟨_, rfl, rfl⟩, _, s₃, hy₃, ⟨(), closing⟩, _,
    yields_operator.2 ⟨_, ha, rfl⟩, ⟨(), semicolon⟩, _, yields_operator.2 ⟨_, rfl, rfl⟩, rfl, rfl⟩,
    rfl, hs⟩

mutual

theorem Stmt.leaves : ∀ (d : Stmt) {scope : Scope} (s : Cursor) {rest : Tokens},
    s.ahead = d.tokens ++ rest → (∀ names ∈ d.scopes, names.Nodup) →
    (Statement.parse scope s).Leaves (d.tree scope s.scopes) rest (s.scopes + d.openings)
  | .assign target becomes value semicolon, scope, s, rest, h, hn => by
    have hp : s.peek? = some (.identifier target.value) := by simp [peek?, h, Stmt.tokens]
    rw [Stmt.tokens, List.cons_append, List.cons_append, List.append_assoc] at h
    obtain ⟨s₃, hy₃, ha, hs⟩ := value.leaves ⟨_, becomes, s.scopes⟩ rfl
      (avoids_extendsSum_semicolon semicolon rest)
    rw [parse_of_other (by simp [hp]) (by simp [hp]) (by simp [hp]) (by simp [hp]) (by simp [hp])]
    exact ⟨_, Statement.yields_parseAssign.2 ⟨target, _, yields_identifier.2 ⟨_, h, rfl⟩,
      ⟨(), becomes⟩, _, yields_operator.2 ⟨_, rfl, rfl⟩, _, s₃, hy₃, ⟨(), semicolon⟩, _,
      yields_operator.2 ⟨_, ha, rfl⟩, rfl, rfl⟩, rfl, hs⟩
  | .read start opening names closing semicolon, scope, s, rest, h, hn => by
    rw [parse_of_read (by simp [peek?, h, Stmt.tokens])]
    exact leaves_list s h
  | .write start opening names closing semicolon, scope, s, rest, h, hn => by
    rw [parse_of_write (by simp [peek?, h, Stmt.tokens])]
    exact leaves_list s h
  | .ifThen if_ opening condition closing body endIf, scope, s, rest, h, hn => by
    rw [parse_of_if (by simp [peek?, h, Stmt.tokens])]
    rw [Stmt.tokens, List.cons_append, List.append_assoc, List.append_assoc] at h
    obtain ⟨s₁, hy₁, ha₁, hs₁⟩ := leaves_head s h
    obtain ⟨s₂, hy₂, ha₂, hs₂⟩ := body.leaves (scope.nested (s.scopes + 1)) s₁ ha₁
      (avoids_extendsBody rfl rfl) hn
    rw [hs₁] at hy₂ hs₂
    refine ⟨_, yields_parseIf.2 ⟨_, s₁, hy₁, _, s₂, hy₂, .inl ⟨?_, ⟨(), endIf⟩, _,
      yields_keyword.2 ⟨_, ha₂, rfl⟩, rfl, rfl⟩⟩, rfl, hs₂.trans (Nat.add_assoc _ _ _)⟩
    simp [ha₂]
  | .ifElse if_ opening condition closing body else_ alternative endIf, scope, s, rest, h, hn => by
    rw [parse_of_if (by simp [peek?, h, Stmt.tokens])]
    rw [Stmt.tokens, List.cons_append, List.append_assoc, List.append_assoc, List.cons_append,
      List.append_assoc] at h
    rw [Stmt.scopes, List.forall_mem_append] at hn
    obtain ⟨s₁, hy₁, ha₁, hs₁⟩ := leaves_head s h
    obtain ⟨s₂, hy₂, ha₂, hs₂⟩ := body.leaves (scope.nested (s.scopes + 1)) s₁ ha₁
      (avoids_extendsBody rfl rfl) hn.1
    rw [hs₁] at hy₂ hs₂
    let s₃ : Cursor := ⟨alternative.tokens ++ ([word .endIf endIf] ++ rest), s₂.last, s₂.scopes⟩
    obtain ⟨s₄, hy₄, ha₄, hs₄⟩ := alternative.leaves (scope.nested s₃.opened.scopes) s₃.opened rfl
      (avoids_extendsBody rfl rfl) hn.2
    have hopen : s₃.opened.scopes = s.scopes + 1 + body.openings + 1 := congrArg (· + 1) hs₂
    rw [hopen] at hs₄
    refine ⟨_, yields_parseIf.2 ⟨_, s₁, hy₁, _, s₂, hy₂, .inr ⟨s₃, ⟨else_, ha₂, rfl, rfl⟩, _, s₄,
      hy₄, ⟨(), endIf⟩, _, yields_keyword.2 ⟨_, ha₄, rfl⟩, ?_, rfl⟩⟩, rfl, ?_⟩
    · rw [Stmt.tree, hopen]
    · rw [Stmt.openings]
      exact hs₄.trans (by omega)
  | .loop while_ opening condition closing body endWhile, scope, s, rest, h, hn => by
    rw [parse_of_while (by simp [peek?, h, Stmt.tokens])]
    rw [Stmt.tokens, List.cons_append, List.append_assoc, List.append_assoc] at h
    obtain ⟨s₁, hy₁, ha₁, hs₁⟩ := leaves_head s h
    obtain ⟨s₂, hy₂, ha₂, hs₂⟩ := body.leaves (scope.nested (s.scopes + 1)) s₁ ha₁
      (avoids_extendsBody rfl rfl) hn
    rw [hs₁] at hy₂ hs₂
    exact ⟨_, yields_parseWhile.2 ⟨_, s₁, hy₁, _, s₂, hy₂, ⟨(), endWhile⟩, _,
      yields_keyword.2 ⟨_, ha₂, rfl⟩, rfl, rfl⟩, rfl, hs₂.trans (Nat.add_assoc _ _ _)⟩
  | .return_ start value semicolon, scope, s, rest, h, hn => by
    rw [parse_of_return (by simp [peek?, h, Stmt.tokens])]
    rw [Stmt.tokens, List.cons_append, List.append_assoc] at h
    obtain ⟨s₂, hy₂, ha, hs⟩ := value.leaves ⟨_, start, s.scopes⟩ rfl
      (avoids_extendsSum_semicolon semicolon rest)
    exact ⟨_, Statement.yields_parseReturn.2 ⟨⟨(), start⟩, _, yields_keyword.2 ⟨_, h, rfl⟩, _, s₂,
      hy₂, ⟨(), semicolon⟩, _, yields_operator.2 ⟨_, ha, rfl⟩, rfl, rfl⟩, rfl, hs⟩

theorem Body.leaves : ∀ (b : Body) (scope : Scope) (s : Cursor) {rest : Tokens},
    s.ahead = b.tokens ++ rest → Avoids ExtendsBody rest →
    (∀ names ∈ b.scopes scope.names, names.Nodup) →
    (Block.parse scope s).Leaves (b.tree scope s.scopes) rest (s.scopes + b.openings)
  | ⟨decls, stmts⟩, scope, s, rest, h, hr, hn => by
    rw [Body.tokens, List.append_assoc] at h
    rw [Body.scopes, List.forall_mem_cons] at hn
    obtain ⟨s₁, hy₁, ha, hs⟩ :=
      Decl.leavesAll decls s h hn.1 (Stmt.avoids_startsDeclaration hr stmts)
    obtain ⟨t, hy₂, hb, ht⟩ := Stmt.leavesAll stmts s₁ ha (hr.mono fun _ => .inr) hn.2
    rw [hs] at hy₂ ht
    exact ⟨t, Block.yields_parse.2 ⟨_, s₁, hy₁, _, t, hy₂, rfl, rfl⟩, hb, ht⟩

theorem Stmt.leavesAll : ∀ (ds : List Stmt) {scope : Scope} (s : Cursor) {rest : Tokens},
    s.ahead = Stmt.tokensAll ds ++ rest → Avoids (fun t => t.startsStatement = true) rest →
    (∀ names ∈ Stmt.scopesAll ds, names.Nodup) →
    (Statement.parseAll scope s).Leaves (Stmt.trees scope s.scopes ds) rest
      (s.scopes + Stmt.openingsAll ds)
  | [], scope, s, rest, h, hr, hn => by
    have hp : ¬ s.peek?.any startsStatement = true := by
      rw [any_peek?_iff, h]
      exact not_not.2 hr
    refine ⟨s, ?_, h, rfl⟩
    rw [Statement.yields_parseAll, if_neg hp]
    exact ⟨rfl, rfl⟩
  | d :: ds, scope, s, rest, h, hr, hn => by
    have hp : s.peek?.any startsStatement = true := by
      obtain ⟨x, ts, hx, hstart⟩ := d.startsStatement_head
      simp [peek?, h, Stmt.tokensAll, hx, hstart]
    rw [Stmt.tokensAll, List.append_assoc] at h
    rw [Stmt.scopesAll, List.forall_mem_append] at hn
    obtain ⟨s₁, hy₁, ha, hs⟩ := d.leaves s h hn.1
    obtain ⟨t, hy₂, hb, ht⟩ := Stmt.leavesAll ds s₁ ha hr hn.2
    rw [hs] at hy₂ ht
    refine ⟨t, ?_, hb, ht.trans (Nat.add_assoc _ _ _)⟩
    rw [Statement.yields_parseAll, if_pos hp]
    exact ⟨_, s₁, hy₁, _, t, hy₂, rfl, rfl⟩

end

end Grammar

end LittleTiny
