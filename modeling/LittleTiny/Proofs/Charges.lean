import LittleTiny.Proofs.Scopes
import LittleTiny.Proofs.Viability.Rules

/-!
# Scopes are paid for with tokens

The reader opens a scope only behind a token that it has taken for it: FUNCTION, IF, WHILE or ELSE.
So the scopes opened and the tokens ahead, counted together, never get more (`Cursor.worth`), and a
token that is taken leaves enough to open a scope. `Frugal` says so of a rule wherever it ends, at a
value or at an error. There is a theorem for each rule; they use each other as the rules do. The
reader then never opens more scopes than there are tokens (`Program.opened_le_length`), whether it
gets to their end or not.
-/

namespace LittleTiny

open Reading Cursor

/-! ## Generic rules -/

/-- The scopes opened and the tokens ahead, counted together. -/
def Cursor.worth (s : Cursor) : Nat := s.scopes + s.size

theorem Cursor.worth_opened (s : Cursor) : s.opened.worth = s.worth + 1 := Nat.add_right_comm _ _ _

namespace Reading

variable {α β : Type} {m n : Nat} {s t : Cursor}

/-- The cursor at which a rule ends, with a value or with an error. -/
def reached : Reading (Advance n α) → Cursor
  | .ok step => step.next
  | .error stop => stop.stop

/-- Wherever the rule ends, no more scopes have been opened since `s` than tokens taken. -/
def Frugal (s : Cursor) (r : Reading (Advance n α)) : Prop := r.reached.worth ≤ s.worth

/-- As `Frugal`, and a value leaves a token with which one more scope can be paid for. -/
inductive Saves (s : Cursor) : Reading (Advance n α) → Prop
  | ok {step : Advance n α} (h : step.next.worth < s.worth) : Saves s (.ok step)
  | error {stop : Stop} (h : stop.stop.worth ≤ s.worth) : Saves s (.error stop)

theorem Saves.frugal {r : Reading (Advance n α)} (h : Saves s r) : Frugal s r := by
  cases h with
  | ok h => exact Nat.le_of_lt h
  | error h => exact h

theorem Agrees.reached_eq {r : Reading (Advance m α)} {q : Reading (Advance n α)}
    (h : Agrees r q) : q.reached = r.reached := by
  cases h <;> rfl

theorem Yields.reached_eq {r : Reading (Advance n α)} {a : α} (h : r.Yields a t) :
    r.reached = t := by
  obtain ⟨-, rfl⟩ := h
  rfl

theorem Saves.of_agrees {r : Reading (Advance m α)} {q : Reading (Advance n α)} (hr : Saves s r)
    (h : Agrees r q) : Saves s q := by
  cases hr with
  | ok hlt =>
    cases h
    exact .ok hlt
  | error hle =>
    cases h
    exact .error hle

theorem Saves.after {h : t.size < n} {r : Reading (Advance t.size α)} (hr : Saves s r) :
    Saves s (r.after h) :=
  hr.of_agrees agrees_after

namespace Frugal

theorem of_agrees {r : Reading (Advance m α)} {q : Reading (Advance n α)} (hr : Frugal s r)
    (h : Agrees r q) : Frugal s q := by
  rw [Frugal, h.reached_eq]
  exact hr

theorem after {h : t.size < n} {r : Reading (Advance t.size α)} (hr : Frugal s r) :
    Frugal s (r.after h) :=
  hr.of_agrees agrees_after

theorem afterOpened {h : t.size < n} {r : Reading (Advance t.opened.size α)} (hr : Frugal s r) :
    Frugal s (@Reading.after α n t h r) :=
  Frugal.after (t := t) hr

theorem afterLoose {h : t.size < n} {r : Reading (Advance (t.size + 1) α)} (hr : Frugal s r) :
    Frugal s (r.afterLoose h) :=
  hr.of_agrees agrees_afterLoose

theorem loosen {r : Reading (Advance n α)} (hr : Frugal s r) : Frugal s r.loosen :=
  hr.of_agrees agrees_loosen

theorem trans {r : Reading (Advance n α)} (h : t.worth ≤ s.worth) (hr : Frugal t r) : Frugal s r :=
  Nat.le_trans hr h

theorem bind {r : Reading (Advance m α)} {f : Advance m α → Reading (Advance n β)}
    (hr : Frugal s r) (hf : ∀ a t h, Frugal t (f ⟨a, t, h⟩)) : Frugal s (r >>= f) := by
  cases r with
  | error stop => exact hr
  | ok step => exact .trans hr (hf step.value step.next step.shorter)

end Frugal

/-- Behind a token that was taken a scope can be opened. -/
theorem Saves.open_ {r : Reading (Advance m α)} {f : Advance m α → Reading (Advance n β)}
    (hr : Saves s r) (hf : ∀ a t h, Frugal t.opened (f ⟨a, t, h⟩)) : Frugal s (r >>= f) := by
  cases hr with
  | error h => exact h
  | @ok step h =>
    refine .trans ?_ (hf step.value step.next step.shorter)
    rw [worth_opened]
    exact h

theorem frugal_stay {a : α} : Frugal s (stay s a) := Nat.le_refl _

theorem frugal_pure {a : α} {h : s.size < n} : Frugal s (pure ⟨a, s, h⟩ : Reading (Advance n α)) :=
  Nat.le_refl _

theorem worth_fault {e : SyntaxError} : (s.fault e).stop.worth ≤ s.worth :=
  Nat.le_of_eq (congrArg worth stop_fault)

theorem frugal_fault {e : SyntaxError} :
    Frugal s (.error (s.fault e) : Reading (Advance n α)) :=
  worth_fault

theorem Settles.frugal {r : Reading (Advance n α)} (h : Settles s r) : Frugal s r := by
  obtain ⟨a, hlt, rfl⟩ | ⟨error, l, rfl⟩ := h
  · exact Nat.le_refl _
  · exact Nat.le_refl _

end Reading

/-! ## Single tokens -/

namespace Cursor

variable {α : Type} {s t : Cursor}

theorem Reads.worth_eq {ts : List (Located Token)} (h : s.Reads ts 0 t) :
    t.worth + ts.length = s.worth := by
  rw [worth, worth, size, size, h.1, h.2, List.length_append]
  omega

theorem worth_lt_of_take? {want : Token → Option α} {a : Located α} {h : t.size < s.size}
    (ht : s.take? want = some ⟨a, t, h⟩) : t.worth < s.worth := by
  obtain ⟨token, hs, -⟩ := reads_of_take? ht
  have hworth := hs.worth_eq
  rw [List.length_singleton] at hworth
  omega

theorem worth_lt_of_skip? {token : Token} {h : t.size < s.size}
    (ht : s.skip? token = some ⟨t, h⟩) : t.worth < s.worth := by
  obtain ⟨l, hs⟩ := (skip?_eq_some_iff.1 ht).reads
  have hworth := hs.worth_eq
  rw [List.length_singleton] at hworth
  omega

theorem saves_take (want : Token → Option α) (e : SyntaxError) : Saves s (s.take want e) := by
  unfold take
  cases ht : s.take? want with
  | none => exact .error worth_fault
  | some step => exact .ok (worth_lt_of_take? ht)

theorem saves_keyword (k : Keyword) : Saves s (s.keyword k) := saves_take _ _

theorem saves_identifier : Saves s s.identifier := saves_take _ _

theorem frugal_take (want : Token → Option α) (e : SyntaxError) : Frugal s (s.take want e) :=
  (saves_take want e).frugal

theorem frugal_keyword (k : Keyword) : Frugal s (s.keyword k) := frugal_take _ _

theorem frugal_operator (o : Operator) : Frugal s (s.operator o) := frugal_take _ _

theorem frugal_identifier : Frugal s s.identifier := frugal_take _ _

theorem frugal_names (s : Cursor) : Frugal s s.names := by
  rw [Cursor.names.eq_def s]
  refine frugal_identifier.bind fun name s₁ h₁ => ?_
  dsimp only
  split
  · exact frugal_pure
  · next s₂ g hskip =>
    have hmore : Frugal s₂ s₂.names := frugal_names s₂
    refine .trans (Nat.le_of_lt (worth_lt_of_skip? hskip)) ?_
    exact hmore.after.bind fun more s₃ h₃ => frugal_pure
termination_by s.size

end Cursor

/-! ## Expressions -/

namespace Expr

mutual

theorem frugal_parse (s : Cursor) : Frugal s (parse s) := by
  rw [parse]
  refine (frugal_parseProduct s).bind fun lhs s₁ h₁ => ?_
  exact (frugal_parseSumFrom lhs s₁).afterLoose
termination_by 6 * s.size + 3

theorem frugal_parseSumFrom (lhs : Expr) (s : Cursor) : Frugal s (parseSumFrom lhs s) := by
  rw [parseSumFrom.eq_def]
  split
  · exact frugal_stay
  · next op s₁ h₁ htake =>
    have hrest : ∀ rhs s₂ (_ : s₂.size < s.size),
        Frugal s₂ (parseSumFrom (.join op.value lhs rhs) s₂) :=
      fun rhs s₂ _ => frugal_parseSumFrom _ s₂
    refine .trans (Nat.le_of_lt (worth_lt_of_take? htake)) (.loosen ?_)
    exact (frugal_parseProduct s₁).after.bind fun rhs s₂ h₂ => (hrest rhs s₂ h₂).afterLoose
termination_by 6 * s.size

theorem frugal_parseProduct (s : Cursor) : Frugal s (parseProduct s) := by
  rw [parseProduct]
  refine (frugal_parseAtom s).bind fun lhs s₁ h₁ => ?_
  exact (frugal_parseProductFrom lhs s₁).afterLoose
termination_by 6 * s.size + 2

theorem frugal_parseProductFrom (lhs : Expr) (s : Cursor) : Frugal s (parseProductFrom lhs s) := by
  rw [parseProductFrom.eq_def]
  split
  · exact frugal_stay
  · next op s₁ h₁ htake =>
    have hrest : ∀ rhs s₂ (_ : s₂.size < s.size),
        Frugal s₂ (parseProductFrom (.join op.value lhs rhs) s₂) :=
      fun rhs s₂ _ => frugal_parseProductFrom _ s₂
    refine .trans (Nat.le_of_lt (worth_lt_of_take? htake)) (.loosen ?_)
    exact (frugal_parseAtom s₁).after.bind fun rhs s₂ h₂ => (hrest rhs s₂ h₂).afterLoose
termination_by 6 * s.size

theorem frugal_parseAtom (s : Cursor) : Frugal s (parseAtom s) := by
  rw [parseAtom]
  split
  · refine frugal_identifier.bind fun function s₁ h₁ => ?_
    refine (frugal_operator .openParen).after.bind fun _ s₂ h₂ => ?_
    refine (frugal_parseArguments s₂).afterLoose.bind fun arguments s₃ h₃ => ?_
    exact (frugal_operator .closeParen).after.bind fun _ _ _ => frugal_pure
  · split
    · next leaf s₁ h₁ htake => exact .trans (Nat.le_of_lt (worth_lt_of_take? htake)) frugal_pure
    · split
      · refine (frugal_operator .openParen).bind fun opening s₁ h₁ => ?_
        refine (frugal_parse s₁).after.bind fun e s₂ h₂ => ?_
        exact (frugal_operator .closeParen).after.bind fun _ _ _ => frugal_pure
      · exact frugal_fault
termination_by 6 * s.size + 1

theorem frugal_parseArguments (s : Cursor) : Frugal s (parseArguments s) := by
  rw [parseArguments]
  split
  · exact (frugal_parseList s).loosen
  · exact frugal_stay
termination_by 6 * s.size + 5

theorem frugal_parseList (s : Cursor) : Frugal s (parseList s) := by
  rw [parseList.eq_def s]
  refine (frugal_parse s).bind fun e s₁ h₁ => ?_
  dsimp only
  split
  · exact frugal_pure
  · next s₂ g hskip =>
    have hmore := frugal_parseList s₂
    refine .trans (Nat.le_of_lt (worth_lt_of_skip? hskip)) ?_
    exact hmore.after.bind fun more s₃ h₃ => frugal_pure
termination_by 6 * s.size + 4

end

end Expr

theorem Condition.frugal_parse (s : Cursor) : Frugal s (Condition.parse s) := by
  refine (Expr.frugal_parse s).bind fun lhs s₁ h₁ => ?_
  refine (frugal_take _ _).after.bind fun op s₂ h₂ => ?_
  exact (Expr.frugal_parse s₂).after.bind fun _ _ _ => frugal_pure

/-! ## Declarations -/

namespace Declaration

theorem frugal_parseText (scope : Scope) (s : Cursor) : Frugal s (parseText scope s) := by
  refine (frugal_keyword .string).bind fun _ s₁ h₁ => ?_
  refine frugal_identifier.after.bind fun name s₂ h₂ => ?_
  refine (frugal_operator .assign).after.bind fun _ s₃ h₃ => ?_
  refine (frugal_take _ _).after.bind fun value s₄ h₄ => ?_
  exact (frugal_operator .semicolon).after.bind fun _ s₅ h₅ => enters_declare.settles.frugal

theorem frugal_parseNumbers (scope : Scope) (s : Cursor) : Frugal s (parseNumbers scope s) := by
  refine (frugal_take _ _).bind fun type s₁ h₁ => ?_
  refine (frugal_names s₁).after.bind fun names s₂ h₂ => ?_
  exact (frugal_operator .semicolon).after.bind fun _ s₃ h₃ => enters_declareAll.settles.frugal

theorem frugal_parseAll (scope : Scope) (s : Cursor) : Frugal s (parseAll scope s) := by
  rw [parseAll]
  split
  · have hfirst : Frugal s (parse scope s) := by
      unfold parse
      split
      · exact frugal_parseText scope s
      · exact frugal_parseNumbers scope s
    refine .loosen (hfirst.bind fun d s₁ h₁ => ?_)
    have hmore := frugal_parseAll d.2 s₁
    exact hmore.afterLoose.bind fun _ _ _ => frugal_pure
  · exact frugal_stay
termination_by s.size

end Declaration

namespace Parameter

theorem frugal_parse (scope : Scope) (s : Cursor) : Frugal s (parse scope s) := by
  refine (frugal_take _ _).bind fun type s₁ h₁ => ?_
  exact frugal_identifier.after.bind fun name s₂ h₂ => enters_declare.settles.frugal

theorem frugal_parseList (scope : Scope) (s : Cursor) : Frugal s (parseList scope s) := by
  rw [parseList.eq_def]
  refine (frugal_parse scope s).bind fun p s₁ h₁ => ?_
  dsimp only
  split
  · exact frugal_pure
  · next s₂ g hskip =>
    have hmore := frugal_parseList p.2 s₂
    refine .trans (Nat.le_of_lt (worth_lt_of_skip? hskip)) ?_
    exact hmore.after.bind fun _ _ _ => frugal_pure
termination_by s.size

theorem frugal_parseAll (scope : Scope) (s : Cursor) : Frugal s (parseAll scope s) := by
  unfold parseAll
  split
  · exact (frugal_parseList scope s).loosen
  · exact frugal_stay

end Parameter

/-! ## Statements -/

namespace Statement

theorem frugal_parseAssign (s : Cursor) : Frugal s (parseAssign s) := by
  refine frugal_identifier.bind fun target s₁ h₁ => ?_
  refine (frugal_operator .assign).after.bind fun _ s₂ h₂ => ?_
  refine (Expr.frugal_parse s₂).after.bind fun value s₃ h₃ => ?_
  exact (frugal_operator .semicolon).after.bind fun _ _ _ => frugal_pure

theorem frugal_parseReturn (s : Cursor) : Frugal s (parseReturn s) := by
  refine (frugal_keyword .return_).bind fun _ s₁ h₁ => ?_
  refine (Expr.frugal_parse s₁).after.bind fun value s₂ h₂ => ?_
  exact (frugal_operator .semicolon).after.bind fun _ _ _ => frugal_pure

theorem frugal_parseNames (k : Keyword) (form : List (Located String) → Statement) (s : Cursor) :
    Frugal s (parseNames k form s) := by
  refine (frugal_keyword k).bind fun _ s₁ h₁ => ?_
  refine (frugal_operator .openParen).after.bind fun _ s₂ h₂ => ?_
  refine (frugal_names s₂).after.bind fun names s₃ h₃ => ?_
  refine (frugal_operator .closeParen).after.bind fun _ s₄ h₄ => ?_
  exact (frugal_operator .semicolon).after.bind fun _ _ _ => frugal_pure

/-- The word IF or WHILE pays for the scope that is opened behind it. -/
theorem frugal_parseHead (k : Keyword) (s : Cursor) : Frugal s (parseHead k s) := by
  refine (saves_keyword k).open_ fun _ s₁ h₁ => ?_
  refine (frugal_operator .openParen).afterOpened.bind fun _ s₂ h₂ => ?_
  refine (Condition.frugal_parse s₂).after.bind fun condition s₃ h₃ => ?_
  exact (frugal_operator .closeParen).after.bind fun _ _ _ => frugal_pure

end Statement

mutual

theorem Block.frugal_parse (scope : Scope) (s : Cursor) : Frugal s (Block.parse scope s) := by
  rw [Block.parse]
  refine (Declaration.frugal_parseAll scope s).bind fun ds s₁ h₁ => ?_
  have hstmts := Statement.frugal_parseAll ds.2 s₁
  exact hstmts.afterLoose.bind fun _ _ _ => frugal_pure
termination_by 4 * s.size + 3

theorem Statement.frugal_parseAll (scope : Scope) (s : Cursor) :
    Frugal s (Statement.parseAll scope s) := by
  rw [Statement.parseAll]
  split
  · refine .loosen ((Statement.frugal_parse scope s).bind fun st s₁ h₁ => ?_)
    have hmore := Statement.frugal_parseAll scope s₁
    exact hmore.afterLoose.bind fun _ _ _ => frugal_pure
  · exact frugal_stay
termination_by 4 * s.size + 2

theorem Statement.frugal_parse (scope : Scope) (s : Cursor) :
    Frugal s (Statement.parse scope s) := by
  rw [Statement.parse]
  split
  · exact Statement.frugal_parseIf scope s
  · exact Statement.frugal_parseWhile scope s
  · exact Statement.frugal_parseNames .read .read s
  · exact Statement.frugal_parseNames .write .write s
  · exact Statement.frugal_parseReturn s
  · exact Statement.frugal_parseAssign s
termination_by 4 * s.size + 1

theorem Statement.frugal_parseIf (scope : Scope) (s : Cursor) :
    Frugal s (Statement.parseIf scope s) := by
  rw [Statement.parseIf]
  refine (Statement.frugal_parseHead .if_ s).bind fun head s₁ h₁ => ?_
  have hbody := Block.frugal_parse (scope.nested head.1) s₁
  refine hbody.afterLoose.bind fun body s₂ h₂ => ?_
  dsimp only
  split
  · exact (frugal_keyword .endIf).after.bind fun _ _ _ => frugal_pure
  · next s₃ g hskip =>
    have h₃ : s₃.opened.size < s.size := size_lt_trans h₂ g
    have halternative := Block.frugal_parse (scope.nested s₃.opened.scopes) s₃.opened
    -- The word ELSE pays for the scope of the alternative.
    have hpaid : s₃.opened.worth ≤ s₂.worth := by
      rw [worth_opened]
      exact worth_lt_of_skip? hskip
    refine .trans hpaid (halternative.afterLoose.bind fun alternative s₄ h₄ => ?_)
    exact (frugal_keyword .endIf).after.bind fun _ _ _ => frugal_pure
termination_by 4 * s.size

theorem Statement.frugal_parseWhile (scope : Scope) (s : Cursor) :
    Frugal s (Statement.parseWhile scope s) := by
  rw [Statement.parseWhile]
  refine (Statement.frugal_parseHead .while_ s).bind fun head s₁ h₁ => ?_
  have hbody := Block.frugal_parse (scope.nested head.1) s₁
  refine hbody.afterLoose.bind fun body s₂ h₂ => ?_
  exact (frugal_keyword .endWhile).after.bind fun _ _ _ => frugal_pure
termination_by 4 * s.size

end

/-! ## Programs -/

namespace Function

theorem frugal_parse (outer : Scope) (s : Cursor) : Frugal s (parse outer s) := by
  refine (frugal_keyword .function).bind fun _ s₁ h₁ => ?_
  refine (frugal_take _ _).after.bind fun returns s₂ h₂ => ?_
  refine saves_identifier.after.open_ fun name s₃ h₃ => ?_
  refine (frugal_operator .openParen).afterOpened.bind fun _ s₄ h₄ => ?_
  refine (Parameter.frugal_parseAll _ s₄).afterLoose.bind fun parameters s₅ h₅ => ?_
  refine (frugal_operator .closeParen).after.bind fun _ s₆ h₆ => ?_
  refine (frugal_keyword .begin_).after.bind fun _ s₇ h₇ => ?_
  refine (Block.frugal_parse _ s₇).afterLoose.bind fun body s₈ h₈ => ?_
  exact (frugal_keyword .end_).after.bind fun _ _ _ => frugal_pure

theorem frugal_parseAll (outer : Scope) (s : Cursor) : Frugal s (parseAll outer s) := by
  rw [parseAll]
  split
  · refine .loosen ((frugal_parse outer s).bind fun f s₁ h₁ => ?_)
    have hmore := frugal_parseAll outer s₁
    exact hmore.afterLoose.bind fun _ _ _ => frugal_pure
  · exact frugal_stay
termination_by s.size

end Function

namespace Program

theorem frugal_parseWhole (s : Cursor) : Frugal s (parseWhole s) := by
  refine (frugal_keyword .program).bind fun _ s₁ h₁ => ?_
  refine frugal_identifier.after.bind fun name s₂ h₂ => ?_
  refine (frugal_keyword .begin_).after.bind fun _ s₃ h₃ => ?_
  refine (Declaration.frugal_parseAll _ s₃).afterLoose.bind fun globals s₄ h₄ => ?_
  refine (Function.frugal_parseAll _ s₄).afterLoose.bind fun functions s₅ h₅ => ?_
  refine (frugal_keyword .end_).after.bind fun end_ s₆ h₆ => ?_
  dsimp only
  split
  · exact frugal_pure
  · exact frugal_fault

/-- The number of scopes that are opened while the tokens are read, up to their end or to the first
error. The outermost scope is there from the start. -/
def opened (tokens : List (Located Token)) : Nat :=
  (parseWhole { ahead := tokens }).reached.scopes

theorem opened_le_length (tokens : List (Located Token)) : opened tokens ≤ tokens.length := by
  have hworth : _ ≤ 0 + tokens.length := frugal_parseWhole { ahead := tokens }
  rw [Cursor.worth, Nat.zero_add] at hworth
  exact Nat.le_trans (Nat.le_add_right _ _) hworth

/-- The scopes that are counted are those of the tree, numbered in the order of the count. -/
theorem map_id_scopes_of_parse {tokens : List (Located Token)} {p : Program}
    (h : parse tokens = .ok p) : p.scopes.map Scope.id = List.range (opened tokens + 1) := by
  obtain ⟨t, hwhole⟩ := parse_eq_ok_iff_yields.1 h
  have hopened : opened tokens = t.scopes := congrArg Cursor.scopes hwhole.reached_eq
  have hglobal : Scope.global.names.Nodup := List.nodup_nil
  obtain ⟨u₁, s₁, hy₁, name, s₂, hy₂, u₂, s₃, hy₃, ds, s₄, hy₄, fs, s₅, hy₅, end_, s₆, hy₆, -, rfl,
    rfl⟩ := yields_parseWhole.1 hwhole
  obtain ⟨decls, hdecls, -, hscope, -⟩ := Declaration.exists_decls_of_yields hglobal hy₄
  obtain ⟨funcs, hfuncs, rfl, -⟩ := Function.exists_funcs_of_yields hy₅
  have hbefore : Cursor.Reads _ _ 0 s₄ :=
    (reads_keyword hy₁).trans ((reads_identifier hy₂).trans ((reads_keyword hy₃).trans hdecls))
  have hall := hbefore.trans (hfuncs.trans (reads_keyword hy₆))
  have hfirst : s₄.scopes = 0 := hbefore.2
  have hlast : s₆.scopes = Grammar.Func.openingsAll funcs := by
    rw [hall.2, Nat.zero_add, Nat.zero_add, Nat.add_zero]
  have hid : ds.2.id = 0 := hscope ▸ Scope.id_add ..
  rw [Program.scopes, List.map_cons, Grammar.Func.map_id_scopesAll, hid, hfirst, hopened, hlast,
    List.range_eq_range', List.range'_succ]

end Program

end LittleTiny
