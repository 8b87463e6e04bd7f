import LittleTiny.Proofs.Nesting
import LittleTiny.Proofs.Vocabulary

/-!
# Elements of programs

Every value that a program shows is the text of a token: a name, a numeral or a string literal. None
of them has a newline in it, and no name ends with a slash. So the elements of a program that was
scanned are writable (`Program.writable_of_parse`), and the rows of its variables are lines
(`Program.inline_of_mem_cells`).
-/

namespace LittleTiny

theorem IsWord.notMem {cs : List Char} (h : IsWord cs) {c : Char}
    (hc : (Scan.isLetter c || Scan.isDigit c) = false) : c ∉ cs := by
  intro hmem
  have hall := h.2 c hmem
  rw [hc] at hall
  cases hall

theorem IsNumeral.notMem {cs : List Char} (h : IsNumeral cs) {c : Char}
    (hdigit : Scan.isDigit c = false) (hdot : c ≠ '.') : c ∉ cs := by
  intro hmem
  have hall : Scan.isDigit c ∨ c = '.' := by
    rcases h with ⟨-, hall⟩ | ⟨-, -, hall⟩
    · exact .inl (hall c hmem)
    · exact hall c hmem
  rcases hall with hall | hall
  · rw [hdigit] at hall
    cases hall
  · exact hdot hall

theorem IsWord.inline {s : String} (h : IsWord s.toList) : Text.Inline s := h.notMem rfl

theorem IsNumeral.inline {s : String} (h : IsNumeral s.toList) : Text.Inline s :=
  h.notMem rfl (by decide)

namespace Element

theorem writableAll_iff {es : List Element} : WritableAll es ↔ ∀ e ∈ es, e.Writable := by
  induction es with
  | nil => simp [WritableAll]
  | cons e es ih => rw [WritableAll, ih, List.forall_mem_cons]

theorem writable_leaf (tag : Tag) {value : String} (h : Text.Inline value) :
    (leaf tag value).Writable := by
  refine ⟨?_, by simp, trivial⟩
  rintro v ⟨⟩
  exact ⟨h, .inl rfl⟩

theorem writable_name {n : Located String} (h : IsWord n.value.toList) : (name n).Writable :=
  writable_leaf _ h.inline

theorem writable_branch (tag : Tag) {children : List Element} (h : ∀ e ∈ children, e.Writable) :
    (branch tag children).Writable :=
  ⟨by simp, by simp, writableAll_iff.2 h⟩

theorem writable_pair (tag : Tag) {e e' : Element} (h : e.Writable) (h' : e'.Writable) :
    (branch tag [e, e']).Writable :=
  writable_branch tag (List.forall_mem_cons.2 ⟨h, List.forall_mem_singleton.2 h'⟩)

theorem writable_branchIn {scope : Scope} (tag : Tag) {children : List Element}
    (hscope : ∀ v ∈ scope.declared, v.Inline) (h : ∀ e ∈ children, e.Writable) :
    (branchIn scope tag children).Writable := by
  refine ⟨by simp, ?_, writableAll_iff.2 h⟩
  intro s hs
  split at hs
  · cases hs
  · next hne =>
    obtain rfl := Option.some.inj hs
    exact ⟨rfl, mt List.isEmpty_iff.2 hne, hscope⟩

/-- The name of a function does not end like a whole element. -/
theorem writable_call {function : String} {arguments : List Element}
    (hname : IsWord function.toList) (h : WritableAll arguments) :
    (mk .call (some function) none arguments).Writable := by
  refine ⟨?_, by simp, h⟩
  rintro v ⟨⟩
  exact ⟨hname.inline, .inr fun hlast => hname.notMem rfl (List.mem_of_getLast? hlast)⟩

end Element

theorem Expr.element_relocate (l : Location) (e : Expr) : (e.relocate l).element = e.element := by
  cases e <;> rfl

namespace Grammar

open Element

/-! ## Expressions -/

mutual

theorem Sum.writable : ∀ {d : Sum}, AllSpelled d.tokens → d.tree.element.Writable
  | .mk first rest, h => by
    rw [Sum.tokens, allSpelled_append] at h
    exact rest.writable (first.writable h.1) h.2

theorem Terms.writable : ∀ {d : Terms} {lhs : Expr}, lhs.element.Writable →
    AllSpelled d.tokens → (d.tree lhs).element.Writable
  | .nil, lhs, hlhs, h => hlhs
  | .cons op operand rest, lhs, hlhs, h => by
    rw [Terms.tokens, allSpelled_cons, allSpelled_append] at h
    exact rest.writable (writable_pair _ hlhs (operand.writable h.2.1)) h.2.2

theorem Product.writable : ∀ {d : Product}, AllSpelled d.tokens → d.tree.element.Writable
  | .mk first rest, h => by
    rw [Product.tokens, allSpelled_append] at h
    exact rest.writable (first.writable h.1) h.2

theorem Factors.writable : ∀ {d : Factors} {lhs : Expr}, lhs.element.Writable →
    AllSpelled d.tokens → (d.tree lhs).element.Writable
  | .nil, lhs, hlhs, h => hlhs
  | .cons op operand rest, lhs, hlhs, h => by
    rw [Factors.tokens, allSpelled_cons, allSpelled_append] at h
    exact rest.writable (writable_pair _ hlhs (operand.writable h.2.1)) h.2.2

theorem Atom.writable : ∀ {d : Atom}, AllSpelled d.tokens → d.tree.element.Writable
  | .call function opening arguments closing, h => by
    have hname := isWord_of_identifier h
    rw [Atom.tokens, allSpelled_cons, allSpelled_cons, allSpelled_append] at h
    exact writable_call hname (arguments.writable h.2.2.1)
  | .paren opening inner closing, h => by
    rw [Atom.tokens, allSpelled_cons, allSpelled_append] at h
    rw [Atom.tree, enclosed_eq_relocate, Expr.element_relocate]
    exact inner.writable h.2.1
  | .var name, h => writable_name (isWord_of_identifier h)
  | .int digits, h => by
    have hdigits : IsWhole digits.value.toList := (allSpelled_cons.1 h).1
    exact writable_leaf _ (IsNumeral.inline (.inl hdigits))
  | .float digits, h => by
    have hdigits : IsDecimal digits.value.toList := (allSpelled_cons.1 h).1
    exact writable_leaf _ (IsNumeral.inline (.inr hdigits))

theorem Arguments.writable : ∀ {d : Arguments}, AllSpelled d.tokens →
    WritableAll (Expr.elements d.trees)
  | .none, h => trivial
  | .some first rest, h => by
    rw [Arguments.tokens, allSpelled_append] at h
    exact ⟨first.writable h.1, rest.writable h.2⟩

theorem MoreArguments.writable : ∀ {d : MoreArguments}, AllSpelled d.tokens →
    WritableAll (Expr.elements d.trees)
  | .nil, h => trivial
  | .cons comma argument rest, h => by
    rw [MoreArguments.tokens, allSpelled_cons, allSpelled_append] at h
    exact ⟨argument.writable h.2.1, rest.writable h.2.2⟩

end

theorem writable_of_headTokens {opening closing : Location} {d : Cond}
    (h : AllSpelled (headTokens opening d closing)) : d.tree.element.Writable := by
  rw [headTokens, allSpelled_cons, allSpelled_append, Cond.tokens, allSpelled_append,
    allSpelled_cons] at h
  refine writable_branch _ (List.forall_mem_singleton.2 ?_)
  exact writable_pair _ (d.lhs.writable h.2.1.1) (d.rhs.writable h.2.1.2.2)

/-! ## Declarations -/

theorem writable_of_names {names : Separated (Located String)}
    (h : AllSpelled (names.tokens fun name => [identifier name])) :
    ∀ e ∈ names.toList.map Element.name, e.Writable := by
  rw [List.forall_mem_map]
  exact fun name hname => writable_name (isWord_of_identifier (Separated.allSpelled_of_mem h hname))

theorem Decl.writable {d : Decl} (h : AllSpelled d.tokens) : d.tree.element.Writable := by
  cases d with
  | text string name becomes value semicolon =>
    simp only [Decl.tokens, allSpelled_cons] at h
    obtain ⟨-, ⟨hname, -⟩, -, hvalue, -⟩ := h
    have hinline : Text.Inline value.value := fun hmem => (hvalue _ hmem).2 rfl
    exact writable_pair _ (writable_name hname) (writable_leaf _ hinline)
  | numbers type names semicolon =>
    rw [Decl.tokens, allSpelled_cons, allSpelled_append] at h
    exact writable_branch _ (List.forall_mem_cons.2
      ⟨writable_branch _ (by simp), writable_of_names h.2.1⟩)

theorem Decl.writableAll {ds : List Decl} (h : AllSpelled (ds.flatMap Decl.tokens)) :
    ∀ e ∈ (ds.map Decl.tree).map Declaration.element, e.Writable := by
  rw [List.map_map, List.forall_mem_map]
  exact fun d hd => Decl.writable (h.of_mem_flatMap hd)

/-- The variables of a declaration have rows of one line. -/
theorem Decl.inline {d : Decl} (h : AllSpelled d.tokens) (id : Nat) :
    ∀ v ∈ d.tree.declared id, v.Inline := by
  cases d with
  | text string name becomes value semicolon =>
    simp only [Decl.tokens, allSpelled_cons] at h
    obtain ⟨-, ⟨hname, -⟩, -, hvalue, -⟩ := h
    refine List.forall_mem_singleton.2 ⟨hname.inline, ?_⟩
    rintro x ⟨⟩
    exact fun hmem => (hvalue _ hmem).2 rfl
  | numbers type names semicolon =>
    rw [Decl.tokens, allSpelled_cons, allSpelled_append] at h
    refine List.forall_mem_map.2 fun name hname => ⟨?_, by simp⟩
    exact (isWord_of_identifier (Separated.allSpelled_of_mem h.2.1 hname)).inline

theorem Decl.inlineAll {ds : List Decl} (h : AllSpelled (ds.flatMap Decl.tokens)) (id : Nat) :
    ∀ v ∈ Decl.declared id ds, v.Inline := by
  intro v hv
  obtain ⟨d, hd, hv⟩ := List.mem_flatMap.1 hv
  exact Decl.inline (h.of_mem_flatMap hd) id v hv

theorem Params.inline {ps : Params} (h : AllSpelled ps.tokens) (id : Nat) :
    ∀ v ∈ Param.declared id ps.toList, v.Inline := by
  intro v hv
  obtain ⟨p, hp, rfl⟩ := List.mem_map.1 hv
  exact ⟨(Params.words h _ (List.mem_map_of_mem hp)).inline, by simp [Parameter.variable]⟩

/-! ## Statements -/

mutual

theorem Stmt.writable : ∀ {d : Stmt} {scope : Scope} {n : Nat}, AllSpelled d.tokens →
    (d.tree scope n).element.Writable
  | .assign target becomes value semicolon, scope, n, h => by
    have hname := isWord_of_identifier h
    rw [Stmt.tokens, allSpelled_cons, allSpelled_cons, allSpelled_append] at h
    exact writable_pair _ (writable_name hname) (value.writable h.2.2.1)
  | .read read opening names closing semicolon, scope, n, h => by
    rw [Stmt.tokens, listTokens, allSpelled_cons, allSpelled_cons, allSpelled_append] at h
    exact writable_branch _ (writable_of_names h.2.2.1)
  | .write write opening names closing semicolon, scope, n, h => by
    rw [Stmt.tokens, listTokens, allSpelled_cons, allSpelled_cons, allSpelled_append] at h
    exact writable_branch _ (writable_of_names h.2.2.1)
  | .ifThen if_ opening condition closing body endIf, scope, n, h => by
    rw [Stmt.tokens, allSpelled_cons, allSpelled_append, allSpelled_append] at h
    exact writable_branch _ (List.forall_mem_cons.2
      ⟨writable_of_headTokens h.2.1.1, body.writable (by simp [Scope.nested]) h.2.1.2⟩)
  | .ifElse if_ opening condition closing body else_ alternative endIf, scope, n, h => by
    rw [Stmt.tokens, allSpelled_cons, allSpelled_append, allSpelled_append, allSpelled_cons,
      allSpelled_append] at h
    exact writable_branch _ (List.forall_mem_cons.2 ⟨writable_of_headTokens h.2.1.1,
      List.forall_mem_append.2 ⟨body.writable (by simp [Scope.nested]) h.2.1.2,
        alternative.writable (by simp [Scope.nested]) h.2.2.2.1⟩⟩)
  | .loop while_ opening condition closing body endWhile, scope, n, h => by
    rw [Stmt.tokens, allSpelled_cons, allSpelled_append, allSpelled_append] at h
    exact writable_branch _ (List.forall_mem_cons.2
      ⟨writable_of_headTokens h.2.1.1, body.writable (by simp [Scope.nested]) h.2.1.2⟩)
  | .return_ start value semicolon, scope, n, h => by
    rw [Stmt.tokens, allSpelled_cons, allSpelled_append] at h
    exact writable_branch _ (List.forall_mem_singleton.2 (value.writable h.2.1))

theorem Body.writable : ∀ {b : Body} {scope : Scope} {n : Nat},
    (∀ v ∈ scope.declared, v.Inline) → AllSpelled b.tokens →
    ∀ e ∈ (b.tree scope n).elements, e.Writable
  | ⟨decls, stmts⟩, scope, n, hscope, h => by
    rw [Body.tokens, allSpelled_append] at h
    have hdeclared : ∀ v ∈ (scope.add (Decl.declared scope.id decls)).declared, v.Inline := by
      rw [Scope.declared_add]
      exact List.forall_mem_append.2 ⟨hscope, Decl.inlineAll h.1 scope.id⟩
    refine List.forall_mem_cons.2 ⟨writable_branch _ (Decl.writableAll h.1), ?_⟩
    exact List.forall_mem_singleton.2
      (writable_branchIn _ hdeclared (writableAll_iff.1 (Stmt.writableAll h.2)))

theorem Stmt.writableAll : ∀ {ds : List Stmt} {scope : Scope} {n : Nat},
    AllSpelled (Stmt.tokensAll ds) → WritableAll (Statement.elements (Stmt.trees scope n ds))
  | [], scope, n, h => trivial
  | d :: ds, scope, n, h => by
    rw [Stmt.tokensAll, allSpelled_append] at h
    exact ⟨d.writable h.1, Stmt.writableAll h.2⟩

end

mutual

theorem Stmt.inline : ∀ {d : Stmt} {scope : Scope} {n : Nat}, AllSpelled d.tokens →
    ∀ v ∈ (d.tree scope n).cells, v.Inline
  | .assign .., scope, n, h => by simp [Stmt.tree, Statement.cells]
  | .read .., scope, n, h => by simp [Stmt.tree, Statement.cells]
  | .write .., scope, n, h => by simp [Stmt.tree, Statement.cells]
  | .ifThen if_ opening condition closing body endIf, scope, n, h => by
    rw [Stmt.tokens, allSpelled_cons, allSpelled_append, allSpelled_append] at h
    exact body.inline h.2.1.2
  | .ifElse if_ opening condition closing body else_ alternative endIf, scope, n, h => by
    rw [Stmt.tokens, allSpelled_cons, allSpelled_append, allSpelled_append, allSpelled_cons,
      allSpelled_append] at h
    exact List.forall_mem_append.2 ⟨body.inline h.2.1.2, alternative.inline h.2.2.2.1⟩
  | .loop while_ opening condition closing body endWhile, scope, n, h => by
    rw [Stmt.tokens, allSpelled_cons, allSpelled_append, allSpelled_append] at h
    exact body.inline h.2.1.2
  | .return_ .., scope, n, h => by simp [Stmt.tree, Statement.cells]

theorem Body.inline : ∀ {b : Body} {scope : Scope} {n : Nat}, AllSpelled b.tokens →
    ∀ v ∈ (b.tree scope n).cells, v.Inline
  | ⟨decls, stmts⟩, scope, n, h => by
    rw [Body.tokens, allSpelled_append] at h
    rw [Body.tree, Block.cells, List.forall_mem_append, Block.frame, List.flatMap_map]
    exact ⟨Decl.inlineAll h.1 _, Stmt.inlineAll h.2⟩

theorem Stmt.inlineAll : ∀ {ds : List Stmt} {scope : Scope} {n : Nat},
    AllSpelled (Stmt.tokensAll ds) → ∀ v ∈ Statement.cellsAll (Stmt.trees scope n ds), v.Inline
  | [], scope, n, h => by simp [Stmt.trees, Statement.cellsAll]
  | d :: ds, scope, n, h => by
    rw [Stmt.tokensAll, allSpelled_append] at h
    exact List.forall_mem_append.2 ⟨d.inline h.1, Stmt.inlineAll h.2⟩

end

/-! ## Programs -/

theorem Func.writable {f : Func} (h : AllSpelled f.tokens) (outer : Scope) (n : Nat) :
    (f.tree outer n).element.Writable := by
  obtain ⟨hparameters, hbody⟩ := Func.allSpelled_parts h
  have hname : IsWord f.name.value.toList :=
    isWord_of_identifier (allSpelled_cons.1 (allSpelled_cons.1 h).2).2
  have hwords := Params.words hparameters
  have hscope : ∀ v ∈ (f.scope outer (n + 1)).declared, v.Inline := by
    rw [declared_scope]
    exact Params.inline hparameters (n + 1)
  refine writable_branch _ (List.forall_mem_append.2 ⟨?_, Body.writable hscope hbody⟩)
  refine List.forall_mem_cons.2 ⟨writable_branch _ (by simp), List.forall_mem_cons.2
    ⟨writable_name hname, List.forall_mem_singleton.2 (writable_branch _ ?_)⟩⟩
  rw [Func.tree, List.map_map, List.forall_mem_map]
  intro p hp
  exact writable_pair _ (writable_branch _ (by simp))
    (writable_name (hwords _ (List.mem_map_of_mem hp)))

theorem Prog.writable {p : Prog} (h : AllSpelled p.tokens) : p.tree.element.Writable := by
  obtain ⟨hglobals, hfunctions⟩ := Prog.allSpelled_parts h
  have hname : IsWord p.name.value.toList := isWord_of_identifier (allSpelled_cons.1 h).2
  have hscope : ∀ v ∈ p.scope.declared, v.Inline := by
    rw [declared_scope]
    exact Decl.inlineAll hglobals 0
  refine writable_branch _ (List.forall_mem_cons.2 ⟨writable_name hname, List.forall_mem_cons.2
    ⟨writable_branchIn _ hscope (Decl.writableAll hglobals),
      List.forall_mem_singleton.2 (writable_branch _ (List.forall_mem_map.2 ?_))⟩⟩)
  intro f hf
  obtain ⟨d, hd, n, rfl⟩ := Func.exists_of_mem_trees hf
  exact Func.writable (hfunctions d hd) p.scope n

theorem Prog.inline {p : Prog} (h : AllSpelled p.tokens) : ∀ v ∈ p.tree.cells, v.Inline := by
  obtain ⟨hglobals, hfunctions⟩ := Prog.allSpelled_parts h
  refine List.forall_mem_append.2 ⟨?_, ?_⟩
  · rw [← Prog.frame_tree, Prog.tree, declared_scope]
    exact Decl.inlineAll hglobals 0
  · intro v hv
    obtain ⟨f, hf, hv⟩ := List.mem_flatMap.1 hv
    obtain ⟨d, hd, n, rfl⟩ := Func.exists_of_mem_trees hf
    obtain ⟨hparameters, hbody⟩ := Func.allSpelled_parts (hfunctions d hd)
    rcases List.mem_append.1 hv with hv | hv
    · rw [Func.tree, List.map_map] at hv
      exact Params.inline hparameters _ v hv
    · exact Body.inline hbody v hv

end Grammar

namespace Program

open Grammar

variable {cs : List (Char × Position)} {tokens : List (Located Token)} {p : Program}

/-- The elements of a program that was scanned are writable. -/
theorem writable_of_parse (hscan : Scan.scan cs = .ok tokens) (hparse : parse tokens = .ok p) :
    p.element.Writable := by
  obtain ⟨d, rfl, -, rfl⟩ := parse_eq_ok_iff.1 hparse
  exact Prog.writable (Scan.spelled_of_scan hscan)

/-- The variables of a program that was scanned have rows of one line. -/
theorem inline_of_mem_cells (hscan : Scan.scan cs = .ok tokens) (hparse : parse tokens = .ok p) :
    ∀ v ∈ p.cells, v.Inline := by
  obtain ⟨d, rfl, -, rfl⟩ := parse_eq_ok_iff.1 hparse
  exact Prog.inline (Scan.spelled_of_scan hscan)

end Program

end LittleTiny
