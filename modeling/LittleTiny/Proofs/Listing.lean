import LittleTiny.Proofs.Declarations

/-!
# Variables in the listing

A listing declares each variable that its code declares by one line (`Tiny.declares?_emit`), and a
line of it belongs to an instruction, with the lines of the instructions before standing before it
(`Tiny.exists_of_emit_eq`). What is known of the declarations in the code is thereby known of those
in the listing: no name is declared twice, and none is used before it is declared.
-/

namespace LittleTiny

namespace Tiny

namespace Line

/-- The name that a line declares. -/
def declares? : Line → Option String
  | var name => some name
  | str name _ => some name
  | _ => none

/-- Whether a line declares a text. -/
def isText : Line → Bool
  | str _ _ => true
  | _ => false

/-- The operands of a line that moves, reads or writes, as they are printed. -/
def operands : Line → List String
  | move source target => [source.text, target.text]
  | read _ name => [name]
  | write _ name => [name]
  | _ => []

end Line

/-! ## Lines of instructions -/

theorem declares?_declaration (v : Variable) : (declaration v).declares? = some v.mangled := by
  unfold declaration
  cases v.type <;> rfl

theorem isText_declaration (v : Variable) : (declaration v).isText ↔ v.type = .string := by
  unfold declaration
  cases v.type <;> simp [Line.isText]

theorem operands_declaration (v : Variable) : (declaration v).operands = [] := by
  unfold declaration
  cases v.type <;> rfl

theorem emit_append (code code' : Code) : emit (code ++ code') = emit code ++ emit code' :=
  List.flatMap_append ..

theorem emit_cons (i : Instruction) (code : Code) :
    emit (i :: code) = emitInstruction i ++ emit code :=
  List.flatMap_cons ..

theorem declares?_emitInstruction (i : Instruction) :
    (emitInstruction i).filterMap Line.declares? = i.declared.map Variable.mangled := by
  cases i with
  | declare scope =>
    show (scope.declared.map declaration).filterMap Line.declares? = _
    rw [List.filterMap_map, ← List.filterMap_eq_map]
    exact List.filterMap_congr fun v _ => declares?_declaration v
  | _ => rfl

/-- The names that a listing declares are those of the variables that the code declares. -/
theorem declares?_emit (code : Code) :
    (emit code).filterMap Line.declares? = code.declared.map Variable.mangled := by
  induction code with
  | nil => rfl
  | cons i code ih =>
    rw [emit_cons, List.filterMap_append, ih, declares?_emitInstruction, ← List.map_append]
    rfl

/-- A line that declares a name declares a variable of the code. -/
theorem exists_of_declares? {i : Instruction} {line : Line} (hline : line ∈ emitInstruction i)
    {name : String} (h : line.declares? = some name) :
    ∃ v ∈ i.declared, line = declaration v ∧ v.mangled = name := by
  cases i with
  | declare scope =>
    obtain ⟨v, hv, rfl⟩ := List.mem_map.1 hline
    rw [declares?_declaration] at h
    exact ⟨v, hv, rfl, Option.some.inj h⟩
  | arith op of lhs rhs out =>
    rcases List.mem_pair.1 hline with rfl | rfl <;> cases h
  | branch test of lhs rhs target =>
    rcases List.mem_pair.1 hline with rfl | rfl <;> cases h
  | _ =>
    cases List.mem_singleton.1 hline
    cases h

/-- An operand that is printed like a variable is a variable. -/
theorem exists_cell_of_text {o : LittleTiny.Operand} (hn : Numerals o.literals) {v : Variable}
    (h : v.mangled = (operand o).text) : ∃ v' ∈ o.cells, v'.mangled = v.mangled := by
  cases o with
  | temp t => exact absurd h.symm (register_text_ne_mangled t v)
  | var v' => exact ⟨v', List.mem_singleton_self v', h.symm⟩
  | literal digits =>
    have hnumeral := isNumeral_of_isNumeral (hn digits (List.mem_singleton_self digits))
    have hdigits : v.mangled = digits := h
    rw [← hdigits, isNumeral_mangled] at hnumeral
    cases hnumeral

/-- A variable in a line of an instruction is used by the instruction. -/
theorem exists_use_of_operands {i : Instruction} (hn : Numerals i.literals) {line : Line}
    (hline : line ∈ emitInstruction i) {v : Variable} (h : v.mangled ∈ line.operands) :
    ∃ v' ∈ i.uses, v'.mangled = v.mangled := by
  cases i with
  | declare scope =>
    obtain ⟨v', -, rfl⟩ := List.mem_map.1 hline
    rw [operands_declaration] at h
    cases h
  | arith op of lhs rhs out =>
    rcases List.mem_pair.1 hline with rfl | rfl
    · rcases List.mem_pair.1 h with h | h
      · exact absurd h.symm (register_text_ne_mangled lhs v)
      · exact absurd h.symm (register_text_ne_mangled out v)
    · cases h
  | store of source target =>
    cases List.mem_singleton.1 hline
    obtain ⟨hsource, htarget⟩ := List.forall_mem_append.1 hn
    rcases List.mem_pair.1 h with h | h
    · obtain ⟨v', hv', heq⟩ := exists_cell_of_text hsource h
      exact ⟨v', List.mem_append_left _ hv', heq⟩
    · obtain ⟨v', hv', heq⟩ := exists_cell_of_text htarget h
      exact ⟨v', List.mem_append_right _ hv', heq⟩
  | branch test of lhs rhs target =>
    rcases List.mem_pair.1 hline with rfl | rfl <;> cases h
  | jump target =>
    cases List.mem_singleton.1 hline
    cases h
  | label name =>
    cases List.mem_singleton.1 hline
    cases h
  | read of v' =>
    cases List.mem_singleton.1 hline
    exact ⟨v', List.mem_singleton_self v', (List.mem_singleton.1 h).symm⟩
  | write v' =>
    cases List.mem_singleton.1 hline
    exact ⟨v', List.mem_singleton_self v', (List.mem_singleton.1 h).symm⟩

/-- A line of a listing comes from an instruction, behind the lines of the instructions before. -/
theorem exists_of_emit_eq {code : Code} : ∀ {lines after : List Line} {line : Line},
    emit code = lines ++ line :: after →
    ∃ before i rest, code = before ++ i :: rest ∧ line ∈ emitInstruction i ∧
      emit before <+: lines := by
  induction code with
  | nil =>
    intro lines after line h
    cases lines <;> cases h
  | cons i code ih =>
    intro lines after line h
    rw [emit_cons, List.append_eq_append_iff] at h
    rcases h with ⟨lines', rfl, h⟩ | ⟨tail, hi, h⟩
    · obtain ⟨before, i', rest, rfl, hline, hle⟩ := ih h
      refine ⟨i :: before, i', rest, rfl, hline, ?_⟩
      rw [emit_cons]
      exact (List.prefix_append_right_inj _).2 hle
    · cases tail with
      | nil =>
        -- The line is the first one behind those of `i`.
        have hrest : emit code = [] ++ line :: after := h.symm
        obtain ⟨before, i', rest, rfl, hline, hle⟩ := ih hrest
        refine ⟨i :: before, i', rest, rfl, hline, [], ?_⟩
        rw [emit_cons, List.prefix_nil.1 hle, hi]
        simp only [List.append_nil]
      | cons line' tail =>
        obtain ⟨rfl, -⟩ := List.cons.inj h
        exact ⟨[], i, code, rfl, hi ▸ List.mem_append_right _ List.mem_cons_self,
          List.nil_prefix⟩

end Tiny

/-! ## Compilations -/

/-- Each variable is declared once, before it is used, and under a name of its own. -/
structure Compilation.WellDeclared (c : Compilation) : Prop where
  /-- No two lines declare the same name. -/
  nodup : ((Tiny.emit c.code).filterMap Tiny.Line.declares?).Nodup
  /-- The name of a variable in a line that moves, reads or writes is declared by a line before. -/
  earlier : ∀ (before after : List Tiny.Line) (line : Tiny.Line) (v : Variable),
    Tiny.emit c.code = before ++ line :: after → v.mangled ∈ line.operands →
      v.mangled ∈ before.filterMap Tiny.Line.declares?
  /-- What is declared is a variable of the program, as a text if it holds one. -/
  text_iff : ∀ line ∈ Tiny.emit c.code, ∀ name, line.declares? = some name →
    ∃ v ∈ c.program.cells, v.mangled = name ∧ (line.isText ↔ v.type = .string)
  /-- The code declares the scopes with variables of the program and of the blocks of `main`, in
  the order in which they are opened. -/
  scopes_eq : ∃ main, c.program.HasMain main ∧
    c.code.scopes = (c.program.scope :: main.body.scopes).filter Scope.inhabited ∧
      ((c.program.scope :: main.body.scopes).map Scope.id).Pairwise (· < ·)
  /-- No two variables of the program have the same name in the code. -/
  nodup_mangled : (c.program.cells.map Variable.mangled).Nodup

/-- The variables of a source that compiles are well declared. -/
theorem compile_wellDeclared {source : Source} {c : Compilation} (h : compile source = .ok c) :
    c.WellDeclared := by
  obtain ⟨hscan, hparse, hlower⟩ := phases_of_compile h
  obtain ⟨main, body, s, hcode⟩ := Program.exists_loweredTo hparse hlower
  have hscoped := Program.wellScoped_of_parse hparse
  have hsublist := hcode.declared_sublist hscoped
  have hmangled := Program.nodup_mangled hscan hparse
  have hmain := Program.main?_eq_some_iff.1 hcode.main_eq
  refine ⟨?_, ?_, ?_, ⟨main, hmain, hcode.scopes_eq, ?_⟩, hmangled⟩
  · rw [Tiny.declares?_emit]
    exact hmangled.sublist (hsublist.map Variable.mangled)
  · intro before after line v hlines hv
    obtain ⟨code, i, rest, heq, hline, hle⟩ := Tiny.exists_of_emit_eq hlines
    have hnumerals := (Program.emittable hscan hparse hlower).numerals
    have hfirst := hcode.declaresFirst
    rw [heq] at hnumerals hfirst
    have hi : Numerals i.literals := fun digits hd => hnumerals digits
      (List.mem_flatMap.2 ⟨i, List.mem_append_right _ List.mem_cons_self, hd⟩)
    obtain ⟨v', hv', hname⟩ := Tiny.exists_use_of_operands hi hline hv
    have hdeclared : v' ∈ Code.declared code := hfirst.uses_subset hv'
    refine (hle.sublist.filterMap Tiny.Line.declares?).subset ?_
    rw [Tiny.declares?_emit, ← hname]
    exact List.mem_map_of_mem hdeclared
  · intro line hline name hname
    obtain ⟨i, hi, hline⟩ := List.mem_flatMap.1 hline
    obtain ⟨v, hv, rfl, rfl⟩ := Tiny.exists_of_declares? hline hname
    exact ⟨v, hsublist.subset (List.mem_flatMap.2 ⟨i, hi, hv⟩), rfl, Tiny.isText_declaration v⟩
  · obtain ⟨n, hn⟩ := hscoped.map_id
    refine List.Pairwise.sublist ((Program.scopes_sublist hcode.main_eq).map Scope.id) ?_
    rw [hn]
    exact List.pairwise_lt_range

/-- A program with a text, a parameter that nothing of `main` sees, and names declared in more than
one scope. -/
def shadowing : Source where
  name := "shadowing"
  lines := [
    "PROGRAM p BEGIN STRING s := \"a b\"; INT a, x1;",
    "FUNCTION VOID f(INT a) BEGIN INT b; END",
    "FUNCTION VOID main() BEGIN FLOAT a; READ(a);",
    "WHILE (a > 1.5) INT x1; x1 := 2; a := a - x1; IF (a = 0) WRITE(s); ELSE INT a; READ(a); ENDIF",
    "ENDWHILE WRITE(a, s); END END"]

theorem compile_wellDeclared_shadowing :
    ∃ c, compile shadowing = .ok c ∧ c.code.scopes.map Scope.id = [0, 2, 3, 5] ∧
      c.WellDeclared := by
  have hids : ((compile shadowing).toOption.map fun c => c.code.scopes.map Scope.id) =
      some [0, 2, 3, 5] := by decide +kernel
  cases hc : compile shadowing with
  | error e =>
    rw [hc] at hids
    cases hids
  | ok c =>
    rw [hc] at hids
    exact ⟨c, rfl, Option.some.inj hids, compile_wellDeclared hc⟩

end LittleTiny
