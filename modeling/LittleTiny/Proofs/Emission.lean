import LittleTiny.Proofs.Execution
import LittleTiny.Proofs.Listing
import LittleTiny.Proofs.Machine

/-!
# Emission preserves meaning

The listing of code follows the code: a temporary is the register of its number, a declared variable
is what its name holds, and the counter stands at the first line of the next instruction
(`Matches`). Each instruction is answered by the run of its lines (`Matches.answered`), where a
declaration without variables has none. So the listing halts exactly when the code does, in a world
with the same cells.
-/

namespace LittleTiny.Tiny

universe u

variable {V : Type u} {N : Interpretation V} {code : Code}

/-! ## Places of lines -/

/-- The first line of the instruction at the place. -/
def lineOf (code : Code) (place : Nat) : Nat := (emit (code.take place)).length

theorem lineOf_succ {place : Nat} {i : Instruction} (hi : code[place]? = some i) :
    lineOf code (place + 1) = lineOf code place + (emitInstruction i).length := by
  unfold lineOf
  rw [List.take_add_one, hi, emit_append, List.length_append]
  congr 1
  simp [emit]

theorem lineOf_length (code : Code) : lineOf code code.length = (listing code).length := by
  rw [lineOf, List.take_length, listing, List.length_map]

theorem getElem?_listing {place : Nat} {i : Instruction} (hi : code[place]? = some i) {j : Nat}
    {line : Line} (hj : (emitInstruction i)[j]? = some line) :
    (listing code)[lineOf code place + j]? = some line.words := by
  obtain ⟨hlt, rfl⟩ := List.getElem?_eq_some_iff.1 hi
  have hcode : emit code = emit (code.take place) ++
      (emitInstruction code[place] ++ emit (code.drop (place + 1))) := by
    rw [← emit_cons, ← emit_append, List.getElem_cons_drop, List.take_append_drop]
  have hline := (List.getElem?_eq_some_iff.1 hj).1
  rw [listing, List.getElem?_map, hcode, lineOf, List.getElem?_append_right (Nat.le_add_right _ _),
    Nat.add_sub_cancel_left, List.getElem?_append_left hline, hj]
  rfl

theorem lineOf_lt {place : Nat} {i : Instruction} (hi : code[place]? = some i) {j : Nat}
    {line : Line} (hj : (emitInstruction i)[j]? = some line) :
    lineOf code place + j < (listing code).length :=
  (List.getElem?_eq_some_iff.1 (getElem?_listing hi hj)).1

theorem words_eq_label_iff {line : Line} {l : Label} :
    line.words = ["label", l.text] ↔ line = .label l := by
  constructor
  · intro h
    cases line with
    | label name =>
      have htext : name.text = l.text := by simpa [Line.words] using h
      rw [Label.eq_of_text_eq htext]
    | jumpIf test target => cases test <;> simp [Line.words, jumpName] at h
    | _ => simp [Line.words] at h
  · rintro rfl
    rfl

theorem label_mem_emitInstruction {i : Instruction} {l : Label}
    (h : Line.label l ∈ emitInstruction i) : i = .label l := by
  cases i with
  | declare scope =>
    obtain ⟨v, -, hv⟩ := List.mem_map.1 h
    unfold declaration at hv
    cases htype : v.type <;> rw [htype] at hv <;> cases hv
  | label name =>
    cases List.mem_singleton.1 h
    rfl
  | _ => simp [emitInstruction] at h

/-- A label is found in the listing at the line of the instruction that has it. -/
theorem findIdx?_label (code : Code) (l : Label) :
    (listing code).findIdx? (fun words => words == ["label", l.text]) =
      (code.place? l).map (lineOf code) := by
  induction code with
  | nil => rfl
  | cons i code ih =>
    have hlisting : listing (i :: code) = (emitInstruction i).map Line.words ++ listing code := by
      rw [listing, emit_cons, List.map_append]
      rfl
    rw [hlisting, List.findIdx?_append, ih, Code.place?_cons]
    by_cases h : i = .label l
    · subst h
      simp [emitInstruction, Line.words, lineOf, emit]
    · have hnone : ((emitInstruction i).map Line.words).findIdx?
          (fun words => words == ["label", l.text]) = none := by
        rw [List.findIdx?_eq_none_iff]
        intro words hwords
        obtain ⟨line, hline, rfl⟩ := List.mem_map.1 hwords
        rw [beq_eq_false_iff_ne]
        intro heq
        rw [words_eq_label_iff.1 heq] at hline
        exact h (label_mem_emitInstruction hline)
      rw [hnone, if_neg h, Option.none_or, Option.map_map, Option.map_map]
      congr 1
      funext place
      simp [lineOf, emit_cons, Nat.add_comm]

/-! ## Worlds that agree -/

/-- The declared variables have the same values, with the same inputs and outputs. -/
structure SameCells (code : Code) (w : LittleTiny.World V) (m : World V) : Prop where
  cells : ∀ v ∈ code.declared, m.store v.mangled = w.store v
  input : m.input = w.input
  output : m.output = w.output

/-- Each temporary is the register of its number, too. -/
structure Agrees (code : Code) (temps : Temp → V) (w : LittleTiny.World V) (m : World V) : Prop
    extends SameCells code w m where
  registers : ∀ t, m.store (register t).text = temps t

namespace Agrees

variable {temps : Temp → V} {w : LittleTiny.World V} {m : World V}

theorem value_register (h : Agrees code temps w m) (t : Temp) :
    m.value N (register t).text = temps t := by
  rw [World.value, isNumeral_register]
  exact h.registers t

theorem value_mangled (h : Agrees code temps w m) {v : Variable} (hv : v ∈ code.declared) :
    m.value N v.mangled = w.store v := by
  rw [World.value, isNumeral_mangled]
  exact h.cells v hv

theorem value_operand (h : Agrees code temps w m) {o : LittleTiny.Operand}
    (hn : Numerals o.literals) (hcells : o.cells ⊆ code.declared) (place : Nat) :
    m.value N (operand o).text = o.value N ⟨place, temps, w⟩ := by
  cases o with
  | temp t => exact h.value_register t
  | var v => exact h.value_mangled (hcells (List.mem_singleton_self v))
  | literal digits =>
    have hnumeral := isNumeral_of_isNumeral (hn digits (List.mem_singleton_self digits))
    exact if_pos hnumeral

/-- Setting a register sets the temporary. -/
theorem set_register (h : Agrees code temps w m) (t : Temp) (a : V) :
    ∃ m', m.set? (register t).text a = some m' ∧ Agrees code (Function.update temps t a) w m' := by
  refine ⟨_, if_neg (by simp [isNumeral_register]), ⟨?_, h.input, h.output⟩, ?_⟩
  · intro v hv
    dsimp only
    rw [Function.update_of_ne (register_text_ne_mangled t v).symm]
    exact h.cells v hv
  · intro t'
    dsimp only
    by_cases heq : t' = t
    · rw [heq, Function.update_self, Function.update_self]
    · have hne : (register t').text ≠ (register t).text := fun htext =>
        heq (eq_of_register_text_eq htext)
      rw [Function.update_of_ne heq, Function.update_of_ne hne]
      exact h.registers t'

/-- Setting the name of a variable sets its cell, and no other one. -/
theorem set_mangled (hcode : code.Emittable) (h : Agrees code temps w m) {v : Variable}
    (hv : v ∈ code.declared) (a : V) :
    ∃ m', m.set? v.mangled a = some m' ∧ Agrees code temps (w.set v a) m' := by
  refine ⟨_, if_neg (by simp [isNumeral_mangled]), ⟨?_, h.input, h.output⟩, ?_⟩
  · intro v' hv'
    dsimp only [LittleTiny.World.set]
    by_cases heq : v' = v
    · rw [heq, Function.update_self, Function.update_self]
    · have hne : v'.mangled ≠ v.mangled := fun hname => heq (hcode.mangled_inj v' hv' v hv hname)
      rw [Function.update_of_ne heq, Function.update_of_ne hne]
      exact h.cells v' hv'
  · intro t
    dsimp only
    rw [Function.update_of_ne (register_text_ne_mangled t v)]
    exact h.registers t

/-- Reading goes on, or gets stuck, in both worlds. -/
theorem read (hcode : code.Emittable) (h : Agrees code temps w m) {v : Variable}
    (hv : v ∈ code.declared) (of : NumClass) :
    (w.read? N of v = none ∧ m.read? N of v.mangled = none) ∨
      ∃ w' m', w.read? N of v = some w' ∧ m.read? N of v.mangled = some m' ∧
        Agrees code temps w' m' := by
  unfold LittleTiny.World.read? World.read?
  rw [h.input]
  cases w.input with
  | nil => exact .inl ⟨rfl, rfl⟩
  | cons a rest =>
    have hrest : Agrees code temps { w with input := rest } { m with input := rest } :=
      ⟨⟨h.cells, rfl, h.output⟩, h.registers⟩
    obtain ⟨m', hm', ha⟩ := hrest.set_mangled hcode hv (N.receive of a)
    exact .inr ⟨_, m', rfl, hm', ha⟩

theorem write (h : Agrees code temps w m) {v : Variable} (hv : v ∈ code.declared) :
    Agrees code temps (w.write v) (m.write N v.type v.mangled) := by
  refine ⟨⟨h.cells, h.input, ?_⟩, h.registers⟩
  show m.output ++ [(v.type, m.value N v.mangled)] = w.output ++ [(v.type, w.store v)]
  rw [h.output, h.value_mangled hv]

end Agrees

/-- Any values of the temporaries and variables can be put under the names of a listing. -/
theorem exists_agrees (hcode : code.Emittable) (temps : Temp → V) (w : LittleTiny.World V) :
    ∃ m, Agrees code temps w m := by
  have hinj : Function.Injective fun t => (register t).text := fun t t' => eq_of_register_text_eq
  refine ⟨⟨Function.extend (fun t => (register t).text) temps fun name =>
    (code.declared.find? fun v => v.mangled == name).elim (temps ⟨0⟩) w.store, w.input, w.output⟩,
    ⟨fun v hv => ?_, rfl, rfl⟩, fun t => ?_⟩
  · have hrange : ¬ ∃ t, (register t).text = v.mangled := by
      rintro ⟨t, ht⟩
      exact register_text_ne_mangled t v ht
    dsimp only
    rw [Function.extend_apply' _ _ _ hrange]
    cases hfind : code.declared.find? fun v' => v'.mangled == v.mangled with
    | none => exact absurd (List.find?_eq_none.1 hfind v hv) (by simp)
    | some v' =>
      have hname : v'.mangled = v.mangled := by simpa using List.find?_some hfind
      exact congrArg w.store (hcode.mangled_inj v' (List.mem_of_find?_eq_some hfind) v hv hname)
  · dsimp only
    exact hinj.extend_apply temps _ t

/-! ## Steps -/

theorem command_declaration (v : Variable) : (declaration v).command = .pass := by
  unfold declaration
  cases v.type <;> rfl

/-- The listing stands before the lines of the next instruction of the code, in a world that
agrees. -/
structure Matches (code : Code) (c : Config V) (m : State V) : Prop where
  counter : m.counter = lineOf code c.counter
  le : c.counter ≤ code.length
  agrees : Agrees code c.temps c.world m.world

/-- What the listing does when the code goes from `c` to another state, or gets stuck. -/
def Answered (N : Interpretation V) (code : Code) (c : Config V) (m : State V) :
    Option (Config V) → Prop
  | some c' => ∃ n m', steps (next N (listing code)) n m = some m' ∧ Matches code c' m' ∧
      (n = 0 → code.length - c'.counter < code.length - c.counter)
  | none => ∃ m', Reaches (next N (listing code)) m m' ∧ next N (listing code) m' = none ∧
      m'.counter < (listing code).length

section

variable {c c' : Config V} {m m' : State V} {i : Instruction} {line : Line}

theorem Answered.of_next (h : next N (listing code) m = some m') (hm : Matches code c' m') :
    Answered N code c m (some c') :=
  ⟨1, m', (steps_one m).trans h, hm, fun hn => absurd hn (by decide)⟩

theorem Answered.of_stuck (h : next N (listing code) m = none)
    (hlt : m.counter < (listing code).length) : Answered N code c m none :=
  ⟨m, .refl m, h, hlt⟩

/-- What is answered behind a step is answered before it. -/
theorem Answered.cons (h : next N (listing code) m = some m') {r : Option (Config V)}
    (hr : Answered N code c m' r) : Answered N code c m r := by
  cases r with
  | some c' =>
    obtain ⟨n, m'', hn, hm, -⟩ := hr
    refine ⟨n + 1, m'', ?_, hm, fun hn => absurd hn (Nat.succ_ne_zero n)⟩
    rw [steps, h]
    exact hn
  | none =>
    obtain ⟨m'', hreaches, hstuck⟩ := hr
    exact ⟨m'', (Reaches.of_next h).trans hreaches, hstuck⟩

namespace Matches

theorem next_eq (hm : Matches code c m) (hi : code[c.counter]? = some i) {j : Nat}
    (hj : (emitInstruction i)[j]? = some line) (hc : m'.counter = m.counter + j) :
    next N (listing code) m' = line.command.exec N (listing code) m' := by
  apply Tiny.next_eq
  rw [hc, hm.counter]
  exact getElem?_listing hi hj

theorem lt (hm : Matches code c m) (hi : code[c.counter]? = some i) {j : Nat}
    (hj : (emitInstruction i)[j]? = some line) (hc : m'.counter = m.counter + j) :
    m'.counter < (listing code).length := by
  rw [hc, hm.counter]
  exact lineOf_lt hi hj

/-- Behind all its lines, the listing stands before the next instruction. -/
theorem advance (hm : Matches code c m) (hi : code[c.counter]? = some i) {temps : Temp → V}
    {w : LittleTiny.World V} (hc : m'.counter = m.counter + (emitInstruction i).length)
    (ha : Agrees code temps w m'.world) : Matches code ⟨c.counter + 1, temps, w⟩ m' := by
  refine ⟨?_, ?_, ha⟩
  · rw [hc, hm.counter, lineOf_succ hi]
  · exact (List.getElem?_eq_some_iff.1 hi).1

/-- A jump goes to the same place in the code and in the listing, or to none in both. -/
theorem answered_jump (hm : Matches code c m) (hi : code[c.counter]? = some i) {j : Nat}
    (hj : (emitInstruction i)[j]? = some line) {l : Label}
    (hnext : next N (listing code) m' = m'.jump (listing code) l.text)
    (hc : m'.counter = m.counter + j) (ha : Agrees code c.temps c.world m'.world) :
    Answered N code c m' (c.jump code l) := by
  unfold State.jump at hnext
  rw [findIdx?_label] at hnext
  unfold Config.jump
  cases hplace : code.place? l with
  | none =>
    rw [hplace] at hnext
    exact .of_stuck hnext (hm.lt hi hj hc)
  | some place =>
    rw [hplace] at hnext
    have hlt : place < code.length := (List.findIdx?_eq_some_iff_findIdx_eq.1 hplace).1
    exact .of_next hnext ⟨rfl, Nat.le_of_lt hlt, ha⟩

theorem answered_declare {scope : Scope} (hm : Matches code c m)
    (hi : code[c.counter]? = some (.declare scope)) :
    Answered N code c m ((Instruction.declare scope).exec N code c) := by
  have hpass : ∀ k ≤ scope.declared.length, steps (next N (listing code)) k m =
      some { m with counter := m.counter + k } := by
    intro k
    induction k with
    | zero => exact fun _ => rfl
    | succ k ih =>
      intro hk
      obtain ⟨v, hv⟩ : ∃ v, scope.declared[k]? = some v := ⟨_, List.getElem?_eq_getElem hk⟩
      have hline : (emitInstruction (.declare scope))[k]? = some (declaration v) := by
        show (scope.declared.map declaration)[k]? = _
        rw [List.getElem?_map, hv]
        rfl
      rw [steps_add, ih (by omega), Option.bind_some, steps_one, hm.next_eq hi hline rfl,
        command_declaration]
      rfl
  refine ⟨scope.declared.length, _, hpass _ (Nat.le_refl _), ?_, ?_⟩
  · refine hm.advance hi ?_ hm.agrees
    simp [emitInstruction]
  · intro _
    have hlt := (List.getElem?_eq_some_iff.1 hi).1
    show code.length - (c.counter + 1) < code.length - c.counter
    omega

theorem answered_arith {op : ArithOp} {of : NumClass} {lhs rhs out : Temp} (hne : out ≠ rhs)
    (hm : Matches code c m) (hi : code[c.counter]? = some (.arith op of lhs rhs out)) :
    Answered N code c m ((Instruction.arith op of lhs rhs out).exec N code c) := by
  obtain ⟨w₁, hw₁, ha₁⟩ := hm.agrees.set_register out (c.temps lhs)
  have hmove : next N (listing code) m = some (m.advance w₁) := by
    rw [hm.next_eq hi (j := 0) rfl rfl]
    show (m.world.set? _ (m.world.value N (register lhs).text)).map m.advance = _
    rw [hm.agrees.value_register, hw₁]
    rfl
  obtain ⟨w₂, hw₂, ha₂⟩ := ha₁.set_register out (N.arith op of (c.temps lhs) (c.temps rhs))
  rw [Function.update_idem] at ha₂
  have harith : next N (listing code) (m.advance w₁) = some ((m.advance w₁).advance w₂) := by
    rw [hm.next_eq hi (j := 1) rfl rfl]
    show (w₁.set? _ (N.arith op of (w₁.value N (register out).text)
      (w₁.value N (register rhs).text))).map (m.advance w₁).advance = _
    -- The move has left the right operand alone, since its place is another one.
    rw [ha₁.value_register, ha₁.value_register, Function.update_self,
      Function.update_of_ne hne.symm, hw₂]
    rfl
  exact .cons hmove (.of_next harith (hm.advance hi rfl ha₂))

theorem answered_store {of : NumClass} {source target : LittleTiny.Operand}
    (hcode : code.Emittable) (hm : Matches code c m)
    (hi : code[c.counter]? = some (.store of source target)) :
    Answered N code c m ((Instruction.store of source target).exec N code c) := by
  obtain ⟨hsource, htarget⟩ := List.forall_mem_append.1 (hcode.numerals_instruction hi)
  obtain ⟨hcells, hcells'⟩ := List.append_subset.1 (hcode.uses_subset hi)
  have hnext : next N (listing code) m =
      (m.world.set? (operand target).text (source.value N c)).map m.advance := by
    rw [hm.next_eq hi (j := 0) rfl rfl]
    show (m.world.set? _ (m.world.value N (operand source).text)).map m.advance = _
    rw [hm.agrees.value_operand hsource hcells c.counter]
  cases target with
  | temp t =>
    obtain ⟨w, hw, ha⟩ := hm.agrees.set_register t (source.value N c)
    have hstep := hnext.trans (congrArg (Option.map m.advance) hw)
    exact .of_next hstep (hm.advance hi rfl ha)
  | var v =>
    have hv : v ∈ code.declared := hcells' (List.mem_singleton_self v)
    obtain ⟨w, hw, ha⟩ := hm.agrees.set_mangled hcode hv (source.value N c)
    have hstep := hnext.trans (congrArg (Option.map m.advance) hw)
    exact .of_next hstep (hm.advance hi rfl ha)
  | literal digits =>
    have hnumeral := isNumeral_of_isNumeral (htarget digits (List.mem_singleton_self digits))
    have hw : m.world.set? digits (source.value N c) = none := if_pos hnumeral
    have hstep := hnext.trans (congrArg (Option.map m.advance) hw)
    exact .of_stuck hstep (hm.lt hi (j := 0) rfl rfl)

theorem answered_branch {test : Comparison} {of : NumClass} {lhs rhs : Temp} {target : Label}
    (hm : Matches code c m) (hi : code[c.counter]? = some (.branch test of lhs rhs target)) :
    Answered N code c m ((Instruction.branch test of lhs rhs target).exec N code c) := by
  have hcompare : next N (listing code) m = some (m.keep of (c.temps lhs) (c.temps rhs)) := by
    rw [hm.next_eq hi (j := 0) rfl rfl]
    show some (m.keep of (m.world.value N (register lhs).text)
      (m.world.value N (register rhs).text)) = _
    rw [hm.agrees.value_register, hm.agrees.value_register]
  have hjump : next N (listing code) (m.keep of (c.temps lhs) (c.temps rhs)) = _ :=
    hm.next_eq hi (j := 1) rfl rfl
  rw [Instruction.exec]
  refine .cons hcompare ?_
  by_cases htest : N.test test of (c.temps lhs) (c.temps rhs)
  · rw [if_pos htest]
    exact hm.answered_jump hi (j := 1) rfl (hjump.trans (if_pos htest)) rfl hm.agrees
  · rw [if_neg htest]
    exact .of_next (hjump.trans (if_neg htest)) (hm.advance hi rfl hm.agrees)

theorem answered_read {of : NumClass} {v : Variable} (hcode : code.Emittable)
    (hm : Matches code c m) (hi : code[c.counter]? = some (.read of v)) :
    Answered N code c m ((Instruction.read of v).exec N code c) := by
  have hv : v ∈ code.declared := hcode.uses_subset hi (List.mem_singleton_self v)
  have hnext : next N (listing code) m = (m.world.read? N of v.mangled).map m.advance :=
    hm.next_eq hi (j := 0) rfl rfl
  rw [Instruction.exec]
  rcases hm.agrees.read (N := N) hcode hv of with ⟨hw, hw'⟩ | ⟨w, w', hw, hw', ha⟩
  · rw [hw]
    rw [hw'] at hnext
    exact .of_stuck hnext (hm.lt hi (j := 0) rfl rfl)
  · rw [hw]
    rw [hw'] at hnext
    exact .of_next hnext (hm.advance hi rfl ha)

/-- Each instruction is answered by its lines. -/
theorem answered (hcode : code.Emittable) (hm : Matches code c m)
    (hi : code[c.counter]? = some i) : Answered N code c m (i.exec N code c) := by
  cases i with
  | declare scope => exact hm.answered_declare hi
  | arith op of lhs rhs out =>
    have hne : out ≠ rhs := hcode.apart _ (List.mem_of_getElem? hi)
    exact hm.answered_arith hne hi
  | store of source target => exact hm.answered_store hcode hi
  | branch test of lhs rhs target => exact hm.answered_branch hi
  | jump target =>
    exact hm.answered_jump hi (j := 0) rfl (hm.next_eq hi (j := 0) rfl rfl) rfl hm.agrees
  | label name =>
    exact .of_next (hm.next_eq hi (j := 0) rfl rfl) (hm.advance hi rfl hm.agrees)
  | read of v => exact hm.answered_read hcode hi
  | write v =>
    have hv : v ∈ code.declared := hcode.uses_subset hi (List.mem_singleton_self v)
    exact .of_next (hm.next_eq hi (j := 0) rfl rfl) (hm.advance hi rfl (hm.agrees.write hv))

end Matches

end

/-! ## Runs -/

theorem follows (hcode : code.Emittable) :
    Follows (code.next N) (next N (listing code)) (Matches code)
      fun c => code.length - c.counter := by
  intro c c' m hm hnext
  rw [Code.next, Option.bind_eq_some_iff] at hnext
  obtain ⟨i, hi, hexec⟩ := hnext
  have hanswered := hm.answered (N := N) hcode hi
  rw [hexec] at hanswered
  exact hanswered

section

variable {temps : Temp → V} {w w' : LittleTiny.World V} {m m' : World V}

theorem Agrees.matches_start (h : Agrees code temps w m) :
    Matches code ⟨0, temps, w⟩ ⟨0, none, m⟩ :=
  ⟨rfl, Nat.zero_le _, h⟩

theorem halts_of_code_halts (hcode : code.Emittable) (h : Agrees code temps w m)
    (hw : code.Halts N temps w w') : ∃ m', Halts N (listing code) m m' ∧ SameCells code w' m' := by
  obtain ⟨temps', hreaches⟩ := hw
  obtain ⟨⟨counter, flag, m'⟩, hlisting, hmatches⟩ :=
    (follows hcode).reaches h.matches_start hreaches
  obtain rfl : counter = (listing code).length := hmatches.counter.trans (lineOf_length code)
  exact ⟨m', ⟨flag, hlisting⟩, hmatches.agrees.toSameCells⟩

theorem code_halts_of_halts (hcode : code.Emittable) (h : Agrees code temps w m)
    (hm : Halts N (listing code) m m') : ∃ w', code.Halts N temps w w' ∧ SameCells code w' m' := by
  obtain ⟨flag, n, hn⟩ := hm
  have hend : next N (listing code) ⟨(listing code).length, flag, m'⟩ = none := next_end rfl
  obtain ⟨⟨place, temps', w'⟩, b, hcode', hrest, hmatches, k, hk⟩ :=
    (follows hcode).exists_rest h.matches_start hn hend
  cases hi : code[place]? with
  | none =>
    -- The code has come to its end, and so has the listing.
    obtain rfl : place = code.length :=
      Nat.le_antisymm hmatches.le (List.getElem?_eq_none_iff.1 hi)
    have hb : next N (listing code) b = none :=
      next_end (hmatches.counter.trans (lineOf_length code))
    cases eq_of_steps hk hb
    exact ⟨w', ⟨temps', hcode'⟩, hmatches.agrees.toSameCells⟩
  | some i =>
    -- The code is stuck, and the listing would be so before its end.
    have hexec : i.exec N code ⟨place, temps', w'⟩ = none := by
      rw [← Code.next_eq hi]
      exact hrest
    have hanswered := hmatches.answered (N := N) hcode hi
    rw [hexec] at hanswered
    obtain ⟨s, hs, hstuck, hlt⟩ := hanswered
    obtain ⟨j, -, hj⟩ := exists_steps_of_reaches hs hk hend
    cases eq_of_steps hj hstuck
    exact absurd hlt (Nat.lt_irrefl _)

end

/-- Emission preserves meaning. The code of programs that are scanned and read can be emitted; and
the listing of code that can be emitted halts exactly when the code does, from worlds that agree,
and then in worlds that agree on the variables, the inputs left and the outputs. -/
theorem emit_preserves_meaning :
    (∀ (cs : List (Char × Position)) (tokens : List (Located Token)) (p : Program) (code : Code),
      Scan.scan cs = .ok tokens → Program.parse tokens = .ok p → p.lower = .ok code →
        code.Emittable) ∧
    ∀ (code : Code), code.Emittable → ∀ (V : Type u) (N : Interpretation V) (temps : Temp → V)
      (w : LittleTiny.World V),
      (∃ m, Agrees code temps w m) ∧
      ∀ m, Agrees code temps w m →
        (∀ w', code.Halts N temps w w' →
          ∃ m', Halts N (listing code) m m' ∧ SameCells code w' m') ∧
        (∀ m', Halts N (listing code) m m' →
          ∃ w', code.Halts N temps w w' ∧ SameCells code w' m') := by
  refine ⟨fun cs tokens p code => Program.emittable, fun code hcode V N temps w => ?_⟩
  refine ⟨exists_agrees hcode temps w, fun m hm => ⟨?_, ?_⟩⟩
  · exact fun w' => halts_of_code_halts hcode hm
  · exact fun m' => code_halts_of_halts hcode hm

/-- A program that counts down from its input. -/
def counting : Source where
  name := "counting"
  lines := [
    "PROGRAM p BEGIN INT n; FUNCTION VOID main() BEGIN READ(n);",
    "WHILE (n > 0) INT k; k := n; WRITE(k); n := n - 1; ENDWHILE",
    "END END"]

theorem emit_preserves_meaning_counting :
    ∃ c, compile counting = .ok c ∧ c.code.Emittable ∧
      Agrees c.code (fun _ => (0 : Int)) ⟨fun _ => 0, [2], []⟩ ⟨fun _ => 0, [2], []⟩ ∧
      ∃ m', Halts integers (listing c.code) ⟨fun _ => 0, [2], []⟩ m' ∧
        m'.output = [(.number .int, 2), (.number .int, 1)] ∧
        ∃ w', c.code.Halts integers (fun _ => 0) ⟨fun _ => 0, [2], []⟩ w' ∧
          SameCells c.code w' m' := by
  have hrun : ((compile counting).toOption.bind fun c =>
      (steps (next integers (listing c.code)) 38 ⟨0, none, fun _ => 0, [2], []⟩).map fun s =>
        (s.counter == (listing c.code).length, s.world.output)) =
      some (true, [(.number .int, 2), (.number .int, 1)]) := by decide +kernel
  cases hc : compile counting with
  | error e =>
    rw [hc] at hrun
    cases hrun
  | ok c =>
    rw [hc] at hrun
    obtain ⟨⟨counter, flag, m'⟩, hs, hm'⟩ := Option.map_eq_some_iff.1 hrun
    obtain ⟨hcounter, houtput⟩ := Prod.mk.inj hm'
    obtain rfl : counter = (listing c.code).length := by simpa using hcounter
    obtain ⟨hcompile, hmeaning⟩ := emit_preserves_meaning.{0}
    obtain ⟨hscan, hparse, hlower⟩ := phases_of_compile hc
    have hcode := hcompile _ _ _ _ hscan hparse hlower
    have hagrees : Agrees c.code (fun _ => (0 : Int)) ⟨fun _ => 0, [2], []⟩
        ⟨fun _ => 0, [2], []⟩ := ⟨⟨fun _ _ => rfl, rfl, rfl⟩, fun _ => rfl⟩
    have hhalts : Halts integers (listing c.code) ⟨fun _ => 0, [2], []⟩ m' := ⟨flag, 38, hs⟩
    refine ⟨c, rfl, hcode, hagrees, m', hhalts, houtput, ?_⟩
    exact ((hmeaning c.code hcode Int integers _ _).2 _ hagrees).2 m' hhalts

end LittleTiny.Tiny
