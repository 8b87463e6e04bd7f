import LittleTiny.Proofs.Evaluation
import LittleTiny.Proofs.Steps
import Mathlib.Data.List.Nodup

/-!
# Running three-address code

Code runs on a counter, temporaries and a world. Declarations and labels do nothing; a jump goes to
the place of its label. A run halts when it falls off the end; it gets stuck at a jump to a label
that does not stand in the code, at a READ without input, and at a store to a literal. `CodeAt` says
that a piece of code stands at a place, and `Code.place?_eq` that a label is found where it stands
if no label stands in the code twice.
-/

namespace LittleTiny

universe u

/-- A state of the machine. -/
structure Config (V : Type u) where
  counter : Nat
  temps : Temp → V
  world : World V

/-- The place of a label in the code. -/
def Code.place? (code : Code) (l : Label) : Option Nat :=
  code.findIdx? fun i => decide (i = .label l)

section

variable {V : Type u}

/-- The value that an operand has. -/
def Operand.value (N : Interpretation V) (m : Config V) : Operand → V
  | temp t => m.temps t
  | var v => m.world.store v
  | literal digits => N.literal digits

namespace Config

/-- Sets a temporary and goes on. -/
def setTemp (m : Config V) (t : Temp) (a : V) : Config V :=
  { m with counter := m.counter + 1, temps := Function.update m.temps t a }

/-- The next instruction, in another world. -/
def advance (m : Config V) (w : World V) : Config V :=
  { m with counter := m.counter + 1, world := w }

/-- Goes to the label, if it is in the code. -/
def jump (m : Config V) (code : Code) (l : Label) : Option (Config V) :=
  (code.place? l).map fun place => { m with counter := place }

end Config

/-- What an instruction of the code does. -/
def Instruction.exec (N : Interpretation V) (code : Code) (m : Config V) :
    Instruction → Option (Config V)
  | declare _ => some (m.advance m.world)
  | arith op of lhs rhs out => some (m.setTemp out (N.arith op of (m.temps lhs) (m.temps rhs)))
  | store _ source (.temp t) => some (m.setTemp t (source.value N m))
  | store _ source (.var v) => some (m.advance (m.world.set v (source.value N m)))
  | store _ _ (.literal _) => none
  | branch test of lhs rhs target =>
    if N.test test of (m.temps lhs) (m.temps rhs) then m.jump code target
    else some (m.advance m.world)
  | jump target => m.jump code target
  | label _ => some (m.advance m.world)
  | read of v => (m.world.read? N of v).map m.advance
  | write v => some (m.advance (m.world.write v))

/-- One step of the machine. -/
def Code.next (N : Interpretation V) (code : Code) (m : Config V) : Option (Config V) :=
  code[m.counter]?.bind (Instruction.exec N code m)

/-- A run from the first instruction halts by falling off the end of the code. -/
def Code.Halts (N : Interpretation V) (code : Code) (temps : Temp → V) (w w' : World V) : Prop :=
  ∃ temps', Reaches (code.next N) ⟨0, temps, w⟩ ⟨code.length, temps', w'⟩

end

section

variable {V : Type u} {N : Interpretation V} {code : Code} {place : Nat} {i : Instruction}

theorem Code.next_eq (h : code[place]? = some i) (temps : Temp → V) (w : World V) :
    code.next N ⟨place, temps, w⟩ = i.exec N code ⟨place, temps, w⟩ := by
  rw [Code.next, h]
  rfl

theorem Code.next_end (temps : Temp → V) (w : World V) :
    code.next N ⟨code.length, temps, w⟩ = none := by
  rw [Code.next, List.getElem?_eq_none (Nat.le_refl _)]
  rfl

end

/-! ## Pieces of code -/

/-- The piece stands in the code at the place. -/
def CodeAt (code : Code) (place : Nat) (piece : Code) : Prop :=
  ∃ before after, code = before ++ piece ++ after ∧ before.length = place

section

variable {code piece piece' : Code} {place : Nat} {i : Instruction}

theorem CodeAt.left (h : CodeAt code place (piece ++ piece')) : CodeAt code place piece := by
  obtain ⟨before, after, rfl, hlength⟩ := h
  exact ⟨before, piece' ++ after, by simp, hlength⟩

theorem CodeAt.right (h : CodeAt code place (piece ++ piece')) :
    CodeAt code (place + piece.length) piece' := by
  obtain ⟨before, after, rfl, rfl⟩ := h
  exact ⟨before ++ piece, after, by simp, List.length_append⟩

theorem CodeAt.head (h : CodeAt code place (i :: piece)) : code[place]? = some i := by
  obtain ⟨before, after, rfl, rfl⟩ := h
  simp

theorem CodeAt.tail (h : CodeAt code place (i :: piece)) : CodeAt code (place + 1) piece :=
  CodeAt.right (show CodeAt code place ([i] ++ piece) from h)

theorem codeAt_self (code : Code) : CodeAt code 0 code := ⟨[], [], by simp, rfl⟩

end

/-- The labels that stand in the code. -/
def Code.labels (code : Code) : List Label :=
  code.filterMap fun
    | .label l => some l
    | _ => none

theorem Code.labels_append (code code' : Code) :
    (code ++ code').labels = code.labels ++ code'.labels :=
  List.filterMap_append ..

theorem Code.place?_cons (i : Instruction) (code : Code) (l : Label) :
    Code.place? (i :: code) l = if i = .label l then some 0 else (code.place? l).map (· + 1) := by
  rw [Code.place?, List.findIdx?_cons]
  simp only [decide_eq_true_eq]
  rfl

/-- A label is found where it stands, if no label stands in the code twice. -/
theorem Code.place?_eq {code : Code} (hn : code.labels.Nodup) {place : Nat} {l : Label}
    (h : code[place]? = some (.label l)) : code.place? l = some place := by
  induction code generalizing place with
  | nil => simp at h
  | cons i code ih =>
    cases place with
    | zero =>
      obtain rfl : i = .label l := by simpa using h
      rw [Code.place?_cons, if_pos rfl]
    | succ place =>
      rw [List.getElem?_cons_succ] at h
      have hmem : l ∈ labels code := List.mem_filterMap.2 ⟨_, List.mem_of_getElem? h, rfl⟩
      rw [← List.singleton_append, labels_append] at hn
      have hne : i ≠ .label l := by
        rintro rfl
        exact List.disjoint_of_nodup_append hn (List.mem_singleton_self l) hmem
      rw [Code.place?_cons, if_neg hne, ih hn.of_append_right h]
      rfl

end LittleTiny
