import LittleTiny.Code.Lowering
import LittleTiny.Proofs.Frames
import Mathlib.Logic.Function.Basic

/-!
# What programs mean

A program is evaluated on its tree. Values are of any type, and an interpretation says what
literals, operations and tests mean for numbers of each class. Each declared variable is one cell of
the store, and a name means the cell that is found by walking outwards through the frames around it.
`Exec` relates the worlds before and after the statements of a block, with a rule for every form of
the first statement. A name without a variable, a text used as a number, a call, a RETURN, or a READ
without input has no rule, and a loop that goes on for ever has no derivation.
-/

namespace LittleTiny

universe u

/-- What literals, inputs, operations and tests mean for values of the type `V`. -/
structure Interpretation (V : Type u) where
  literal : String → V
  /-- The value that an input has when it is read as a number of the class. -/
  receive : NumClass → V → V
  arith : ArithOp → NumClass → V → V → V
  test : Comparison → NumClass → V → V → Bool

/-- Of a test and its negation, exactly one holds. -/
def Interpretation.Complementary {V : Type u} (N : Interpretation V) : Prop :=
  ∀ (c : Comparison) (of : NumClass) (a b : V), N.test c.negate of a b = !N.test c of a b

/-- The cells of the variables, the inputs not yet read, and the outputs, each with the type of the
variable that was written. -/
structure World (V : Type u) where
  store : Variable → V
  input : List V
  output : List (VarType × V)

namespace World

variable {V : Type u}

/-- The world with a value for the variable. -/
def set (w : World V) (v : Variable) (a : V) : World V :=
  { w with store := Function.update w.store v a }

/-- Reads the next input into the variable. -/
def read? (N : Interpretation V) (w : World V) (of : NumClass) (v : Variable) : Option (World V) :=
  match w.input with
  | [] => none
  | a :: rest => some { w.set v (N.receive of a) with input := rest }

/-- The world after the value of the variable has been written, with its type. -/
def write (w : World V) (v : Variable) : World V :=
  { w with output := w.output ++ [(v.type, w.store v)] }

end World

/-- The class of an operation: real if an operand is real. -/
def NumClass.join (k l : NumClass) : NumClass := if k = .float ∨ l = .float then .float else .int

theorem NumClass.promote_eq_join (k l : NumClass) : k.promote l = k.join l := by
  cases k <;> cases l <;> rfl

section

variable {V : Type u} (N : Interpretation V)

/-- The value of an expression, with its class. -/
def Expr.eval (env : Frames) (store : Variable → V) : Expr → Option (NumClass × V)
  | int digits _ => some (.int, N.literal digits)
  | float digits _ => some (.float, N.literal digits)
  | var name _ => (env.number? name).map fun (of, v) => (of, store v)
  | binary op lhs rhs _ =>
    match lhs.eval env store, rhs.eval env store with
    | some (k, a), some (l, b) => some (k.join l, N.arith op (k.join l) a b)
    | _, _ => none
  | call _ _ _ => none

/-- Whether a condition holds. -/
def Condition.eval (env : Frames) (store : Variable → V) (c : Condition) : Option Bool :=
  match c.lhs.eval N env store, c.rhs.eval N env store with
  | some (k, a), some (l, b) => some (N.test c.op (k.join l) a b)
  | _, _ => none

/-- The statements, in the frames `env`, lead from the first world to the second. The block of an
IF, an ELSE or a WHILE adds its own frame; its condition is evaluated outside of it. -/
inductive Exec : Frames → List Statement → World V → World V → Prop
  | nil {env : Frames} {w : World V} : Exec env [] w w
  | assign {env : Frames} {target : Located String} {value : Expr} {ss : List Statement}
      {of k : NumClass} {v : Variable} {a : V} {w w' : World V}
      (hv : env.number? target.value = some (of, v))
      (ha : value.eval N env w.store = some (k, a))
      (hss : Exec env ss (w.set v a) w') :
      Exec env (.assign target value :: ss) w w'
  | readNil {env : Frames} {ss : List Statement} {w w' : World V} (hss : Exec env ss w w') :
      Exec env (.read [] :: ss) w w'
  | readCons {env : Frames} {name : Located String} {names : List (Located String)}
      {ss : List Statement} {of : NumClass} {v : Variable} {w w₁ w' : World V}
      (hv : env.number? name.value = some (of, v)) (hw : w.read? N of v = some w₁)
      (hss : Exec env (.read names :: ss) w₁ w') :
      Exec env (.read (name :: names) :: ss) w w'
  | writeNil {env : Frames} {ss : List Statement} {w w' : World V} (hss : Exec env ss w w') :
      Exec env (.write [] :: ss) w w'
  | writeCons {env : Frames} {name : Located String} {names : List (Located String)}
      {ss : List Statement} {v : Variable} {w w' : World V}
      (hv : env.find? name.value = some v) (hss : Exec env (.write names :: ss) (w.write v) w') :
      Exec env (.write (name :: names) :: ss) w w'
  | ifThenTrue {env : Frames} {c : Condition} {body : Block} {ss : List Statement}
      {w w₁ w' : World V} (hc : c.eval N env w.store = some true)
      (hbody : Exec (body.frame :: env) body.statements w w₁) (hss : Exec env ss w₁ w') :
      Exec env (.ifThen c body :: ss) w w'
  | ifThenFalse {env : Frames} {c : Condition} {body : Block} {ss : List Statement}
      {w w' : World V} (hc : c.eval N env w.store = some false) (hss : Exec env ss w w') :
      Exec env (.ifThen c body :: ss) w w'
  | ifElseTrue {env : Frames} {c : Condition} {body alternative : Block} {ss : List Statement}
      {w w₁ w' : World V} (hc : c.eval N env w.store = some true)
      (hbody : Exec (body.frame :: env) body.statements w w₁) (hss : Exec env ss w₁ w') :
      Exec env (.ifElse c body alternative :: ss) w w'
  | ifElseFalse {env : Frames} {c : Condition} {body alternative : Block} {ss : List Statement}
      {w w₁ w' : World V} (hc : c.eval N env w.store = some false)
      (hbody : Exec (alternative.frame :: env) alternative.statements w w₁)
      (hss : Exec env ss w₁ w') :
      Exec env (.ifElse c body alternative :: ss) w w'
  | loopTrue {env : Frames} {c : Condition} {body : Block} {ss : List Statement}
      {w w₁ w' : World V} (hc : c.eval N env w.store = some true)
      (hbody : Exec (body.frame :: env) body.statements w w₁)
      (hss : Exec env (.loop c body :: ss) w₁ w') :
      Exec env (.loop c body :: ss) w w'
  | loopFalse {env : Frames} {c : Condition} {body : Block} {ss : List Statement}
      {w w' : World V} (hc : c.eval N env w.store = some false) (hss : Exec env ss w w') :
      Exec env (.loop c body :: ss) w w'

/-- The function is named `main`, and no function before it is. -/
def Program.HasMain (p : Program) (main : Function) : Prop :=
  main.name.value = "main" ∧ ∃ before after, p.functions = before ++ main :: after ∧
    ∀ f ∈ before, f.name.value ≠ "main"

/-- The body of the first function named `main` leads from the first world to the second. -/
def Program.Evaluates (p : Program) (w w' : World V) : Prop :=
  ∃ main, p.HasMain main ∧ Exec N [main.frame, p.frame] main.body.statements w w'

end

/-- Lowering starts with this function. -/
theorem Program.main?_eq_some_iff {p : Program} {main : Function} :
    p.main? = some main ↔ p.HasMain main := by
  simp [main?, HasMain, List.find?_eq_some_iff_append]

/-! ## An interpretation -/

/-- Whole numbers for both classes. -/
def integers : Interpretation Int where
  literal digits := Nat.ofDigitChars 10 digits.toList 0
  receive _ a := a
  arith op _ a b :=
    match op with
    | .add => a + b
    | .sub => a - b
    | .mul => a * b
    | .div => a / b
  test op _ a b :=
    match op with
    | .less => a < b
    | .greater => a > b
    | .lessEqual => a ≤ b
    | .greaterEqual => a ≥ b
    | .equal => a = b
    | .notEqual => a ≠ b

theorem integers_complementary : integers.Complementary := by
  intro c of a b
  rw [Bool.eq_iff_iff]
  cases c <;> simp [integers, Comparison.negate]

end LittleTiny
