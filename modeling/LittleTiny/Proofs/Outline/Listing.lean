import LittleTiny.Compilation
import LittleTiny.Proofs.Outline.Lowering

/-!
# Listings without locations

No listing shows a location: the text of an instruction, the lines of assembly that it becomes and
the tree of a program are the same for their outlines.
-/

namespace LittleTiny

/-! ## Code and assembly -/

theorem Operand.text_erase (o : Operand) : (o.renumber fun n => n).text = o.text := by
  cases o <;> rfl

theorem Tiny.operand_erase (o : LittleTiny.Operand) :
    Tiny.operand (o.renumber fun n => n) = Tiny.operand o := by
  cases o <;> rfl

namespace Instruction

theorem text_erase (i : Instruction) : i.erase.text = i.text := by
  cases i with
  | store of source target =>
    simp only [erase, renumber, text, opcode?, operands, Operand.text_erase]
  | _ => rfl

theorem isExecutable_erase (i : Instruction) : i.erase.isExecutable = i.isExecutable := by
  cases i <;> rfl

theorem emit_erase (i : Instruction) : Tiny.emitInstruction i.erase = Tiny.emitInstruction i := by
  cases i with
  | declare scope =>
    simp only [erase, renumber, Tiny.emitInstruction, Scope.renumber, List.map_map]
    rfl
  | store of source target =>
    simp only [erase, renumber, Tiny.emitInstruction, Tiny.operand_erase]
  | _ => rfl

end Instruction

/-- Whatever is made of the lines of code does not show locations. -/
theorem Code.map_text_erase {α : Type} (f : String → α) (c : Code) :
    (executable (c.map Instruction.erase)).map (fun i => f i.text) =
      (executable c).map fun i => f i.text := by
  have hfilter : executable (c.map Instruction.erase) = (executable c).map Instruction.erase := by
    simp only [executable, List.filter_map, Function.comp_def, Instruction.isExecutable_erase]
  rw [hfilter, List.map_map]
  simp only [Function.comp_def, Instruction.text_erase]

theorem Code.text_erase (c : Code) : text (c.map Instruction.erase) = text c := by
  rw [text, text, map_text_erase (· ++ "\n")]

theorem Tiny.emit_erase (c : Code) : emit (c.map Instruction.erase) = emit c := by
  simp only [emit, List.flatMap_map, Instruction.emit_erase]

/-! ## Trees -/

namespace Element

mutual

/-- The element with the variables of its tables at no place. -/
def erase : Element → Element
  | mk tag value scope children => mk tag value (scope.map Scope.erase) (eraseAll children)

/-- The elements in a row, without locations in their tables. -/
def eraseAll : List Element → List Element
  | [] => []
  | e :: es => e.erase :: eraseAll es

end

theorem eraseAll_eq_map : ∀ es : List Element, eraseAll es = es.map erase
  | [] => rfl
  | e :: es => by rw [eraseAll, eraseAll_eq_map es, List.map_cons]

theorem table_erase (s : Scope) : s.erase.table = s.table := by
  simp only [Scope.table, Scope.erase, Scope.renumber, List.map_map]
  rfl

mutual

theorem text_erase : ∀ e : Element, e.erase.text = e.text
  | mk tag value scope children => by
    have hempty : (eraseAll children).isEmpty = children.isEmpty := by
      rw [eraseAll_eq_map, List.isEmpty_map]
    cases scope with
    | none => simp only [erase, text, textAll_erase children, hempty, Option.map_none]
    | some s =>
      simp only [erase, text, textAll_erase children, hempty, Option.map_some, table_erase]

theorem textAll_erase : ∀ es : List Element, textAll (eraseAll es) = textAll es
  | [] => rfl
  | e :: es => by rw [eraseAll, textAll, textAll, text_erase e, textAll_erase es]

end

theorem erase_branch (tag : Tag) (children : List Element) :
    (branch tag children).erase = branch tag (children.map erase) := by
  rw [branch, erase, eraseAll_eq_map, Option.map_none, branch]

theorem erase_branchIn (scope : Scope) (tag : Tag) (children : List Element) :
    (branchIn scope tag children).erase = branchIn scope.erase tag (children.map erase) := by
  have hempty : scope.erase.declared.isEmpty = scope.declared.isEmpty := List.isEmpty_map
  rw [branchIn, erase, eraseAll_eq_map, branchIn, hempty]
  split <;> rfl

end Element

mutual

theorem Expr.element_erase : ∀ e : Expr, e.erase.element = e.element.erase
  | .int .. => rfl
  | .float .. => rfl
  | .var .. => rfl
  | .binary op lhs rhs _ => by
    simp only [Expr.erase, Expr.element, Element.erase_branch, List.map_cons, List.map_nil,
      lhs.element_erase, rhs.element_erase]
  | .call function arguments _ => by
    simp only [Expr.erase, Expr.element, Element.erase, Expr.elements_erase arguments,
      Option.map_none, Located.value_erase]

theorem Expr.elements_erase : ∀ es : List Expr,
    Expr.elements (Expr.eraseAll es) = Element.eraseAll (Expr.elements es)
  | [] => rfl
  | e :: es => by
    rw [Expr.eraseAll, Expr.elements, Expr.elements, Element.eraseAll, e.element_erase,
      Expr.elements_erase es]

end

theorem Condition.element_erase (c : Condition) : c.erase.element = c.element.erase := by
  simp only [Condition.erase, Condition.element, Element.erase_branch, List.map_cons, List.map_nil,
    Expr.element_erase]

theorem Element.map_name_erase (names : List (Located String)) :
    (names.map Located.erase).map Element.name = (names.map Element.name).map Element.erase := by
  simp only [List.map_map]
  rfl

theorem Declaration.element_erase (d : Declaration) : d.erase.element = d.element.erase := by
  cases d with
  | text name value => rfl
  | numbers type names =>
    simp only [Declaration.erase, Declaration.element, Element.erase_branch, List.map_cons,
      List.map_nil, Element.map_name_erase, Located.value_erase]

theorem Declaration.map_element_erase (ds : List Declaration) :
    (ds.map Declaration.erase).map Declaration.element =
      (ds.map Declaration.element).map Element.erase := by
  simp only [List.map_map, Function.comp_def, Declaration.element_erase]

mutual

theorem Statement.element_outline : ∀ s : Statement,
    (s.outline Scope.erase).element = s.element.erase
  | .assign target value => by
    simp only [Statement.outline, Statement.element, Element.erase_branch, List.map_cons,
      List.map_nil, Expr.element_erase]
    rfl
  | .read names => by
    simp only [Statement.outline, Statement.element, Element.erase_branch, Element.map_name_erase]
  | .write names => by
    simp only [Statement.outline, Statement.element, Element.erase_branch, Element.map_name_erase]
  | .ifThen condition body => by
    simp only [Statement.outline, Statement.element, Element.erase_branch, List.map_cons,
      Condition.element_erase, body.elements_outline]
  | .ifElse condition body alternative => by
    simp only [Statement.outline, Statement.element, Element.erase_branch, List.map_cons,
      List.map_append, Condition.element_erase, body.elements_outline, alternative.elements_outline]
  | .loop condition body => by
    simp only [Statement.outline, Statement.element, Element.erase_branch, List.map_cons,
      Condition.element_erase, body.elements_outline]
  | .return_ value => by
    simp only [Statement.outline, Statement.element, Element.erase_branch, List.map_cons,
      List.map_nil, Expr.element_erase]

theorem Block.elements_outline : ∀ b : Block,
    (b.outline Scope.erase).elements = b.elements.map Element.erase
  | ⟨declarations, statements, scope⟩ => by
    simp only [Block.outline, Block.elements, List.map_cons, List.map_nil, Element.erase_branch,
      Element.erase_branchIn, Declaration.map_element_erase, Statement.elements_outline statements]

theorem Statement.elements_outline : ∀ ss : List Statement,
    Statement.elements (Statement.outlineAll Scope.erase ss) =
      (Statement.elements ss).map Element.erase
  | [] => rfl
  | s :: ss => by
    rw [Statement.outlineAll, Statement.elements, Statement.elements, List.map_cons,
      s.element_outline, Statement.elements_outline ss]

end

theorem Function.element_outline (f : Function) :
    (f.outline Scope.erase).element = f.element.erase := by
  simp only [Function.outline, Function.element, Element.erase_branch, List.map_append,
    List.map_cons, List.map_nil, List.map_map, Function.comp_def, Block.elements_outline]
  rfl

/-- The tree that is shown has no locations. -/
theorem Program.treeText_outline (p : Program) : (p.outline Scope.erase).treeText = p.treeText := by
  have helement : (p.outline Scope.erase).element = p.element.erase := by
    simp only [Program.outline, Program.element, Element.erase_branch, Element.erase_branchIn,
      List.map_cons, List.map_nil, List.map_map, Function.comp_def, Declaration.element_erase,
      Function.element_outline]
    rfl
  rw [Program.treeText, helement, Element.text_erase, Program.treeText]

end LittleTiny
