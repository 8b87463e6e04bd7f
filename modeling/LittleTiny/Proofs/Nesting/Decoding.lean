import LittleTiny.Proofs.Bytes
import LittleTiny.Proofs.Nesting.Program
import LittleTiny.Proofs.Outline.Listing
import LittleTiny.Proofs.Outline.Rescope

/-!
# Programs from their elements

Every element of a program can be told from its tag and from the number of elements in it: an IF
with an ELSE has two elements more than one without. So a program is found from its elements without
their tables, up to locations and scopes (`Program.ofElement_element`), and the scopes are those
that the declarations make. Hence the listing of a tree shows all of a program but the locations
(`Program.treeText_loses_nothing`).
-/

namespace LittleTiny

/-! ## Tags -/

/-- The operation that a kind of elements stands for. -/
def ArithOp.ofTag? (tag : Tag) : Option ArithOp := [add, sub, mul, div].find? fun op => op.tag = tag

/-- The test that a kind of elements stands for. -/
def Comparison.ofTag? (tag : Tag) : Option Comparison :=
  [less, greater, lessEqual, greaterEqual, equal, notEqual].find? fun op => op.tag = tag

theorem Comparison.ofTag?_tag (op : Comparison) : ofTag? op.tag = some op := by
  cases op <;> rfl

/-- The type of numbers that a kind of elements stands for. -/
def NumClass.ofTag? (tag : Tag) : Option NumClass := [int, float].find? fun of => of.tag = tag

theorem NumClass.ofTag?_tag (of : NumClass) : ofTag? of.tag = some of := by
  cases of <;> rfl

/-- What a function returns, by the kind of the element for it. -/
def ReturnType.ofTag? (tag : Tag) : Option ReturnType :=
  [number .int, number .float, void].find? fun type => type.tag = tag

theorem ReturnType.ofTag?_tag (type : ReturnType) : ofTag? type.tag = some type := by
  rcases type with (_ | _) | _ <;> rfl

namespace Element

/-- The kind of an element. -/
def tag : Element → Tag
  | mk tag _ _ _ => tag

/-- The text behind the name of an element. -/
def value : Element → Option String
  | mk _ value _ _ => value

/-- The elements inside an element. -/
def children : Element → List Element
  | mk _ _ _ children => children

theorem bareAll_eq_map (es : List Element) : bareAll es = es.map bare := by
  induction es with
  | nil => rfl
  | cons e es ih => rw [bareAll, ih, List.map_cons]

theorem bareAll_map {α : Type} (f : α → Element) (xs : List α) :
    bareAll (xs.map f) = xs.map fun x => (f x).bare := by
  rw [bareAll_eq_map, List.map_map]
  rfl

/-- The name that an element shows. -/
def name? (e : Element) : Option (Located String) := e.value.map fun name => ⟨name, {}⟩

theorem name?_name (n : Located String) : (name n).bare.name? = some n.erase := rfl

theorem mapM_bareAll {α β : Type} {decode : Element → Option β} {write : α → Element} {f : α → β}
    (h : ∀ x, decode (write x).bare = some (f x)) (xs : List α) :
    (bareAll (xs.map write)).mapM decode = some (xs.map f) := by
  rw [bareAll_map]
  exact mapM_map_eq_some fun x _ => h x

end Element

/-! ## Expressions -/

/-- The expression with these expressions inside. -/
def Expr.assemble (tag : Tag) (value : Option String) (inside : List Expr) : Option Expr :=
  match tag, value, inside with
  | .intLiteral, some digits, _ => some (.int digits {})
  | .floatLiteral, some digits, _ => some (.float digits {})
  | .identifier, some name, _ => some (.var name {})
  | .call, some function, arguments => some (.call ⟨function, {}⟩ arguments {})
  | tag, _, [lhs, rhs] => (ArithOp.ofTag? tag).map fun op => .binary op lhs rhs {}
  | _, _, _ => none

mutual

/-- The expression, without locations, that an element is the element of. -/
def Expr.ofElement : Element → Option Expr
  | .mk tag value _ children => (Expr.ofElements children).bind (Expr.assemble tag value)

/-- The expressions of elements in a row. -/
def Expr.ofElements : List Element → Option (List Expr)
  | [] => some []
  | e :: es => do return (← Expr.ofElement e) :: (← Expr.ofElements es)

end

mutual

theorem Expr.ofElement_element : ∀ e : Expr, Expr.ofElement e.element.bare = some e.erase
  | .int digits l => rfl
  | .float digits l => rfl
  | .var name l => rfl
  | .binary op lhs rhs l => by
    have hinside : Expr.ofElements [lhs.element.bare, rhs.element.bare] =
        some [lhs.erase, rhs.erase] := by
      rw [Expr.ofElements, lhs.ofElement_element, Expr.ofElements, rhs.ofElement_element]
      rfl
    show (Expr.ofElements [lhs.element.bare, rhs.element.bare]).bind _ = _
    rw [hinside]
    cases op <;> rfl
  | .call function arguments l => by
    show (Expr.ofElements (Element.bareAll (Expr.elements arguments))).bind _ = _
    rw [Expr.ofElements_elements arguments]
    rfl

theorem Expr.ofElements_elements : ∀ es : List Expr,
    Expr.ofElements (Element.bareAll (Expr.elements es)) = some (Expr.eraseAll es)
  | [] => rfl
  | e :: es => by
    show (Expr.ofElements (e.element.bare :: Element.bareAll (Expr.elements es))) = _
    rw [Expr.ofElements, e.ofElement_element, Expr.ofElements_elements es]
    rfl

end

/-- The condition that an element is the element of. -/
def Condition.ofElement (e : Element) : Option Condition :=
  match e.children with
  | [.mk tag _ _ [lhs, rhs]] => do
    return ⟨← Comparison.ofTag? tag, ← Expr.ofElement lhs, ← Expr.ofElement rhs⟩
  | _ => none

theorem Condition.ofElement_element (c : Condition) : ofElement c.element.bare = some c.erase := by
  simp only [element, Element.branch, Element.bare, Element.bareAll, ofElement, Element.children,
    Comparison.ofTag?_tag, Expr.ofElement_element]
  rfl

/-! ## Declarations -/

namespace Declaration

/-- The declaration that an element is the element of. -/
def ofElement (e : Element) : Option Declaration :=
  match e.tag, e.children with
  | .stringDeclaration, [name, value] => do return text (← name.name?) (← value.name?)
  | .variableDeclaration, type :: names => do
    return numbers ⟨← NumClass.ofTag? type.tag, {}⟩ (← names.mapM Element.name?)
  | _, _ => none

theorem ofElement_element (d : Declaration) : ofElement d.element.bare = some d.erase := by
  cases d with
  | text name value => rfl
  | numbers type names =>
    have hnames := Element.mapM_bareAll Element.name?_name names
    simp only [element, Element.branch, Element.bare, Element.bareAll, ofElement, Element.tag,
      Element.children, NumClass.ofTag?_tag, hnames]
    rfl

end Declaration

/-! ## Statements -/

/-- The declarations that an element holds. -/
def Declaration.listOf (e : Element) : Option (List Declaration) :=
  e.children.mapM Declaration.ofElement

theorem Declaration.listOf_branch (ds : List Declaration) :
    listOf (Element.branch .declarationList (ds.map element)).bare = some (ds.map erase) :=
  Element.mapM_bareAll ofElement_element ds

mutual

/-- The statement that an element is the element of. Its blocks get the global scope for want of
their own. -/
def Statement.ofElement : Element → Option Statement
  | .mk .assignment _ _ [target, value] => do
    return .assign (← target.name?) (← Expr.ofElement value)
  | .mk .read _ _ names => (names.mapM Element.name?).map .read
  | .mk .write _ _ names => (names.mapM Element.name?).map .write
  | .mk .if_ _ _ [condition, declarations, statements] => do
    return .ifThen (← Condition.ofElement condition) (← Block.ofElements declarations statements)
  | .mk .if_ _ _ [condition, declarations, statements, declarations', statements'] => do
    return .ifElse (← Condition.ofElement condition) (← Block.ofElements declarations statements)
      (← Block.ofElements declarations' statements')
  | .mk .while_ _ _ [condition, declarations, statements] => do
    return .loop (← Condition.ofElement condition) (← Block.ofElements declarations statements)
  | .mk .return_ _ _ [value] => (Expr.ofElement value).map .return_
  | _ => none

/-- The block whose declarations and statements two elements hold. -/
def Block.ofElements (declarations : Element) : Element → Option Block
  | .mk _ _ _ statements => do
    return ⟨← Declaration.listOf declarations, ← Statement.ofElements statements, .global⟩

/-- The statements of elements in a row. -/
def Statement.ofElements : List Element → Option (List Statement)
  | [] => some []
  | e :: es => do return (← Statement.ofElement e) :: (← Statement.ofElements es)

end

namespace Block

/-- The element that shows the declarations of a block. -/
def declarationList (b : Block) : Element :=
  .branch .declarationList (b.declarations.map Declaration.element)

/-- The element that shows the statements of a block. -/
def statementList (b : Block) : Element :=
  .branchIn b.scope .statementList (Statement.elements b.statements)

theorem elements_eq (b : Block) : b.elements = [b.declarationList, b.statementList] := by
  cases b
  rfl

end Block

mutual

theorem Statement.ofElement_element : ∀ s : Statement,
    Statement.ofElement s.element.bare = some (s.outline Scope.forget)
  | .assign target value => by
    simp only [Statement.element, Element.branch, Element.bare, Element.bareAll,
      Statement.ofElement, Element.name?_name, Expr.ofElement_element]
    rfl
  | .read names => by
    simp only [Statement.element, Element.branch, Element.bare, Statement.ofElement,
      Element.mapM_bareAll Element.name?_name names]
    rfl
  | .write names => by
    simp only [Statement.element, Element.branch, Element.bare, Statement.ofElement,
      Element.mapM_bareAll Element.name?_name names]
    rfl
  | .ifThen condition body => by
    simp only [Statement.element, body.elements_eq, Element.branch, Element.bare, Element.bareAll,
      Statement.ofElement, condition.ofElement_element, body.ofElements_elements]
    rfl
  | .ifElse condition body alternative => by
    simp only [Statement.element, Block.elements_eq, List.cons_append, List.nil_append,
      Element.branch, Element.bare, Element.bareAll, Statement.ofElement,
      condition.ofElement_element, body.ofElements_elements, alternative.ofElements_elements]
    rfl
  | .loop condition body => by
    simp only [Statement.element, body.elements_eq, Element.branch, Element.bare, Element.bareAll,
      Statement.ofElement, condition.ofElement_element, body.ofElements_elements]
    rfl
  | .return_ value => by
    simp only [Statement.element, Element.branch, Element.bare, Element.bareAll,
      Statement.ofElement, value.ofElement_element]
    rfl

theorem Block.ofElements_elements : ∀ b : Block,
    Block.ofElements b.declarationList.bare b.statementList.bare = some (b.outline Scope.forget)
  | ⟨declarations, statements, scope⟩ => by
    have hdeclarations := Declaration.listOf_branch declarations
    simp only [Block.declarationList, Block.statementList, Element.branchIn, Element.bare,
      Block.ofElements, hdeclarations, Statement.ofElements_elements statements]
    rfl

theorem Statement.ofElements_elements : ∀ ss : List Statement,
    Statement.ofElements (Element.bareAll (Statement.elements ss)) =
      some (Statement.outlineAll Scope.forget ss)
  | [] => rfl
  | s :: ss => by
    simp only [Statement.elements, Element.bareAll, Statement.ofElements, s.ofElement_element,
      Statement.ofElements_elements ss]
    rfl

end

/-! ## Programs -/

/-- The parameter that an element is the element of. -/
def Parameter.ofElement (e : Element) : Option Parameter :=
  match e.children with
  | [type, name] => do return ⟨⟨← NumClass.ofTag? type.tag, {}⟩, ← name.name?⟩
  | _ => none

theorem Parameter.ofElement_element (p : Parameter) : ofElement p.element.bare = some p.erase := by
  simp only [element, Element.branch, Element.bare, Element.bareAll, ofElement, Element.children,
    Element.tag, NumClass.ofTag?_tag, Element.name?_name]
  rfl

/-- The function that an element is the element of. -/
def Function.ofElement (e : Element) : Option Function :=
  match e.children with
  | [returns, name, parameters, declarations, statements] => do
    return ⟨⟨← ReturnType.ofTag? returns.tag, {}⟩, ← name.name?,
      ← parameters.children.mapM Parameter.ofElement,
      ← Block.ofElements declarations statements⟩
  | _ => none

theorem Function.ofElement_element (f : Function) :
    ofElement f.element.bare = some (f.outline Scope.forget) := by
  have hparameters := Element.mapM_bareAll Parameter.ofElement_element f.parameters
  simp only [element, Block.elements_eq, List.cons_append, List.nil_append, Element.branch,
    Element.bare, Element.bareAll, ofElement, Element.children, Element.tag,
    ReturnType.ofTag?_tag, Element.name?_name, hparameters, f.body.ofElements_elements]
  rfl

namespace Program

/-- The program that an element is the element of, without locations and scopes. -/
def ofElement (e : Element) : Option Program :=
  match e.children with
  | [name, declarations, functions] => do
    return ⟨← name.name?, ← Declaration.listOf declarations, .global,
      ← functions.children.mapM Function.ofElement, {}⟩
  | _ => none

theorem ofElement_element (p : Program) :
    ofElement p.element.bare = some (p.outline Scope.forget) := by
  have hglobals := Element.mapM_bareAll Declaration.ofElement_element p.globals
  have hfunctions := Element.mapM_bareAll Function.ofElement_element p.functions
  simp only [element, Element.branch, Element.branchIn, Element.bare, Element.bareAll, ofElement,
    Element.children, Declaration.listOf, Element.name?_name, hfunctions, hglobals]
  rfl

/-- The program that a tree listing shows, at no place. -/
def ofTreeText (text : String) : Option Program :=
  ((Nesting.read text).bind ofElement).map rescope

variable {cs cs' : List (Char × Position)} {tokens tokens' : List (Located Token)}
  {p p' : Program}

theorem read_treeText (hscan : Scan.scan cs = .ok tokens) (hparse : parse tokens = .ok p) :
    Nesting.read p.treeText = some p.element.bare :=
  Nesting.read_text (writable_of_parse hscan hparse)

theorem ofTreeText_treeText (hscan : Scan.scan cs = .ok tokens) (hparse : parse tokens = .ok p) :
    ofTreeText p.treeText = some (p.outline Scope.erase) := by
  -- No scope has been read, but the declarations make them all again.
  rw [ofTreeText, read_treeText hscan hparse, Option.bind_some, ofElement_element, Option.map_some,
    rescope_outline, outline_of_parse hparse]

/-- The listing of a tree is balanced: read line by line, every element that is opened is closed by
its own tag behind the elements in it. Two programs have the same listing exactly if they are equal
up to locations, with their scopes. -/
theorem treeText_loses_nothing (hscan : Scan.scan cs = .ok tokens) (hparse : parse tokens = .ok p)
    (hscan' : Scan.scan cs' = .ok tokens') (hparse' : parse tokens' = .ok p') :
    Nesting.read p.treeText = some p.element.bare ∧
    (p.treeText = p'.treeText ↔ p.outline Scope.erase = p'.outline Scope.erase) := by
  refine ⟨read_treeText hscan hparse, fun htext => ?_, fun houtline => ?_⟩
  · have hp := ofTreeText_treeText hscan hparse
    rw [htext, ofTreeText_treeText hscan' hparse'] at hp
    exact (Option.some.inj hp).symm
  · rw [← treeText_outline p, houtline, treeText_outline p']

/-- A program with a text that looks like the end of its listing. -/
def closingText : String := "PROGRAM p BEGIN STRING s := \"</Program>/>\"; END"

/-- The same program on two lines. -/
def closingTextRelaid : String := "PROGRAM p BEGIN\nSTRING s:=\"</Program>/>\"; END"

/-- The tree listing of the program that a text is. -/
def treeText? (text : String) : Option String :=
  (Scan.scan (Source.ofText "p" text).chars).toOption.bind fun tokens =>
    (parse tokens).toOption.bind fun p => some p.treeText

theorem treeText_loses_nothing_relaid :
    ∃ tokens tokens' p p', Scan.scan (Source.ofText "p" closingText).chars = .ok tokens ∧
      Scan.scan (Source.ofText "p" closingTextRelaid).chars = .ok tokens' ∧
      parse tokens = .ok p ∧ parse tokens' = .ok p' ∧ p.treeText = p'.treeText ∧
      Nesting.read p.treeText = some p.element.bare ∧
      p.outline Scope.erase = p'.outline Scope.erase := by
  have hshown : (treeText? closingText).isSome := by decide +kernel
  have hsame : treeText? closingText = treeText? closingTextRelaid := by decide +kernel
  obtain ⟨text, htext⟩ := Option.isSome_iff_exists.1 hshown
  obtain ⟨tokens, hscan, hparsed⟩ := exists_of_toOption_bind htext
  obtain ⟨p, hparse, hp⟩ := exists_of_toOption_bind hparsed
  obtain ⟨tokens', hscan', hparsed'⟩ := exists_of_toOption_bind (hsame.symm.trans htext)
  obtain ⟨p', hparse', hp'⟩ := exists_of_toOption_bind hparsed'
  have hequal : p.treeText = p'.treeText := Option.some.inj (hp.trans hp'.symm)
  obtain ⟨hbalanced, hloses⟩ := treeText_loses_nothing hscan hparse hscan' hparse'
  exact ⟨tokens, tokens', p, p', hscan, hscan', hparse, hparse', hequal, hbalanced, hloses.1 hequal⟩

end Program

end LittleTiny
