import LittleTiny.Compilation
import LittleTiny.Proofs.Names
import LittleTiny.Proofs.Numbering
import Mathlib.Data.List.Flatten

/-!
# Declarations in the code

The code of a program declares the scopes that have variables, that of the program and those of the
blocks of `main`, in the order in which they are opened (`Program.LoweredTo.scopes_eq`), and it uses
no variable before its declaration (`Program.LoweredTo.declaresFirst`). `Code.Emittable` puts
together what is needed for a listing to mean what the code means, and `Program.emittable` says
that all code has it.
-/

namespace LittleTiny

namespace Operand

/-- The variable that an operand names. -/
def cells : Operand → List Variable
  | temp _ => []
  | var v => [v]
  | literal _ => []

/-- The literal that an operand is. -/
def literals : Operand → List String
  | temp _ => []
  | var _ => []
  | literal digits => [digits]

end Operand

namespace Instruction

/-- The scope that is declared. -/
def scope? : Instruction → Option Scope
  | declare scope => some scope
  | _ => none

/-- The variables that are declared. -/
def declared : Instruction → List Variable
  | declare scope => scope.declared
  | _ => []

/-- The variables whose cells are read or set. -/
def uses : Instruction → List Variable
  | store _ source target => source.cells ++ target.cells
  | read _ v => [v]
  | write v => [v]
  | _ => []

/-- The literals of an instruction. -/
def literals : Instruction → List String
  | store _ source target => source.literals ++ target.literals
  | _ => []

/-- An operation does not put its result in the place of its right operand. -/
def Apart : Instruction → Prop
  | arith _ _ _ rhs out => out ≠ rhs
  | _ => True

end Instruction

/-- The scope has variables. -/
def Scope.inhabited (scope : Scope) : Bool := !scope.declared.isEmpty

namespace Code

/-- The scopes that the code declares, in order. -/
def scopes (code : Code) : List Scope := code.filterMap Instruction.scope?

/-- The variables that the code declares, in order. -/
def declared (code : Code) : List Variable := code.flatMap Instruction.declared

/-- The literals of the code, in order. -/
def literals (code : Code) : List String := code.flatMap Instruction.literals

/-- No variable is used before it is declared, but for those that are known before. -/
def DeclaresFirst (known : List Variable) : Code → Prop
  | [] => True
  | i :: code => i.uses ⊆ known ∧ DeclaresFirst (known ++ i.declared) code

section

variable (code code' : Code)

theorem scopes_append : (code ++ code').scopes = code.scopes ++ code'.scopes :=
  List.filterMap_append ..

theorem declared_append : (code ++ code').declared = code.declared ++ code'.declared :=
  List.flatMap_append ..

theorem literals_append : (code ++ code').literals = code.literals ++ code'.literals :=
  List.flatMap_append ..

theorem scopes_jump (l : Label) : scopes (.jump l :: code) = code.scopes := rfl

theorem scopes_label (l : Label) : scopes (.label l :: code) = code.scopes := rfl

theorem literals_jump (l : Label) : literals (.jump l :: code) = code.literals := rfl

theorem literals_label (l : Label) : literals (.label l :: code) = code.literals := rfl

/-- The variables that are declared are those of the scopes. -/
theorem declared_eq_flatMap : code.declared = code.scopes.flatMap Scope.declared := by
  induction code with
  | nil => rfl
  | cons i code ih =>
    rw [declared, List.flatMap_cons]
    cases i with
    | declare scope => exact congrArg (scope.declared ++ ·) ih
    | _ => exact ih

end

theorem declaresFirst_append {known : List Variable} {code code' : Code} :
    DeclaresFirst known (code ++ code') ↔
      DeclaresFirst known code ∧ DeclaresFirst (known ++ code.declared) code' := by
  induction code generalizing known with
  | nil => simp [DeclaresFirst, declared]
  | cons i code ih =>
    rw [List.cons_append, DeclaresFirst, ih, DeclaresFirst, and_assoc, List.append_assoc]
    rfl

/-- What an instruction uses has been declared before it. -/
theorem DeclaresFirst.uses_subset {known : List Variable} {before after : Code} {i : Instruction}
    (h : DeclaresFirst known (before ++ i :: after)) : i.uses ⊆ known ++ before.declared :=
  (declaresFirst_append.1 h).2.1

end Code

/-! ## Expressions and conditions -/

section

variable {env : Frames} {known : List Variable}

theorem Frames.mem_flatten_of_find? {name : String} {v : Variable} (h : env.find? name = some v) :
    v ∈ env.flatten := by
  obtain ⟨frame, hframe, hv⟩ := List.exists_of_findSome?_eq_some h
  exact List.mem_flatten.2 ⟨frame, hframe, List.mem_of_find?_eq_some hv⟩

theorem Frames.mem_flatten_of_number? {name : String} {of : NumClass} {v : Variable}
    (h : env.number? name = some (of, v)) : v ∈ env.flatten := by
  unfold Frames.number? at h
  cases hfind : env.find? name with
  | none =>
    rw [hfind] at h
    cases h
  | some v' =>
    rw [hfind] at h
    dsimp only at h
    cases htype : v'.type with
    | string =>
      rw [htype] at h
      cases h
    | number of' =>
      rw [htype] at h
      cases h
      exact mem_flatten_of_find? hfind

variable {e : Expr} {n n' : Nat} {k : NumClass} {code : Code}

theorem Expr.Lowered.scopes_eq (h : e.Lowered env n k code n') : code.scopes = [] := by
  induction h with
  | int => rfl
  | float => rfl
  | var => rfl
  | binary ha hb iha ihb =>
    rw [Code.scopes_append, Code.scopes_append, iha, ihb]
    rfl

theorem Expr.Lowered.declared_eq (h : e.Lowered env n k code n') : code.declared = [] := by
  rw [Code.declared_eq_flatMap, h.scopes_eq]
  rfl

theorem Expr.Lowered.literals_eq (h : e.Lowered env n k code n') : code.literals = e.literals := by
  induction h with
  | int => rfl
  | float => rfl
  | var => rfl
  | binary ha hb iha ihb =>
    rw [Code.literals_append, Code.literals_append, iha, ihb, Expr.literals]
    exact List.append_nil _

/-- The result of an operation goes to a temporary that was taken before those of its operands. -/
theorem Expr.Lowered.apart (h : e.Lowered env n k code n') : ∀ i ∈ code, i.Apart := by
  induction h with
  | int => exact List.forall_mem_singleton.2 trivial
  | float => exact List.forall_mem_singleton.2 trivial
  | var => exact List.forall_mem_singleton.2 trivial
  | binary ha hb iha ihb =>
    have hlt := ha.lt
    refine List.forall_mem_append.2 ⟨List.forall_mem_append.2 ⟨iha, ihb⟩, ?_⟩
    refine List.forall_mem_singleton.2 fun h => ?_
    have hindex := congrArg Temp.index h
    dsimp only at hindex
    omega

theorem Expr.Lowered.declaresFirst (h : e.Lowered env n k code n') (hknown : env.flatten ⊆ known) :
    code.DeclaresFirst known := by
  induction h with
  | int => exact ⟨List.nil_subset _, trivial⟩
  | float => exact ⟨List.nil_subset _, trivial⟩
  | var hv =>
    refine ⟨fun v hmem => ?_, trivial⟩
    rw [List.mem_singleton.1 hmem]
    exact hknown (Frames.mem_flatten_of_number? hv)
  | binary ha hb iha ihb =>
    rw [Code.declaresFirst_append, Code.declaresFirst_append, ha.declared_eq, List.append_nil]
    exact ⟨⟨iha, ihb⟩, List.nil_subset _, trivial⟩

end

section

variable {env : Frames} {known : List Variable} {c : Condition} {target : Label} {n n' : Nat}
  {code : Code}

theorem Condition.Lowered.scopes_eq (h : c.Lowered env target n code n') : code.scopes = [] := by
  obtain ⟨ha, hb⟩ := h
  rw [Code.scopes_append, Code.scopes_append, ha.scopes_eq, hb.scopes_eq]
  rfl

theorem Condition.Lowered.literals_eq (h : c.Lowered env target n code n') :
    code.literals = c.literals := by
  obtain ⟨ha, hb⟩ := h
  rw [Code.literals_append, Code.literals_append, ha.literals_eq, hb.literals_eq,
    Condition.literals]
  exact List.append_nil _

theorem Condition.Lowered.apart (h : c.Lowered env target n code n') : ∀ i ∈ code, i.Apart := by
  obtain ⟨ha, hb⟩ := h
  refine List.forall_mem_append.2 ⟨List.forall_mem_append.2 ⟨ha.apart, hb.apart⟩, ?_⟩
  exact List.forall_mem_singleton.2 trivial

theorem Condition.Lowered.declaresFirst (h : c.Lowered env target n code n')
    (hknown : env.flatten ⊆ known) : code.DeclaresFirst known := by
  obtain ⟨ha, hb⟩ := h
  rw [Code.declaresFirst_append, Code.declaresFirst_append, ha.declared_eq, List.append_nil]
  exact ⟨⟨ha.declaresFirst hknown, hb.declaresFirst hknown⟩, List.nil_subset _, trivial⟩

end

/-! ## Statements -/

namespace Scope

variable (scope : Scope)

theorem scopes_declaration : scope.declaration.scopes = [scope].filter inhabited := by
  unfold declaration
  by_cases h : scope.declared.isEmpty <;> simp [h, inhabited, Code.scopes, Instruction.scope?]

theorem declared_declaration : scope.declaration.declared = scope.declared := by
  unfold declaration
  by_cases h : scope.declared.isEmpty
  · rw [if_pos h, List.isEmpty_iff.1 h]
    rfl
  · rw [if_neg h]
    exact List.append_nil _

theorem literals_declaration : scope.declaration.literals = [] := by
  unfold declaration
  split <;> rfl

theorem apart_declaration : ∀ i ∈ scope.declaration, i.Apart := by
  intro i hi
  unfold declaration at hi
  split at hi
  · cases hi
  · rw [List.mem_singleton.1 hi]
    trivial

theorem declaresFirst_declaration (known : List Variable) :
    scope.declaration.DeclaresFirst known := by
  unfold declaration
  split
  · trivial
  · exact ⟨List.nil_subset _, trivial⟩

end Scope

theorem Block.scopes_eq (b : Block) : b.scopes = b.scope :: Statement.scopesAll b.statements := by
  cases b
  rfl

theorem Block.literals_eq (b : Block) : b.literals = Statement.literalsAll b.statements := by
  cases b
  rfl

namespace Lowered

variable {env : Frames} {ss : List Statement} {s s' : Supply} {code : Code}

theorem scopes_block {body : Block} {inner : Code}
    (h : inner.scopes = (Statement.scopesAll body.statements).filter Scope.inhabited) :
    (body.scope.declaration ++ inner).scopes = body.scopes.filter Scope.inhabited := by
  rw [Code.scopes_append, Scope.scopes_declaration, h, ← List.filter_append, Block.scopes_eq]
  rfl

/-- The code declares the scopes inside the statements, but for those without variables. -/
theorem scopes_eq (h : Lowered env ss s code s') :
    code.scopes = (Statement.scopesAll ss).filter Scope.inhabited := by
  induction h with
  | nil => rfl
  | assign hv ha hss ih =>
    rw [Code.scopes_append, ha.scopes_eq]
    exact ih
  | readNil hss ih => exact ih
  | readCons hv hss ih => exact ih
  | writeNil hss ih => exact ih
  | writeCons hv hss ih => exact ih
  | ifThen hc hscope hbody hss ihbody ihss =>
    rw [Statement.scopesAll, Statement.scopes, List.filter_append, ← ihss, ← scopes_block ihbody,
      Code.scopes_append, Code.scopes_append, hc.scopes_eq]
    rfl
  | ifElse hc hscope hbody hscope' halternative hss ihbody ihalternative ihss =>
    rw [Statement.scopesAll, Statement.scopes, List.filter_append, List.filter_append, ← ihss,
      ← scopes_block ihbody, ← scopes_block ihalternative]
    simp only [Code.scopes_append, Code.scopes_jump, Code.scopes_label, hc.scopes_eq,
      List.nil_append, List.append_assoc]
  | loop hc hscope hbody hss ihbody ihss =>
    rw [Statement.scopesAll, Statement.scopes, List.filter_append, ← ihss, ← scopes_block ihbody,
      Code.scopes_label, Code.scopes_append, Code.scopes_append, Code.scopes_jump,
      Code.scopes_label, hc.scopes_eq]
    rfl

theorem literals_block {body : Block} {inner : Code}
    (h : inner.literals = Statement.literalsAll body.statements) :
    (body.scope.declaration ++ inner).literals = body.literals := by
  rw [Code.literals_append, Scope.literals_declaration, h, Block.literals_eq]
  rfl

/-- The literals of the code are those of the statements. -/
theorem literals_eq (h : Lowered env ss s code s') :
    code.literals = Statement.literalsAll ss := by
  induction h with
  | nil => rfl
  | assign hv ha hss ih =>
    rw [Code.literals_append, ha.literals_eq, Statement.literalsAll, ← ih]
    rfl
  | readNil hss ih => exact ih
  | readCons hv hss ih => exact ih
  | writeNil hss ih => exact ih
  | writeCons hv hss ih => exact ih
  | ifThen hc hscope hbody hss ihbody ihss =>
    rw [Statement.literalsAll, Statement.literals, ← ihss, ← literals_block ihbody,
      Code.literals_append, Code.literals_append, hc.literals_eq]
    rfl
  | ifElse hc hscope hbody hscope' halternative hss ihbody ihalternative ihss =>
    rw [Statement.literalsAll, Statement.literals, ← ihss, ← literals_block ihbody,
      ← literals_block ihalternative]
    simp only [Code.literals_append, Code.literals_jump, Code.literals_label, hc.literals_eq,
      List.append_assoc]
  | loop hc hscope hbody hss ihbody ihss =>
    rw [Statement.literalsAll, Statement.literals, ← ihss, ← literals_block ihbody,
      Code.literals_label, Code.literals_append, Code.literals_append, Code.literals_jump,
      Code.literals_label, hc.literals_eq]

/-- No operation puts its result in the place of its right operand. -/
theorem apart (h : Lowered env ss s code s') : ∀ i ∈ code, i.Apart := by
  induction h with
  | nil => exact fun i hi => nomatch hi
  | assign hv ha hss ih =>
    exact List.forall_mem_append.2 ⟨ha.apart, List.forall_mem_cons.2 ⟨trivial, ih⟩⟩
  | readNil hss ih => exact ih
  | readCons hv hss ih => exact List.forall_mem_cons.2 ⟨trivial, ih⟩
  | writeNil hss ih => exact ih
  | writeCons hv hss ih => exact List.forall_mem_cons.2 ⟨trivial, ih⟩
  | ifThen hc hscope hbody hss ihbody ihss =>
    simp only [List.forall_mem_append, List.forall_mem_cons]
    exact ⟨⟨hc.apart, Scope.apart_declaration _, ihbody⟩, trivial, ihss⟩
  | ifElse hc hscope hbody hscope' halternative hss ihbody ihalternative ihss =>
    simp only [List.forall_mem_append, List.forall_mem_cons]
    exact ⟨⟨hc.apart, Scope.apart_declaration _, ihbody⟩, trivial, trivial,
      ⟨Scope.apart_declaration _, ihalternative⟩, trivial, ihss⟩
  | loop hc hscope hbody hss ihbody ihss =>
    simp only [List.forall_mem_append, List.forall_mem_cons]
    exact ⟨trivial, ⟨hc.apart, Scope.apart_declaration _, ihbody⟩, trivial, trivial, ihss⟩

theorem declaresFirst_block {known : List Variable} {body : Block} {inner : Code}
    (hscope : body.scope.declared = body.frame)
    (h : ∀ {known : List Variable}, (body.frame :: env).flatten ⊆ known →
      inner.DeclaresFirst known) (hknown : env.flatten ⊆ known) :
    (body.scope.declaration ++ inner).DeclaresFirst known := by
  refine Code.declaresFirst_append.2 ⟨Scope.declaresFirst_declaration _ known, h ?_⟩
  rw [Scope.declared_declaration, hscope, List.flatten_cons]
  exact List.append_subset.2 ⟨List.subset_append_right _ _,
    List.subset_append_of_subset_left _ hknown⟩

/-- A variable that is used in the code is one of the frames around the statements, or it has been
declared before. -/
theorem declaresFirst (h : Lowered env ss s code s') :
    ∀ {known : List Variable}, env.flatten ⊆ known → code.DeclaresFirst known := by
  induction h with
  | nil => exact fun _ => trivial
  | assign hv ha hss ih =>
    intro known hknown
    refine Code.declaresFirst_append.2 ⟨ha.declaresFirst hknown, ?_, ih ?_⟩
    · refine List.cons_subset.2 ⟨?_, List.nil_subset _⟩
      exact List.mem_append_left _ (hknown (Frames.mem_flatten_of_number? hv))
    · exact fun v hv => by simp [hknown hv]
  | readNil hss ih => exact ih
  | readCons hv hss ih =>
    intro known hknown
    refine ⟨List.cons_subset.2 ⟨hknown (Frames.mem_flatten_of_number? hv), List.nil_subset _⟩, ?_⟩
    exact ih (List.subset_append_of_subset_left _ hknown)
  | writeNil hss ih => exact ih
  | writeCons hv hss ih =>
    intro known hknown
    refine ⟨List.cons_subset.2 ⟨hknown (Frames.mem_flatten_of_find? hv), List.nil_subset _⟩, ?_⟩
    exact ih (List.subset_append_of_subset_left _ hknown)
  | ifThen hc hscope hbody hss ihbody ihss =>
    intro known hknown
    rw [Code.declaresFirst_append, Code.declaresFirst_append]
    refine ⟨⟨hc.declaresFirst hknown, declaresFirst_block hscope ihbody ?_⟩, List.nil_subset _,
      ihss ?_⟩
    all_goals exact fun v hv => by simp [hknown hv]
  | ifElse hc hscope hbody hscope' halternative hss ihbody ihalternative ihss =>
    intro known hknown
    rw [Code.declaresFirst_append, Code.declaresFirst_append]
    refine ⟨⟨hc.declaresFirst hknown, declaresFirst_block hscope ihbody ?_⟩, List.nil_subset _,
      List.nil_subset _, Code.declaresFirst_append.2 ⟨declaresFirst_block hscope' ihalternative ?_,
        List.nil_subset _, ihss ?_⟩⟩
    all_goals exact fun v hv => by simp [hknown hv]
  | loop hc hscope hbody hss ihbody ihss =>
    intro known hknown
    refine ⟨List.nil_subset _, ?_⟩
    rw [Code.declaresFirst_append, Code.declaresFirst_append]
    refine ⟨⟨hc.declaresFirst ?_, declaresFirst_block hscope ihbody ?_⟩, List.nil_subset _,
      List.nil_subset _, ihss ?_⟩
    all_goals exact fun v hv => by simp [hknown hv]

end Lowered

/-! ## Programs -/

namespace Program

variable {p : Program} {main : Function} {body : Code} {s : Supply} {code : Code}

/-- The scope of the program and those of the blocks of `main`, among all scopes. -/
theorem scopes_sublist (h : p.main? = some main) :
    (p.scope :: main.body.scopes).Sublist p.scopes := by
  have hmem : main.body.scopes ∈ p.functions.map fun f => f.body.scopes :=
    List.mem_map.2 ⟨main, List.mem_of_find?_eq_some h, rfl⟩
  exact (List.sublist_flatten_of_mem hmem).cons_cons p.scope

namespace LoweredTo

theorem scopes_eq (h : p.LoweredTo main body s code) :
    code.scopes = (p.scope :: main.body.scopes).filter Scope.inhabited := by
  rw [h.code_eq, Code.scopes_append, Lowered.scopes_block h.lowered.scopes_eq,
    Scope.scopes_declaration, ← List.filter_append]
  rfl

theorem literals_eq (h : p.LoweredTo main body s code) : code.literals = main.body.literals := by
  rw [h.code_eq, Code.literals_append, Lowered.literals_block h.lowered.literals_eq,
    Scope.literals_declaration]
  rfl

theorem apart (h : p.LoweredTo main body s code) : ∀ i ∈ code, i.Apart := by
  rw [h.code_eq, List.forall_mem_append, List.forall_mem_append]
  exact ⟨Scope.apart_declaration _, Scope.apart_declaration _, h.lowered.apart⟩

/-- The code uses no variable before it has declared it. -/
theorem declaresFirst (h : p.LoweredTo main body s code) : code.DeclaresFirst [] := by
  rw [h.code_eq, Code.declaresFirst_append, Code.declaresFirst_append, Scope.declared_declaration,
    Scope.declared_declaration, h.declared, h.declared_main]
  refine ⟨Scope.declaresFirst_declaration _ _, Scope.declaresFirst_declaration _ _,
    h.lowered.declaresFirst fun v hv => ?_⟩
  simpa [or_comm] using hv

/-- The variables that the code declares are variables of the program, in the same order. -/
theorem declared_sublist (h : p.LoweredTo main body s code) (hp : p.WellScoped) :
    code.declared.Sublist p.cells := by
  rw [Code.declared_eq_flatMap, hp.cells_eq, h.scopes_eq]
  exact (List.filter_sublist.trans (scopes_sublist h.main_eq)).flatMap Scope.declared

end LoweredTo

end Program

/-- What the code has to keep to for its listing to have the same meaning. -/
structure Code.Emittable (code : Code) : Prop where
  apart : ∀ i ∈ code, i.Apart
  numerals : Numerals code.literals
  mangled_inj : ∀ v ∈ code.declared, ∀ v' ∈ code.declared, v.mangled = v'.mangled → v = v'
  declared : ∀ i ∈ code, i.uses ⊆ code.declared
  nodup_labels : code.labels.Nodup

theorem Code.Emittable.uses_subset {code : Code} (h : code.Emittable) {place : Nat}
    {i : Instruction} (hi : code[place]? = some i) : i.uses ⊆ code.declared :=
  h.declared i (List.mem_of_getElem? hi)

theorem Code.Emittable.numerals_instruction {code : Code} (h : code.Emittable) {place : Nat}
    {i : Instruction} (hi : code[place]? = some i) : Numerals i.literals :=
  fun digits hd => h.numerals digits (List.mem_flatMap.2 ⟨i, List.mem_of_getElem? hi, hd⟩)

/-- The code of every program that is scanned and read can be emitted. -/
theorem Program.emittable {cs : List (Char × Position)} {tokens : List (Located Token)}
    {p : Program} {code : Code} (hs : Scan.scan cs = .ok tokens)
    (hp : Program.parse tokens = .ok p) (hc : p.lower = .ok code) : code.Emittable := by
  obtain ⟨main, body, s, hcode⟩ := Program.exists_loweredTo hp hc
  have hfirst := hcode.declaresFirst
  have hsublist := hcode.declared_sublist (Program.wellScoped_of_parse hp)
  refine ⟨hcode.apart, ?_, ?_, ?_, hcode.nodup_labels⟩
  · rw [hcode.literals_eq]
    exact Program.numerals_main hs hp hcode.main_eq
  · have hmangled := (Program.nodup_mangled hs hp).sublist (hsublist.map Variable.mangled)
    exact List.inj_on_of_nodup_map hmangled
  · intro i hi
    obtain ⟨before, after, heq⟩ := List.append_of_mem hi
    rw [heq] at hfirst ⊢
    refine List.Subset.trans hfirst.uses_subset ?_
    rw [Code.declared_append]
    exact List.subset_append_left _ _

theorem phases_of_compile {source : Source} {c : Compilation} (h : compile source = .ok c) :
    Scan.scan source.chars = .ok c.tokens ∧ Program.parse c.tokens = .ok c.program ∧
      c.program.lower = .ok c.code := by
  unfold compile at h
  split at h
  · cases h
  · next tokens hscan =>
    split at h
    · cases h
    · next program hparse =>
      split at h
      · cases h
      · next code hlower =>
        cases h
        exact ⟨hscan, hparse, hlower⟩

end LittleTiny
