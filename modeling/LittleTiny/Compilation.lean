import LittleTiny.Code.Lowering
import LittleTiny.Report
import LittleTiny.Tiny
import LittleTiny.Token.Scan
import LittleTiny.Tree.Element
import LittleTiny.Tree.Program

/-!
# Compilations

A source is scanned, read as a program and lowered; the first of these phases that fails ends the
compilation with a report. A finished compilation is written as up to three listings: the tree, the
code behind semicolons, and the Tiny assembly, with an empty line between the last two.
-/

namespace LittleTiny

/-- A finished compilation, with what each phase made. -/
structure Compilation where
  tokens : List (Located Token)
  program : Program
  code : Code

/-- A compilation that did not finish, with what the phases before the failing one made. -/
inductive Failure where
  | lexical (errors : List (Located ScanError))
  | syntactic (tokens : List (Located Token)) (error : Located SyntaxError)
  | semantic (tokens : List (Located Token)) (program : Program) (error : Located SemanticError)

/-- Compiles a source. The first phase that fails ends the compilation. -/
def compile (source : Source) : Except Failure Compilation :=
  match Scan.scan source.chars with
  | .error es => .error (.lexical es)
  | .ok tokens =>
    match Program.parse tokens with
    | .error e => .error (.syntactic tokens e)
    | .ok program =>
      match program.lower with
      | .error e => .error (.semantic tokens program e)
      | .ok code => .ok ⟨tokens, program, code⟩

/-- The report of a failure to compile `source`. -/
def Failure.report (source : Source) : Failure → Report
  | lexical es => ⟨"Lexical error", some source, es.map (·.map ScanError.message)⟩
  | syntactic _ e => ⟨"Syntax error", some source, [e.map SyntaxError.message]⟩
  | semantic _ _ e => ⟨"Semantic error", some source, [e.map SemanticError.message]⟩

/-! ## Listings -/

/-- Which listings are written. -/
structure Listings where
  tree : Bool := false
  code : Bool := true
  target : Bool := true
deriving DecidableEq, Repr

namespace Compilation

/-- The code, each line behind a semicolon. -/
def codeListing (c : Compilation) : String :=
  String.join (c.code.executable.map fun i => ";" ++ i.text ++ "\n")

/-- The selected listings. -/
def listing (c : Compilation) (selected : Listings) : String :=
  (if selected.tree then c.program.treeText else "") ++
  (if selected.code then c.codeListing else "") ++
  (if selected.code && selected.target then "\n" else "") ++
  (if selected.target then Tiny.text (Tiny.emit c.code) else "")

end Compilation

/-! ## Progress -/

/-- A phase that succeeded, as it is logged. -/
inductive Event where
  | scanned (source : String) (tokens : Nat)
  | parsed (program : String) (functions : Nat)
  | lowered (instructions : Nat)
deriving DecidableEq, Repr

namespace Event

/-- What is logged when the source has been scanned. -/
def ofTokens (source : Source) (tokens : List (Located Token)) : Event :=
  .scanned source.name tokens.length

/-- What is logged when the program has been read. -/
def ofProgram (p : Program) : Event := .parsed p.name.value p.functions.length

end Event

/-- The phases that succeeded before the one that failed. -/
def Failure.events (source : Source) : Failure → List Event
  | lexical _ => []
  | syntactic tokens _ => [.ofTokens source tokens]
  | semantic tokens program _ => [.ofTokens source tokens, .ofProgram program]

/-- The phases of a compilation that succeeded. -/
def Compilation.events (source : Source) (c : Compilation) : List Event :=
  [.ofTokens source c.tokens, .ofProgram c.program, .lowered c.code.length]

end LittleTiny
