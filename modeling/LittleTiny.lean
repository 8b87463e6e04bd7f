import LittleTiny.Code
import LittleTiny.Code.Lowering
import LittleTiny.Command.Arguments
import LittleTiny.Command.Files
import LittleTiny.Command.Host
import LittleTiny.Command.Machine
import LittleTiny.Command.Run
import LittleTiny.Compilation
import LittleTiny.Location
import LittleTiny.Main
import LittleTiny.NameMap
import LittleTiny.Proofs.Alignment
import LittleTiny.Proofs.Alignment.Compilation
import LittleTiny.Proofs.Alignment.Program
import LittleTiny.Proofs.Bytes
import LittleTiny.Proofs.Charges
import LittleTiny.Proofs.Charges.Lowering
import LittleTiny.Proofs.Coverage
import LittleTiny.Proofs.Declarations
import LittleTiny.Proofs.Emission
import LittleTiny.Proofs.Evaluation
import LittleTiny.Proofs.Execution
import LittleTiny.Proofs.Extents
import LittleTiny.Proofs.Faults
import LittleTiny.Proofs.Faults.Lowering
import LittleTiny.Proofs.Faults.Places
import LittleTiny.Proofs.Frames
import LittleTiny.Proofs.Grammar
import LittleTiny.Proofs.Grammar.Declaration
import LittleTiny.Proofs.Grammar.Expression
import LittleTiny.Proofs.Grammar.Program
import LittleTiny.Proofs.Grammar.Statement
import LittleTiny.Proofs.Grammar.Unique
import LittleTiny.Proofs.Layout
import LittleTiny.Proofs.Lexemes
import LittleTiny.Proofs.Lexemes.Automaton
import LittleTiny.Proofs.LineByLine
import LittleTiny.Proofs.Lines
import LittleTiny.Proofs.Listing
import LittleTiny.Proofs.Lowered
import LittleTiny.Proofs.Machine
import LittleTiny.Proofs.Names
import LittleTiny.Proofs.Numbering
import LittleTiny.Proofs.Outline
import LittleTiny.Proofs.Outline.Listing
import LittleTiny.Proofs.Outline.Lowering
import LittleTiny.Proofs.Outline.Main
import LittleTiny.Proofs.Outline.Rescope
import LittleTiny.Proofs.Placement
import LittleTiny.Proofs.Places
import LittleTiny.Proofs.Pointing
import LittleTiny.Proofs.Positions
import LittleTiny.Proofs.Printing
import LittleTiny.Proofs.Pulls
import LittleTiny.Proofs.Reading
import LittleTiny.Proofs.Regions
import LittleTiny.Proofs.ScopeRuns
import LittleTiny.Proofs.Scopes
import LittleTiny.Proofs.Simulation
import LittleTiny.Proofs.Spans
import LittleTiny.Proofs.Spans.Program
import LittleTiny.Proofs.Spelling
import LittleTiny.Proofs.Steps
import LittleTiny.Proofs.Tables
import LittleTiny.Proofs.Unparsing
import LittleTiny.Proofs.Unparsing.Expression
import LittleTiny.Proofs.Viability
import LittleTiny.Proofs.Viability.Errors
import LittleTiny.Proofs.Viability.Lookahead
import LittleTiny.Proofs.Viability.Rules
import LittleTiny.Proofs.Vocabulary
import LittleTiny.Report
import LittleTiny.Scope
import LittleTiny.Scope.Store
import LittleTiny.Source
import LittleTiny.Text.Blank
import LittleTiny.Text.Escape
import LittleTiny.Text.Unprintable
import LittleTiny.Tiny
import LittleTiny.Token
import LittleTiny.Token.Scan
import LittleTiny.Tree
import LittleTiny.Tree.Cursor
import LittleTiny.Tree.Declaration
import LittleTiny.Tree.Element
import LittleTiny.Tree.Expression
import LittleTiny.Tree.Program
import LittleTiny.Tree.Statement
import LittleTiny.Types
import LittleTiny.Proofs.Classes
import LittleTiny.Proofs.Command.Arguments
import LittleTiny.Proofs.Command.Files
import LittleTiny.Proofs.Command.Run
import LittleTiny.Proofs.Nesting
import LittleTiny.Proofs.Nesting.Decoding
import LittleTiny.Proofs.Nodes
import LittleTiny.Proofs.Transcript.Code
import LittleTiny.Proofs.Transcript.Assembly
import LittleTiny.Proofs.Transcript
