import LittleTiny.Proofs.Alignment.Compilation
import LittleTiny.Proofs.Coverage
import LittleTiny.Proofs.Faults.Lowering
import LittleTiny.Proofs.Faults.Places

/-!
# Reports point into the source

Every error of a compilation starts at a character of the source, and not in the indentation of its
line (`Source.Points`): a lexical error at the character that the automaton failed at, behind the
first character of a token that was not finished; the errors of the later phases at the start of a
token. So the caret under a line stands below the character meant, as long as 32 bits have room for
its place. There is one exception, a source without tokens, where nothing can be pointed at but the
beginning.
-/

namespace LittleTiny

open Scan Lexemes Grammar

/-! ## Trimmed lines -/

namespace Text

end Text

/-! ## Positions in a source -/

namespace Source

end Source

/-! ## The errors of the phases -/

section

variable {source : Source} {tokens : List (Located Token)}

end

/-! ## Reports -/

namespace Report

end Report

end LittleTiny
