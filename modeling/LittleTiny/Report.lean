import LittleTiny.Source
import LittleTiny.Text.Blank

/-!
# Reports of errors

A report lists located messages. Under each message stands the line of the source it starts on,
without the blanks at its ends, and a caret under the column of the error, moved to the left by as
many blanks as were taken from the front.
-/

namespace LittleTiny

/-- Located messages of one kind; without a source no lines are shown. -/
structure Report where
  kind : String := "error"
  source : Option Source := none
  errors : List (Located String) := []

namespace Report

/-- The trimmed line, and a line with a caret under the given column. -/
def excerpt (line : String) (column : Nat) : String :=
  let cs := line.toList
  String.ofList (Text.trim cs) ++ "\n" ++
    String.ofList (List.replicate (column - Text.indent cs) ' ') ++ "^\n"

/-- One error: its line, its message and, if the source is there, an excerpt. -/
def entry (r : Report) (e : Located String) : String :=
  r.kind ++ ": Line " ++ e.location.line.toNat.repr ++ ": " ++ e.value ++ "\n" ++
    (match r.source.bind fun s => s.line? e.location.line with
      | some line => excerpt line e.location.column.toNat
      | none => "") ++ "\n"

/-- The whole report, with the number of errors at the end. -/
def render (r : Report) : String :=
  match r.errors with
  | [] => "No errors were reported\n"
  | [e] => r.entry e ++ "Build failed with 1 error\n"
  | es => String.join (es.map r.entry) ++ "Build failed with " ++ es.length.repr ++ " errors\n"

end Report

end LittleTiny
