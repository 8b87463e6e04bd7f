import LittleTiny.Command.Files

/-!
# A machine

A host that is a value: what can be read from the standard input, the files, and what has been
printed so far.
-/

namespace LittleTiny.Command

/-- A machine. -/
structure Machine where
  stdin : ByteArray
  files : Files
  out : String := ""
  err : String := ""

namespace Machine

/-- Prints to the standard output. -/
def printOut (m : Machine) (text : String) : Machine := { m with out := m.out ++ text }

/-- Prints to the standard error stream. -/
def printErr (m : Machine) (text : String) : Machine := { m with err := m.err ++ text }

/-- The content of a file or device. A directory can be opened, but not read. -/
def load (m : Machine) (path : String) : Except FileError ByteArray :=
  match m.files.toRead path with
  | .error e => .error (.opening e)
  | .ok (.vacant _) => .error (.opening .noEntry)
  | .ok (.directory _) => .error (.using .isDirectory)
  | .ok (.file _ content) => .ok content
  | .ok (.device .stdin) => .ok m.stdin
  | .ok (.device _) => .ok ByteArray.empty

/-- Writes a text to a device. -/
def feed (m : Machine) (text : String) : Device → Except FileError Machine
  | .null => .ok m
  | .full => if text.isEmpty then .ok m else .error (.using .noSpace)
  | .stdin => .ok m
  | .stdout => .ok (m.printOut text)
  | .stderr => .ok (m.printErr text)

/-- Makes the text the content of a file, new or not, or writes it to a device. -/
def save (m : Machine) (path text : String) : Except FileError Machine :=
  match m.files.toWrite path with
  | .error e => .error (.opening e)
  | .ok (.directory _) => .error (.opening .isDirectory)
  | .ok (.vacant path) => .ok { m with files := m.files.put path text.toUTF8 }
  | .ok (.file path _) => .ok { m with files := m.files.put path text.toUTF8 }
  | .ok (.device d) => m.feed text d

/-- A host that changes a machine. -/
def host : Host (StateM Machine) where
  stdin := do return .ok (← get).stdin
  load path := do return (← get).load path
  save path text := do
    match (← get).save path text with
    | .ok m =>
      set m
      return .ok ()
    | .error e => return .error e
  out text := do
    modify (·.printOut text)
    return .ok ()
  err text := modify (·.printErr text)

/-- A machine with the named files in the directory of the run. -/
def ofFiles (stdin : ByteArray) (files : List (String × ByteArray)) : Machine where
  stdin := stdin
  files := files.map fun (name, content) => (workingDirectory ++ namesOf name, content)

/-- The files in the directory of the run that are not in `before`, or not with the same content. -/
def changedFiles (before m : Machine) : List (String × ByteArray) :=
  m.files.filterMap fun (path, content) =>
    if workingDirectory.isPrefixOf path && before.files.content? path != some content then
      some ("/".intercalate (path.drop workingDirectory.length), content)
    else
      none

end Machine

end LittleTiny.Command
