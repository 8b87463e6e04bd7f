import LittleTiny.Command.Run

/-!
# The compiler as a program
-/

namespace LittleTiny.Command

/-- The error of the operating system behind a failed action. -/
def SystemError.ofFailure : IO.Error → SystemError
  | .noFileOrDirectory _ _ _ => .noEntry
  | .inappropriateType _ 20 _ => .notDirectory
  | .inappropriateType _ 21 _ => .isDirectory
  | .resourceExhausted _ 28 _ => .noSpace
  | .alreadyExists _ code details => ⟨code.toNat, details⟩
  | .inappropriateType _ code details => ⟨code.toNat, details⟩
  | .permissionDenied _ code details => ⟨code.toNat, details⟩
  | .resourceExhausted _ code details => ⟨code.toNat, details⟩
  | .invalidArgument _ code details => ⟨code.toNat, details⟩
  | e => ⟨5, e.toString⟩

/-- Does the action, and turns a failure into an error. -/
def attempt {α ε : Type} (wrap : SystemError → ε) (action : IO α) : IO (Except ε α) := do
  try
    return .ok (← action)
  catch e =>
    return .error (wrap (.ofFailure e))

/-- The machine that the program runs on. -/
def system : Host IO where
  stdin := attempt id do (← IO.getStdin).readBinToEnd
  load path := do
    match ← attempt .opening (IO.FS.Handle.mk path .read) with
    | .error e => return .error e
    | .ok file => attempt .using file.readBinToEnd
  save path text := do
    match ← attempt .opening (IO.FS.Handle.mk path .write) with
    | .error e => return .error e
    | .ok file =>
      attempt .using do
        file.write text.toUTF8
        file.flush
  out text :=
    attempt id do
      let stream ← IO.getStdout
      stream.putStr text
      stream.flush
  err text := IO.eprint text

end LittleTiny.Command

open LittleTiny.Command in
/-- The program. Arguments that are refused give the exit status 2. -/
def main (arguments : List String) : IO UInt32 := do
  match ← run system arguments with
  | .error e =>
    IO.eprint e.message
    return 2
  | .ok status => return status.toUInt32
