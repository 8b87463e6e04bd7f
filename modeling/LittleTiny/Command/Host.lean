/-!
# Hosts

What a run needs from the machine it runs on: the standard streams, and files to load and to save.
A file can fail to open or, once open, to be read or written.
-/

namespace LittleTiny.Command

/-- An error of the operating system. -/
structure SystemError where
  code : Nat
  description : String
deriving DecidableEq, Repr

namespace SystemError

/-- How an error is shown, with its number. -/
def message (e : SystemError) : String := e.description ++ " (os error " ++ e.code.repr ++ ")"

/-- Nothing is there. -/
def noEntry : SystemError := ⟨2, "No such file or directory"⟩

/-- A name on the way is not that of a directory. -/
def notDirectory : SystemError := ⟨20, "Not a directory"⟩

/-- A directory is in the place of a file. -/
def isDirectory : SystemError := ⟨21, "Is a directory"⟩

/-- There is no room for what is written. -/
def noSpace : SystemError := ⟨28, "No space left on device"⟩

/-- A name or a path has too many bytes. -/
def nameTooLong : SystemError := ⟨36, "File name too long"⟩

end SystemError

/-- Where the use of a file failed: when it was opened, or after that. -/
inductive FileError where
  | opening (cause : SystemError)
  | using (cause : SystemError)
deriving DecidableEq, Repr

/-- The operations of a machine, in a monad `m`. -/
structure Host (m : Type → Type) where
  stdin : m (Except SystemError ByteArray)
  load : String → m (Except FileError ByteArray)
  save : String → String → m (Except FileError Unit)
  out : String → m (Except SystemError Unit)
  err : String → m Unit

end LittleTiny.Command
