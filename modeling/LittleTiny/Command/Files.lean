import LittleTiny.Command.Host

/-!
# Files and paths

One tree of directories, in which a run takes place in a directory of its own. Around it stand the
usual directories of the system and a few devices; every other file is in a list. A directory is
there when it is a usual one or a file is in it.

A path is followed name by name, from the root if it starts with a slash and else from the directory
of the run. All but the last name have to lead to directories. A slash at the end says that the last
name is a directory too: reading then refuses anything else, and writing refuses at once.
-/

namespace LittleTiny.Command

/-- The names on the way from the root. -/
abbrev Path := List String

/-- Files that are streams. `null` swallows what is written and `full` has no room for anything;
both have nothing to read. -/
inductive Device where
  | null
  | full
  | stdin
  | stdout
  | stderr
deriving DecidableEq, Repr

/-- What stands at a path. -/
inductive Place where
  | directory (path : Path)
  | file (path : Path) (content : ByteArray)
  | device (device : Device)
  | vacant (path : Path)

/-- Where the names of a path lead: to a directory, or to a name in one, perhaps with a slash behind
it. -/
inductive Goal where
  | directory (path : Path)
  | entry (parent : Path) (name : String) (slash : Bool)

/-! ## The system -/

/-- The directory in which a run takes place. -/
def workingDirectory : Path := ["tmp", "work"]

/-- The usual directories; those on the way to them are there too. -/
def usualDirectories : List Path :=
  [workingDirectory, ["bin"], ["boot"], ["dev", "pts"], ["dev", "shm"], ["etc"], ["home"], ["lib"],
    ["media"], ["mnt"], ["opt"], ["proc", "self", "fd"], ["root"], ["run"], ["sbin"], ["srv"],
    ["sys"], ["usr"], ["var"]]

/-- The devices and where they are. -/
def devices : List (Path × Device) :=
  [(["dev", "null"], .null), (["dev", "full"], .full), (["proc", "self", "fd", "0"], .stdin),
    (["proc", "self", "fd", "1"], .stdout), (["proc", "self", "fd", "2"], .stderr)]

/-- Paths that stand for others. -/
def links : List (Path × Path) :=
  [(["dev", "fd"], ["proc", "self", "fd"]), (["dev", "stdin"], ["proc", "self", "fd", "0"]),
    (["dev", "stdout"], ["proc", "self", "fd", "1"]),
    (["dev", "stderr"], ["proc", "self", "fd", "2"])]

/-- Whether a file can be made at a path where there is none. -/
def allowsNewFile (path : Path) : Bool := path.head? != some "proc"

/-- The most bytes that a name may have. -/
def nameLimit : Nat := 255

/-- The most bytes that a path may have. -/
def pathLimit : Nat := 4095

/-! ## Files -/

/-- The files with their contents. -/
abbrev Files := List (Path × ByteArray)

namespace Files

/-- The content of the file at a path. -/
def content? (fs : Files) (path : Path) : Option ByteArray := fs.lookup path

/-- The files with this content at the path. -/
def put (fs : Files) (path : Path) (content : ByteArray) : Files :=
  (path, content) :: fs.filter fun f => f.1 != path

/-- Whether a directory is at a path. -/
def isDirectory (fs : Files) (path : Path) : Bool :=
  usualDirectories.any path.isPrefixOf || fs.any fun f => path.isPrefixOf f.1 && path != f.1

/-- What stands at a path without links on the way. -/
def placeAt (fs : Files) (path : Path) : Place :=
  if fs.isDirectory path then .directory path
  else
    match devices.lookup path with
    | some d => .device d
    | none =>
      match fs.content? path with
      | some content => .file path content
      | none => .vacant path

/-- What a name stands for in a directory. -/
def find (fs : Files) (here : Path) (name : String) : Except SystemError Place :=
  if nameLimit < name.utf8ByteSize then .error .nameTooLong
  else
    let path := here ++ [name]
    .ok (fs.placeAt ((links.lookup path).getD path))

/-- The directory that a name leads to. -/
def enter (fs : Files) (here : Path) (name : String) : Except SystemError Path :=
  if name = "." then .ok here
  else if name = ".." then .ok here.dropLast
  else
    match fs.find here name with
    | .error e => .error e
    | .ok (.directory path) => .ok path
    | .ok (.vacant _) => .error .noEntry
    | .ok _ => .error .notDirectory

/-- Follows names from a directory. -/
def follow (fs : Files) (slash : Bool) (here : Path) : List String → Except SystemError Goal
  | [] => .ok (.directory here)
  | [name] =>
    if name = "." || name = ".." then (fs.enter here name).map .directory
    else .ok (.entry here name slash)
  | name :: rest =>
    match fs.enter here name with
    | .error e => .error e
    | .ok next => fs.follow slash next rest

end Files

/-! ## Paths as they are written -/

/-- The parts between slashes, the first of which is `part`, last character first, and what
follows. -/
def splitSlashes (part : List Char) : List Char → Path
  | [] => [String.ofList part.reverse]
  | c :: cs =>
    if c = '/' then String.ofList part.reverse :: splitSlashes [] cs
    else splitSlashes (c :: part) cs

/-- The names in a written path. -/
def namesOf (path : String) : Path := (splitSlashes [] path.toList).filter (· != "")

namespace Files

/-- Where a written path leads; the empty one leads nowhere. -/
def goal (fs : Files) (path : String) : Except SystemError Goal :=
  if path.isEmpty then .error .noEntry
  else if pathLimit < path.utf8ByteSize then .error .nameTooLong
  else
    let start := if path.toList.head? = some '/' then [] else workingDirectory
    fs.follow (path.toList.getLast? == some '/') start (namesOf path)

/-- What is there to be read at a path. -/
def toRead (fs : Files) (path : String) : Except SystemError Place :=
  match fs.goal path with
  | .error e => .error e
  | .ok (.directory path) => .ok (.directory path)
  | .ok (.entry here name slash) =>
    match fs.find here name with
    | .error e => .error e
    | .ok (.directory path) => .ok (.directory path)
    | .ok (.vacant _) => .error .noEntry
    | .ok place => if slash then .error .notDirectory else .ok place

/-- What is there to be written at a path: a file, a device, or room for a file. -/
def toWrite (fs : Files) (path : String) : Except SystemError Place :=
  match fs.goal path with
  | .error e => .error e
  | .ok (.directory _) => .error .isDirectory
  | .ok (.entry _ _ true) => .error .isDirectory
  | .ok (.entry here name false) =>
    match fs.find here name with
    | .error e => .error e
    | .ok (.directory _) => .error .isDirectory
    | .ok (.vacant path) => if allowsNewFile path then .ok (.vacant path) else .error .noEntry
    | .ok place => .ok place

end Files

end LittleTiny.Command
