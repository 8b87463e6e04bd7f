import LittleTiny.Compilation

/-!
# Command line arguments

The arguments are read from left to right. `-o` takes a value, which is the rest of its argument or
the next argument; the other options are flags, and short ones may share an argument. An argument
that looks like an option is never taken as a value. A request for help or for the version is
answered as soon as it is met; that an option is repeated or lacks its value is found out only at
the end.
-/

namespace LittleTiny.Command

/-- What the arguments of a compilation say: the input and the output, where `-` stands for the
standard streams, which flags are there, and how often `-v` is. -/
structure Options where
  input : String := "-"
  output : String := "-"
  tree : Bool := false
  noCode : Bool := false
  noTarget : Bool := false
  verbosity : Nat := 0
deriving DecidableEq, Repr

/-- The tree is listed on request, the code and the assembly unless they are turned off. -/
def Options.listings (o : Options) : Listings := ⟨o.tree, !o.noCode, !o.noTarget⟩

/-- Why arguments are refused. -/
inductive UsageError where
  | unknown (option : String)
  | unneededValue (option : String)
  | missingValue (option : String)
  | repeated (option : String)
  | extraInput (argument : String)
deriving DecidableEq, Repr

/-- The message of an error. -/
def UsageError.message : UsageError → String
  | unknown option => "error: unknown option '" ++ option ++ "'\n"
  | unneededValue option => "error: option '" ++ option ++ "' takes no value\n"
  | missingValue option => "error: option '" ++ option ++ "' needs a value\n"
  | repeated option => "error: option '" ++ option ++ "' was given more than once\n"
  | extraInput argument => "error: unexpected argument '" ++ argument ++ "'\n"

/-- What the arguments ask for. -/
inductive Request where
  | help
  | version
  | compile (options : Options)
deriving DecidableEq, Repr

/-- What has been met so far: the input, the value of each `-o`, and how often each flag. -/
structure Seen where
  input : Option String := none
  outputs : List (Option String) := []
  tree : Nat := 0
  noCode : Nat := 0
  noTarget : Nat := 0
  verbosity : Nat := 0
deriving DecidableEq, Repr

namespace Seen

/-- One more `-o`, with its value if that is known. -/
def addOutput (s : Seen) (value : Option String) : Seen := { s with outputs := value :: s.outputs }

/-- The value of the last `-o`. -/
def setOutput (s : Seen) (value : String) : Seen :=
  { s with outputs := some value :: s.outputs.tail }

/-- The input, of which there can be one only. -/
def addInput (s : Seen) (argument : String) : Except UsageError Seen :=
  match s.input with
  | none => .ok { s with input := some argument }
  | some _ => .error (.extraInput argument)

/-- The checks that are made when all arguments have been read. -/
def finish (s : Seen) : Except UsageError Options :=
  if 1 < s.tree then .error (.repeated "--ast")
  else if 1 < s.noCode then .error (.repeated "--no-ir")
  else if 1 < s.noTarget then .error (.repeated "--no-target")
  else
    let options (output : String) : Options :=
      { input := s.input.getD "-", output, tree := s.tree != 0, noCode := s.noCode != 0,
        noTarget := s.noTarget != 0, verbosity := s.verbosity }
    match s.outputs with
    | [] => .ok (options "-")
    | [some value] => .ok (options value)
    | [none] => .error (.missingValue "-o")
    | _ => .error (.repeated "-o")

end Seen

/-- What an argument leads to: to the next one, which may be the value of `-o`, or to an answer. -/
inductive Turn where
  | next (seen : Seen)
  | value (seen : Seen)
  | answer (request : Request)

/-- The flags in an argument that starts with one dash. -/
def readShort (s : Seen) : List Char → Except UsageError Turn
  | [] => .ok (.next s)
  | 'v' :: cs => readShort { s with verbosity := s.verbosity + 1 } cs
  | 'h' :: _ => .ok (.answer .help)
  | 'V' :: _ => .ok (.answer .version)
  | ['o'] => .ok (.value (s.addOutput none))
  | 'o' :: '=' :: value => .ok (.next (s.addOutput (some (String.ofList value))))
  | 'o' :: value => .ok (.next (s.addOutput (some (String.ofList value))))
  | c :: _ => .error (.unknown (String.ofList ['-', c]))

/-- An option that starts with two dashes; an equals sign would give it a value. -/
def readLong (s : Seen) (name : List Char) : Except UsageError Turn :=
  let option := String.ofList (name.takeWhile (· != '='))
  let turn : Option Turn := match option with
    | "ast" => some (.next { s with tree := s.tree + 1 })
    | "no-ir" => some (.next { s with noCode := s.noCode + 1 })
    | "no-target" => some (.next { s with noTarget := s.noTarget + 1 })
    | "help" => some (.answer .help)
    | "version" => some (.answer .version)
    | _ => none
  match turn with
  | none => .error (.unknown ("--" ++ option))
  | some turn => if name.contains '=' then .error (.unneededValue ("--" ++ option)) else .ok turn

/-- Behind `--` every argument is an input. -/
def readInputs (s : Seen) : List String → Except UsageError Seen
  | [] => .ok s
  | argument :: rest => do readInputs (← s.addInput argument) rest

/-- Reads the arguments; `pending` says that the first may be the value of a `-o`. -/
def readFrom (s : Seen) (pending : Bool) : List String → Except UsageError Request
  | [] => return .compile (← s.finish)
  | argument :: rest => do
    match argument.toList with
    | ['-', '-'] =>
      let s ← readInputs s rest
      return .compile (← s.finish)
    | '-' :: '-' :: name =>
      match ← readLong s name with
      | .next s => readFrom s false rest
      | .value s => readFrom s true rest
      | .answer request => return request
    | '-' :: c :: cs =>
      match ← readShort s (c :: cs) with
      | .next s => readFrom s false rest
      | .value s => readFrom s true rest
      | .answer request => return request
    | _ =>
      if pending then
        readFrom (s.setOutput argument) false rest
      else
        readFrom (← s.addInput argument) false rest

/-- The request that the arguments make. -/
def Request.ofArguments (arguments : List String) : Except UsageError Request :=
  readFrom {} false arguments

end LittleTiny.Command
