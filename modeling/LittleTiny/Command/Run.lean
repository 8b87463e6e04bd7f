import LittleTiny.Command.Arguments
import LittleTiny.Command.Host
import LittleTiny.Text.Escape

/-!
# Running the compiler

A run reads its input, compiles it and writes the listings. The output is opened only when the
compilation has succeeded, so that a run that fails before leaves every file as it was. Progress is
logged from the second `-v` on, before the listings are written.
-/

namespace LittleTiny.Command

/-- The answer to a request for the version. -/
def versionText : String := "littlec 1.0.0\n"

/-- The answer to a request for help. -/
def helpText : String :=
  String.join (List.map (· ++ "\n")
    ["littlec 1.0.0",
      "Little to Tiny compiler",
      "",
      "USAGE:",
      "    littlec [OPTIONS] [INPUT]",
      "",
      "ARGS:",
      "    <INPUT>    Source file ('-' for stdin) [default: -]",
      "",
      "OPTIONS:",
      "        --ast          Print the syntax tree",
      "    -h, --help         Print help information",
      "        --no-ir        Omit the intermediate code listing",
      "        --no-target    Omit the Tiny assembly listing",
      "    -o <FILE>          Output file ('-' for stdout) [default: -]",
      "    -v                 Increase logging verbosity",
      "    -V, --version      Print version information"])

/-- The line of the log for a phase that succeeded. -/
def logLine : Event → String
  | .scanned source tokens =>
    "DEBUG littlec.lex\x7bsource=" ++ Text.quoteText source
      ++ "\x7d: littlec::driver: scanned tokens=" ++ tokens.repr ++ "\n"
  | .parsed program functions =>
    "DEBUG littlec.parse: littlec::driver: parsed program=" ++ program ++ " functions="
      ++ functions.repr ++ "\n"
  | .lowered instructions =>
    "DEBUG littlec.generate: littlec::driver: generated instructions=" ++ instructions.repr ++ "\n"

/-- The log that is printed at the given verbosity. -/
def log (verbosity : Nat) (events : List Event) : String :=
  if 2 ≤ verbosity then String.join (events.map logLine) else ""

/-- An error with what caused it. -/
structure Trouble where
  context : String
  cause : String
deriving DecidableEq, Repr

/-- How an error and its cause are shown. -/
def Trouble.text (t : Trouble) : String :=
  "Error: " ++ t.context ++ "\n\nCaused by:\n    " ++ t.cause ++ "\n"

section

variable {m : Type → Type} [Monad m] (host : Host m)

/-- The source of a run, named after its path. -/
def readSource (input : String) : m (Except Trouble Source) := do
  if input = "-" then
    match ← host.stdin with
    | .error e => return .error ⟨"Failed to read stdin", e.message⟩
    | .ok bytes =>
      match Source.ofBytes "<stdin>" bytes with
      | .ok source => return .ok source
      | .error e => return .error ⟨"Failed to read stdin", e.message⟩
  else
    match ← host.load input with
    | .error (.opening e) => return .error ⟨"Failed to open for reading: " ++ input, e.message⟩
    | .error (.using e) => return .error ⟨"Failed to read source file: " ++ input, e.message⟩
    | .ok bytes =>
      match Source.ofBytes input bytes with
      | .ok source => return .ok source
      | .error e => return .error ⟨"Failed to read source file: " ++ input, e.message⟩

/-- Says what went wrong; the answer is the exit status. -/
def giveUp (context : String) (cause : SystemError) : m Nat := do
  host.err (Trouble.text ⟨context, cause.message⟩)
  return 1

/-- Puts the listing where it belongs. -/
def writeListing (output listing : String) : m Nat := do
  if output = "-" then
    match ← host.out listing with
    | .ok () => return 0
    | .error e => giveUp host "Failed to write to stdout" e
  else
    match ← host.save output listing with
    | .ok () => return 0
    | .error (.opening e) => giveUp host ("Failed to open for writing: " ++ output) e
    | .error (.using e) => giveUp host ("Failed to write output file: " ++ output) e

/-- A run with accepted options. -/
def build (options : Options) : m Nat := do
  match ← readSource host options.input with
  | .error trouble =>
    host.err trouble.text
    return 1
  | .ok source =>
    match compile source with
    | .error failure =>
      host.err (log options.verbosity (failure.events source))
      host.err (failure.report source).render
      return 1
    | .ok compilation =>
      host.err (log options.verbosity (compilation.events source))
      writeListing host options.output (compilation.listing options.listings)

/-- A run with any arguments; the answer is the exit status. -/
def run (arguments : List String) : m (Except UsageError Nat) := do
  match Request.ofArguments arguments with
  | .error e => return .error e
  | .ok .help =>
    let _ ← host.out helpText
    return .ok 0
  | .ok .version =>
    let _ ← host.out versionText
    return .ok 0
  | .ok (.compile options) => return .ok (← build host options)

end

end LittleTiny.Command
