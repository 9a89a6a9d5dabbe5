import CurriedLambda.Command.FileSystem
import CurriedLambda.Command.Options
import CurriedLambda.Failure
import CurriedLambda.Listing
import CurriedLambda.Report

/-!
The command-line program. It reads its whole source, then puts out its answer in one
piece; messages go to standard error. The program is written for any host that can read
and write. A world is a host in memory: a file system, what is to be read from standard
input and what has been written to standard output and standard error. Standard input and
output work or fail as the conditions of the run say.
-/
namespace CurriedLambda.Command

/-- What the program can ask of its surroundings. -/
structure Host (m : Type → Type) where
  /-- The name that the program was started under, if there is one. -/
  programName : m (Option String)
  readFile : String → m (Except SystemError ByteArray)
  readInput : m (Except SystemError ByteArray)
  writeFile : String → String → m (Except SystemError Unit)
  writeOutput : String → m (Except SystemError Unit)
  writeError : String → m Unit

/-- The text of a source that has been read. -/
def decode : Except SystemError ByteArray → Except Failure String
  | .error error => .error (.ofSystem error.render)
  | .ok bytes =>
    match String.fromUTF8? bytes with
    | some source => .ok source
    | none => .error (.ofSystem "stream did not contain valid UTF-8")

namespace Options

/-- What messages call the source. -/
def sourceName (options : Options) : String :=
  options.path.getD "<stdin>"

/-- The answer about a source with these tokens and diagnostics. -/
def answer (options : Options) (source : String) (tokens : List Token)
    (diagnostics : List Diagnostic) : String :=
  match options.json, options.subcommand with
  | true, .tokens => (Report.ofParts source tokens diagnostics).render ++ "\n"
  | true, .check => (Report.ofParts source [] diagnostics).render ++ "\n"
  | false, .tokens => tokenTable tokens
  | false, .check => diagnosticList source diagnostics

/-- The counts that are reported on request. -/
def summary (options : Options) (tokens : List Token) (diagnostics : List Diagnostic) :
    String :=
  options.sourceName ++ ": " ++ toString tokens.length ++ " tokens, " ++
    toString diagnostics.length ++ " diagnostics\n"

/-- Only a check fails because of what it finds. -/
def status (options : Options) (diagnostics : List Diagnostic) : UInt32 :=
  if options.subcommand = .check ∧ diagnostics ≠ [] then 1 else 0

end Options

variable {m : Type → Type} [Monad m]

def readSource (host : Host m) (options : Options) : m (Except Failure String) := do
  match options.path with
  | some path => return decode (← host.readFile path)
  | none => return decode (← host.readInput)

def writeAnswer (host : Host m) (options : Options) (text : String) :
    m (Except SystemError Unit) :=
  match options.output with
  | some path => host.writeFile path text
  | none => host.writeOutput text

/-- Runs an accepted command line and gives the exit status. -/
def runOptions (host : Host m) (options : Options) : m UInt32 := do
  match ← readSource host options with
  | .error failure =>
    host.writeError ("input '" ++ options.sourceName ++ "' error: " ++ failure.render ++ "\n")
    return 1
  | .ok source =>
    let tokens := tokenize source
    let diagnostics := diagnose tokens
    if options.verbose then host.writeError (options.summary tokens diagnostics)
    match ← writeAnswer host options (options.answer source tokens diagnostics) with
    | .error error =>
      host.writeError ("output error: " ++ (Failure.ofSystem error.render).render ++ "\n")
      return 1
    | .ok () => return options.status diagnostics

/-- Runs a command line and gives the exit status. -/
def run (host : Host m) (arguments : List Argument) : m UInt32 := do
  match Options.parse arguments with
  | .error refusal =>
    host.writeError (refusal.report (← host.programName))
    return 1
  | .ok options => runOptions host options

/-- What a run finds around it and does not change: the name of the program, and whether
standard input and standard output work. -/
structure Conditions where
  program : Option String := some "lambdac"
  inputError : Option SystemError := none
  outputError : Option SystemError := none

structure World where
  files : FileSystem
  input : ByteArray
  output : String
  errors : String

/-- The host in memory. Standard input is read to its end or not at all. Standard output
takes all of a text or nothing, and nothing is asked of it for the empty text. -/
def World.host (conditions : Conditions := {}) : Host (StateM World) where
  programName := return conditions.program
  readFile path := do return (← get).files.read path
  readInput := modifyGet fun world =>
    match conditions.inputError with
    | some error => (.error error, world)
    | none => (.ok world.input, { world with input := .empty })
  writeFile path text := modifyGet fun world =>
    match world.files.write path text.toUTF8 with
    | .ok files => (.ok (), { world with files })
    | .error error => (.error error, world)
  writeOutput text := modifyGet fun world =>
    match conditions.outputError with
    | some error => if text = "" then (.ok (), world) else (.error error, world)
    | none => (.ok (), { world with output := world.output ++ text })
  writeError text := modify fun world => { world with errors := world.errors ++ text }

end CurriedLambda.Command
