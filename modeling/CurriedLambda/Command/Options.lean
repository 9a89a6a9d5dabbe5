/-!
The command line: a subcommand, then options and at most one path in any order. An
argument need not be text; such an argument equals no option. The value of an option is
the argument after it, whatever it looks like, and only the first use of an option
counts: a later one is left over, as a path would be.
-/
namespace CurriedLambda.Command

inductive Argument
  | text (value : String)
  /-- Bytes that are not UTF-8. -/
  | undecodable
  deriving DecidableEq

namespace Argument

def ofBytes (bytes : ByteArray) : Argument :=
  match String.fromUTF8? bytes with
  | some value => text value
  | none => undecodable

def text? : Argument → Option String
  | text value => some value
  | undecodable => none

end Argument

inductive Subcommand
  | tokens
  | check
  deriving DecidableEq

structure Options where
  subcommand : Subcommand
  json : Bool
  verbose : Bool
  /-- The source; standard input if there is none. -/
  path : Option String
  /-- Where the answer goes; standard output if there is none. -/
  output : Option String
  deriving DecidableEq

/-- Why a command line is not run. -/
inductive Refusal
  | help
  | noSubcommand
  | undecodableSubcommand
  | unknownSubcommand (name : String)
  | severalPaths
  deriving DecidableEq

namespace Refusal

def message? : Refusal → Option String
  | help => none
  | noSubcommand => some "subcommand required"
  | undecodableSubcommand => some "argument is not a UTF-8 string"
  | unknownSubcommand name => some ("unknown subcommand " ++ name)
  | severalPaths => some "only one input path is accepted"

/-- How to use the program that was started under this name. -/
def usage (program : Option String) : String :=
  "lambdac 0.1: Check curried-lambda expressions.\n" ++
  "\n" ++
  "USAGE:\n" ++
  "    " ++ program.getD "<lambdac>" ++ " [SUBCOMMAND] [OPTION...] [PATH]\n" ++
  "\n" ++
  "OPTIONS:\n" ++
  "    -h, --help       show this message\n" ++
  "    --json           output JSON instead of text\n" ++
  "    --output FILE    path to write output file\n" ++
  "    --verbose        report token and diagnostic counts on stderr\n" ++
  "\n" ++
  "SUBCOMMANDS:\n" ++
  "    tokens           Print the token table\n" ++
  "    check            Print diagnostics, exiting with 1 if there are any\n" ++
  "\n" ++
  "PATH defaults to standard input.\n" ++
  "\n"

/-- What the user is told: the error if there is one, and the usage. -/
def report (refusal : Refusal) (program : Option String) : String :=
  (match refusal.message? with
  | some message => "error: " ++ message ++ "\n"
  | none => "") ++ usage program

end Refusal

namespace Options

/-- The subcommand, which no option may precede, and the arguments after it. -/
def takeSubcommand : List Argument → Except Refusal (Subcommand × List Argument)
  | [] => .error .noSubcommand
  | .undecodable :: _ => .error .undecodableSubcommand
  | .text name :: rest =>
    if name.toList.head? = some '-' then .error .noSubcommand
    else if name = "tokens" then .ok (.tokens, rest)
    else if name = "check" then .ok (.check, rest)
    else .error (.unknownSubcommand name)

/-- Whether an option without a value is used, and the arguments without its first use. -/
def takeFlag (name : String) (arguments : List Argument) : Bool × List Argument :=
  (arguments.contains (.text name), arguments.erase (.text name))

/-- The value of an option at its first use, and the arguments without both. If no text
follows the first use, it stays, and the option has no value. -/
def takeValue (name : String) : List Argument → Option String × List Argument
  | [] => (none, [])
  | argument :: rest =>
    if argument = .text name then
      match rest with
      | .text value :: others => (some value, others)
      | _ => (none, argument :: rest)
    else
      let (value, others) := takeValue name rest
      (value, argument :: others)

def isHelp (argument : Argument) : Bool :=
  argument = .text "-h" || argument = .text "--help"

/-- Help is given wherever it is asked for, even in place of a value. -/
def parse (arguments : List Argument) : Except Refusal Options :=
  if arguments.any isHelp then .error .help
  else do
    let (subcommand, rest) ← takeSubcommand arguments
    let (output, rest) := takeValue "--output" rest
    let (json, rest) := takeFlag "--json" rest
    let (verbose, rest) := takeFlag "--verbose" rest
    match rest with
    | [] => return ⟨subcommand, json, verbose, none, output⟩
    | [path] => return ⟨subcommand, json, verbose, path.text?, output⟩
    | _ => .error .severalPaths

end Options

end CurriedLambda.Command
