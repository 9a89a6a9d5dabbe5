import CurriedLambda.Command.Program

/-!
The program on the machine it runs on: files, standard input and the two outputs.
-/
namespace CurriedLambda.Command

/-- The error of a number, which some layers negate, with a text where none is known. -/
private def numbered (number : UInt32) (text : String) : SystemError :=
  let size := if number < 0x80000000 then number.toNat else (0 - number).toNat
  let known : List SystemError := [.notFound, .notDirectory, .isDirectory, .nameTooLong]
  match known.find? (·.number = size) with
  | some error => error
  | none => ⟨text, size⟩

private def systemError : IO.Error → SystemError
  | .alreadyExists _ number text
  | .otherError number text
  | .resourceBusy number text
  | .resourceVanished number text
  | .unsupportedOperation number text
  | .hardwareFault number text
  | .unsatisfiedConstraints number text
  | .illegalOperation number text
  | .protocolError number text
  | .timeExpired number text
  | .interrupted _ number text
  | .noFileOrDirectory _ number text
  | .invalidArgument _ number text
  | .permissionDenied _ number text
  | .resourceExhausted _ number text
  | .inappropriateType _ number text
  | .noSuchThing _ number text => numbered number text
  | .unexpectedEof => ⟨"Unexpected end of file", 0⟩
  | .userError text => ⟨text, 0⟩

private def attempt {α : Type} (action : IO α) : IO (Except SystemError α) := do
  try return .ok (← action)
  catch error => return .error (systemError error)

private partial def readToEnd (stream : IO.FS.Stream) (read : ByteArray) : IO ByteArray := do
  let chunk ← stream.read 65536
  if chunk.isEmpty then return read
  readToEnd stream (read ++ chunk)

/-- The name of this process, which is the first of its null-terminated arguments. -/
private def processName : IO (Option String) := do
  match ← attempt (IO.FS.readBinFile "/proc/self/cmdline") with
  | .ok bytes => return String.fromUTF8? ⟨bytes.data.takeWhile (· ≠ 0)⟩
  | .error _ => return none

/-- The machine as a host. -/
def machine : Host IO where
  programName := processName
  readFile path := attempt (IO.FS.readBinFile path)
  readInput := attempt do readToEnd (← IO.getStdin) .empty
  writeFile path text := attempt (IO.FS.writeBinFile path text.toUTF8)
  writeOutput text := attempt do
    let output ← IO.getStdout
    output.putStr text
    -- What fails to come out must be told before the exit status is settled.
    output.flush
  writeError text := do (← IO.getStderr).putStr text

end CurriedLambda.Command

def main (arguments : List String) : IO UInt32 :=
  CurriedLambda.Command.run CurriedLambda.Command.machine (arguments.map .text)
