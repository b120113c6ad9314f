import TopologicalOrder.Command.Duration
import TopologicalOrder.Command.Run

/-!
# The command line

Reads the text that the arguments ask for, runs the command on it, and writes
what that leaves.
-/

open TopologicalOrder.Command

/-- Reads a stream to its end. -/
partial def readRest (s : IO.FS.Stream) (read : ByteArray) : IO ByteArray := do
  let more ← s.read 65536
  if more.isEmpty then return read else readRest s (read ++ more)

/-- Why a file could not be read. -/
def readError : IO.Error → ReadError
  | .inappropriateType _ code _ => if code = 21 then .isDirectory else .notDirectory
  | .invalidArgument _ code _ => if code = 36 then .nameTooLong else .badName
  | .permissionDenied .. => .denied
  | _ => .missing

/-- Reads a text by its name. -/
def readInput : String → IO (Except ReadError (List UInt8))
  | "-" => do
    let content ← readRest (← IO.getStdin) ByteArray.empty
    return .ok content.toList
  | name => do
    try
      let content ← IO.FS.readBinFile name
      return .ok content.toList
    catch e => return .error (readError e)

/-- Runs the command with the given arguments. -/
def main (args : List String) : IO UInt32 := do
  let content ←
    match inputFor? args with
    | none => pure (.error .missing)
    | some name => readInput name
  let start ← IO.monoNanosNow
  let outcome ← IO.lazyPure fun _ => run args fun _ => content
  let stop ← IO.monoNanosNow
  (← IO.getStdout).putStr outcome.output
  for line in outcome.log do
    (← IO.getStderr).putStr (line.render (showDuration (stop - start)))
  return outcome.status.toUInt32
