import PatternScript.Command.Run

/-!
Contract: the command line program.

Owns: reading files and the standard input, and printing.
Does not own: what is printed.
-/

namespace PatternScript.Command

/-- Everything that is left of a stream. -/
partial def readAll (stream : IO.FS.Stream) (before : ByteArray) : IO ByteArray := do
  let chunk ← stream.read 65536
  if chunk.isEmpty then return before else readAll stream (before ++ chunk)

/-- What reading a file comes to. -/
def readFile (path : String) : IO FileContent := do
  try
    return .ofBytes (← IO.FS.readBinFile path)
  catch
    | .noFileOrDirectory _ _ _ => return .error .missing
    | .inappropriateType _ _ _ => return .error .directory
    | other => return .error (.other (toString other))

/-- What reading the standard input comes to. -/
def readStandardInput : IO FileContent := do
  return .ofBytes (← readAll (← IO.getStdin) .empty)

/-- Carries out a task. The program is read only once the settings are known. -/
def runTask (task : Task) (arguments : Arguments) : IO Outcome := do
  let content ← match arguments.config with
    | some path => readFile path
    | none => pure (.ok "")
  match settings arguments fun _ => content with
  | .error failure => return .ofResult (.error failure)
  | .ok settings =>
      let content ← match arguments.programFile? with
        | some path => readFile path
        | none => readStandardInput
      return .ofResult do perform task settings (← program arguments content)

/-- The outcome of a command line. -/
def runWords (words : List String) : IO Outcome :=
  match request words with
  | .ok (.run task arguments) => runTask task arguments
  | _ => return execute words (fun _ => .error .missing) (.error .missing)

end PatternScript.Command

/-- Carries out the command line. -/
def main (words : List String) : IO UInt32 := do
  let outcome ← PatternScript.Command.runWords words
  (← IO.getStdout).putStr outcome.output
  (← IO.getStderr).putStr outcome.errors
  return outcome.exitCode.toUInt32
