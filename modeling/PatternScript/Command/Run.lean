import PatternScript.Command.Arguments
import PatternScript.Config.Reading
import PatternScript.Json.Text
import PatternScript.Report
import PatternScript.Transpile
import PatternScript.Wire.Result

/-!
Contract: carrying out a command line.

The settings are read before the program, so a fault in them is what is reported if both have one.
Files are given as what reading them comes to, and printing is left to the caller.

Owns: what is printed and the exit code.
Does not own: reading files and printing.
-/

namespace PatternScript.Command

/-- Why a file cannot be read. -/
inductive ReadFailure where
  | missing
  | directory
  | notText
  /-- For another reason, which the system gives. -/
  | other (reason : String)
deriving DecidableEq, Repr

/-- What reading a file comes to. -/
abbrev FileContent := Except ReadFailure String

/-- The text of bytes, if they encode one. -/
def FileContent.ofBytes (bytes : ByteArray) : FileContent :=
  match String.fromUTF8? bytes with
  | some text => .ok text
  | none => .error .notText

/-- What is said about a file that cannot be read. -/
def ReadFailure.message : ReadFailure → String
  | .missing => "No such file or directory (os error 2)"
  | .directory => "Is a directory (os error 21)"
  | .notText => "stream did not contain valid UTF-8"
  | .other reason => reason

/-- Why a task cannot be carried out. -/
inductive Failure where
  | unreadableSettings (path : String) (cause : ReadFailure)
  | invalidSettings (path : String) (cause : Wire.DecodeError)
  | unreadableFile (path : String) (cause : ReadFailure)
  | unreadableStandardInput (cause : ReadFailure)
  | invalidProgram (name text : String) (error : TranspileError)

/-- An error and its cause. -/
def withCause (text cause : String) : String :=
  "Error: " ++ text ++ "\n\nCaused by:\n    " ++ cause ++ "\n"

/-- What is printed about a failure. -/
def Failure.message : Failure → String
  | .unreadableSettings path cause =>
      withCause ("Failed to read config file " ++ path ++ ": " ++ cause.message) cause.message
  | .invalidSettings path cause =>
      "Error: Invalid config file " ++ path ++ ": TOML parse error\n" ++
        (cause.message?.map (· ++ "\n")).getD ""
  | .unreadableFile path cause => withCause ("Failed to read " ++ path) cause.message
  | .unreadableStandardInput cause => withCause "Failed to read program from stdin" cause.message
  | .invalidProgram name text error => Report.render name text.toList error false

/-- What a command line comes to. -/
structure Outcome where
  exitCode : Nat
  output : String := ""
  errors : String := ""
deriving DecidableEq, Repr

/-- The exit code of a command line that is wrong. -/
def usageExitCode : Nat := 2

/-- What `--version` prints. -/
def versionText : String := "weft 0.1.0\n"

/-- What `--help` prints. -/
def helpText : String :=
  "Usage: weft [--log-level <LEVEL>] <transpile|widgets|locations> [OPTIONS] [INPUT]\n\n" ++
  "Options:\n" ++
  "  --wrap-async       wrap the program in an async function\n" ++
  "  --no-return        do not return the last statement\n" ++
  "  --no-locations     do not collect notation locations\n" ++
  "  --no-widgets       do not collect widget descriptors\n" ++
  "  --id <ID>          namespace for widget identifiers\n" ++
  "  --config <FILE>    settings file\n" ++
  "  --format <FORMAT>  print the program as code or json (transpile only)\n"

/-- The settings of a run: the built-in ones, those of the settings file, and the arguments. -/
def settings (arguments : Arguments) (file : String → FileContent) :
    Except Failure Config.Settings := do
  let fromFile ← match arguments.config with
    | none => .ok []
    | some path =>
        match file path with
        | .error cause => .error (Failure.unreadableSettings path cause)
        | .ok text =>
            match Config.readLayer text with
            | .error cause => .error (Failure.invalidSettings path cause)
            | .ok layer => .ok [layer]
  return .ofLayers (.builtin :: fromFile ++ [arguments.layer])

/-- The file a program is read from; nothing stands for the standard input. -/
def Arguments.programFile? (arguments : Arguments) : Option String :=
  arguments.input.filter (· != "-")

/-- A program and the name it has in reports. -/
structure Program where
  name : String
  text : String
deriving DecidableEq, Repr

/-- The program of a run. -/
def program (arguments : Arguments) (content : FileContent) : Except Failure Program :=
  match arguments.programFile?, content with
  | some path, .ok text => .ok ⟨path, text⟩
  | some path, .error cause => .error (.unreadableFile path cause)
  | none, .ok text => .ok ⟨"<stdin>", text⟩
  | none, .error cause => .error (.unreadableStandardInput cause)

/-- A leaf of the notation and the text it covers, which is empty if it reaches past the
program. -/
def locationLine (text : List Char) (span : Span) : List Char :=
  let covered :=
    if span.start ≤ span.stop ∧ span.stop ≤ text.length then
      (text.drop span.start).take (span.stop - span.start)
    else []
  Nat.toDigits 10 span.start ++ "..".toList ++ Nat.toDigits 10 span.stop ++ '\t' ::
    covered ++ ['\n']

/-- What a task prints about a transpiled program. -/
def printed (task : Task) (program : Program) (result : Transpiled) : String :=
  match task with
  | .transpile .code => result.output ++ "\n"
  | .transpile .json => String.ofList ((Wire.encodeResult result).indented ++ ['\n'])
  | .widgets =>
      let widgets := (result.widgets.getD []).map Wire.encodeWidget
      String.ofList ((Json.array widgets).indented ++ ['\n'])
  | .locations =>
      String.ofList ((result.locations.getD []).flatMap (locationLine program.text.toList))

/-- Carries out a task on a program. -/
def perform (task : Task) (settings : Config.Settings) (program : Program) :
    Except Failure String :=
  match transpile program.text settings.options settings.registry with
  | .ok result => .ok (printed task program result)
  | .error error => .error (.invalidProgram program.name program.text error)

/-- The outcome of a task. -/
def Outcome.ofResult : Except Failure String → Outcome
  | .ok text => { exitCode := 0, output := text }
  | .error failure => { exitCode := 1, errors := failure.message }

/-- The outcome of a request that reads no files. -/
def Outcome.ofUsage (error : UsageError) : Outcome :=
  { exitCode := usageExitCode, errors := "error: " ++ error.message ++ "\n" }

/-- Carries out a command line, given the files by name and the standard input. -/
def execute (words : List String) (file : String → FileContent) (standardInput : FileContent) :
    Outcome :=
  match request words with
  | .error error => .ofUsage error
  | .ok .version => { exitCode := 0, output := versionText }
  | .ok .help => { exitCode := 0, output := helpText }
  | .ok (.run task arguments) =>
      .ofResult do
        let settings ← settings arguments file
        let content := match arguments.programFile? with
          | some path => file path
          | none => standardInput
        perform task settings (← program arguments content)

end PatternScript.Command
