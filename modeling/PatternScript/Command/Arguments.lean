import PatternScript.Config.Layer

/-!
Contract: what the arguments of the command line ask for.

Options may stand before or after the program file. The value of an option follows it or stands
behind an equals sign. An option can be given once, except that the log level can be given once
before and once after the name of the task.

Owns: the tasks, their arguments, and what is wrong with arguments.
Does not own: carrying out a task.
-/

namespace PatternScript.Command

/-- What the transpiled program is printed as. -/
inductive OutputFormat where
  | code
  | json
deriving DecidableEq, Repr

/-- What is printed about a program. -/
inductive Task where
  /-- The transpiled program. -/
  | transpile (format : OutputFormat)
  /-- Its controls. -/
  | widgets
  /-- The leaves of its notation. -/
  | locations
deriving DecidableEq, Repr

/-- The arguments that all tasks share. -/
structure Arguments where
  /-- The program file; a dash or nothing is the standard input. -/
  input : Option String := none
  wrapAsync : Bool := false
  noReturn : Bool := false
  noLocations : Bool := false
  noWidgets : Bool := false
  id : Option String := none
  /-- The settings file. -/
  config : Option String := none
deriving DecidableEq, Repr

/-- What the command line asks for. -/
inductive Request where
  | run (task : Task) (arguments : Arguments)
  | version
  | help
deriving DecidableEq, Repr

/-- What is wrong with a command line. -/
inductive UsageError where
  | missingTask
  | unknownTask (name : String)
  | unknownOption (name : String)
  | unexpectedArgument (text : String)
  | repeatedOption (name : String)
  | missingValue (name : String)
  | unexpectedValue (name : String)
  | invalidValue (name value : String)
deriving DecidableEq, Repr

namespace UsageError

/-- What is said about a wrong command line. -/
def message : UsageError → String
  | .missingTask => "a task is required"
  | .unknownTask name => "unrecognized task '" ++ name ++ "'"
  | .unknownOption name => "unexpected option '" ++ name ++ "'"
  | .unexpectedArgument text => "unexpected argument '" ++ text ++ "'"
  | .repeatedOption name => "the option '" ++ name ++ "' cannot be used multiple times"
  | .missingValue name => "a value is required for '" ++ name ++ "'"
  | .unexpectedValue name => "unexpected value for '" ++ name ++ "'"
  | .invalidValue name value => "invalid value '" ++ value ++ "' for '" ++ name ++ "'"

end UsageError

/-! ## Words -/

/-- What a word of the command line looks like. -/
inductive Word where
  /-- Everything behind it is plain. -/
  | separator
  /-- An option with two dashes, and the value behind its equals sign. -/
  | long (name : String) (value : Option String)
  /-- An option with one dash. -/
  | short (letter : Char) (name : String)
  | plain (text : String)
deriving DecidableEq, Repr

/-- What a word looks like. A dash alone is plain. -/
def Word.ofString (text : String) : Word :=
  match text.toList with
  | ['-', '-'] => .separator
  | '-' :: '-' :: rest =>
      let name := String.ofList ("--".toList ++ rest.takeWhile (· != '='))
      match rest.dropWhile (· != '=') with
      | _ :: value => .long name (some (String.ofList value))
      | [] => .long name none
  | '-' :: letter :: _ => .short letter text
  | _ => .plain text

/-- The value of an option and the words behind it: the value behind the equals sign, or the next
word if it is plain. -/
def optionValue (name : String) (value : Option String) (rest : List String) :
    Except UsageError (String × List String) :=
  match value, rest with
  | some value, _ => .ok (value, rest)
  | none, next :: rest =>
      match Word.ofString next with
      | .plain value => .ok (value, rest)
      | _ => .error (.missingValue name)
  | none, [] => .error (.missingValue name)

/-! ## Options of a task -/

/-- What has been read behind the name of a task. -/
structure Draft where
  task : Task
  arguments : Arguments := {}
  /-- The options given so far. -/
  given : List String := []
  wantsHelp : Bool := false

namespace Draft

/-- Takes the program file. -/
def takeInput (draft : Draft) (text : String) : Except UsageError Draft :=
  match draft.arguments.input with
  | some _ => .error (.unexpectedArgument text)
  | none =>
      if text.isEmpty then .error (.invalidValue "input" text)
      else .ok { draft with arguments := { draft.arguments with input := some text } }

/-- Takes plain words. -/
def takePlain (draft : Draft) (words : List String) : Except UsageError Draft :=
  words.foldlM takeInput draft

/-- The options without a value: how they change the arguments. -/
def flag? : String → Option (Arguments → Arguments)
  | "--wrap-async" => some fun arguments => { arguments with wrapAsync := true }
  | "--no-return" => some fun arguments => { arguments with noReturn := true }
  | "--no-locations" => some fun arguments => { arguments with noLocations := true }
  | "--no-widgets" => some fun arguments => { arguments with noWidgets := true }
  | _ => none

/-- The option takes a value for this task. -/
def takesValue (task : Task) (name : String) : Bool :=
  ["--id", "--config", "--log-level"].contains name ||
    (name == "--format" && match task with
      | .transpile _ => true
      | _ => false)

/-- Takes the value of an option. -/
def takeValue (draft : Draft) (name value : String) : Except UsageError Draft :=
  match name with
  | "--id" => .ok { draft with arguments := { draft.arguments with id := some value } }
  | "--config" =>
      if value.isEmpty then .error (.invalidValue name value)
      else .ok { draft with arguments := { draft.arguments with config := some value } }
  | "--format" =>
      match value with
      | "code" => .ok { draft with task := .transpile .code }
      | "json" => .ok { draft with task := .transpile .json }
      | _ => .error (.invalidValue name value)
  | _ => .ok draft

/-- Notes that an option is given, which must not have been given before. -/
def note (draft : Draft) (name : String) : Except UsageError Draft :=
  if draft.given.contains name then .error (.repeatedOption name)
  else .ok { draft with given := name :: draft.given }

/-- Takes the words behind the name of a task, at most `limit` of them. -/
def takeUpTo : (limit : Nat) → Draft → List String → Except UsageError Draft
  | 0, draft, _ => .ok draft
  | _ + 1, draft, [] => .ok draft
  | limit + 1, draft, word :: rest =>
      match Word.ofString word with
      | .separator => draft.takePlain rest
      | .plain text => do
          let draft ← draft.takeInput text
          takeUpTo limit draft rest
      | .short letter name =>
          if letter = 'h' then .ok { draft with wantsHelp := true }
          else .error (.unknownOption name)
      | .long name value =>
          if takesValue draft.task name then do
            let (value, rest) ← optionValue name value rest
            let draft ← (← draft.note name).takeValue name value
            takeUpTo limit draft rest
          else
            match flag? name, value with
            | some change, none => do
                let draft ← draft.note name
                takeUpTo limit { draft with arguments := change draft.arguments } rest
            | some _, some _ => .error (.unexpectedValue name)
            | none, _ =>
                if name = "--help" ∧ value = none then .ok { draft with wantsHelp := true }
                else .error (.unknownOption name)

end Draft

/-! ## The command line -/

/-- The task of a name. -/
def Task.ofName? : String → Option Task
  | "transpile" => some (.transpile .code)
  | "widgets" => some .widgets
  | "locations" => some .locations
  | _ => none

/-- The request of the words behind the name of a task. -/
def taskRequest (task : Task) (words : List String) : Except UsageError Request := do
  let draft ← Draft.takeUpTo words.length { task := task } words
  return if draft.wantsHelp then .help else .run draft.task draft.arguments

/-- The request of a command line, of which at most `limit` words stand before the task;
`hasLevel` says that the log level has been given. -/
def requestUpTo : (limit : Nat) → (hasLevel : Bool) → List String → Except UsageError Request
  | 0, _, _ => .error .missingTask
  | _ + 1, _, [] => .error .missingTask
  | limit + 1, hasLevel, word :: rest =>
      match Word.ofString word with
      | .separator => .error .missingTask
      | .plain "help" => .ok .help
      | .plain name =>
          match Task.ofName? name with
          | some task => taskRequest task rest
          | none => .error (.unknownTask name)
      | .short 'V' _ => .ok .version
      | .short 'h' _ => .ok .help
      | .short _ name => .error (.unknownOption name)
      | .long "--version" none => .ok .version
      | .long "--help" none => .ok .help
      | .long "--log-level" value => do
          let (_, rest) ← optionValue "--log-level" value rest
          if hasLevel then .error (.repeatedOption "--log-level")
          else requestUpTo limit true rest
      | .long name _ => .error (.unknownOption name)

/-- The request of a command line. -/
def request (words : List String) : Except UsageError Request :=
  requestUpTo (words.length + 1) false words

/-- The settings that arguments make. -/
def Arguments.layer (arguments : Arguments) : Config.Layer :=
  let chosen := fun (given value : Bool) => if given then some value else none
  { choices :=
      { wrapAsync := chosen arguments.wrapAsync true
        addReturn := chosen arguments.noReturn false
        emitLocations := chosen arguments.noLocations false
        emitWidgets := chosen arguments.noWidgets false
        callerId := arguments.id } }

end PatternScript.Command
