import PatternScript.Registry
import PatternScript.Transpile.Options

/-!
Contract: settings in layers.

Every layer sets some choices, names widget methods and gives languages to tags. Later layers win
choice by choice and tag by tag; widget methods add up, unless a layer asks that those before it be
dropped.

Owns: layers, the built-in layer, the merge of layers and the registry of the merge.
Does not own: how layers are written.
-/

namespace PatternScript.Config

/-- What happens to the widget methods of earlier layers. -/
inductive MergeRule where
  /-- They are dropped. -/
  | prefer
  /-- They stay. -/
  | concat
deriving DecidableEq, Repr

/-- How pattern notation stands in the literals of a language. -/
inductive NotationForm where
  /-- The literal is notation. -/
  | whole
  /-- The literal holds notation in double quotes. -/
  | quoted
deriving DecidableEq, Repr

/-- The language of a tag. -/
structure LanguageEntry where
  /-- The function that literals are handed to, if it is not the tag. -/
  name : Option String := none
  form : NotationForm := .whole
deriving DecidableEq, Repr

/-- The choices that a layer makes. -/
structure Choices where
  wrapAsync : Option Bool := none
  addReturn : Option Bool := none
  emitLocations : Option Bool := none
  emitWidgets : Option Bool := none
  callerId : Option String := none
deriving DecidableEq, Repr

/-- A layer of settings. The tags of its languages differ. -/
structure Layer where
  choices : Choices := {}
  methods : List String := []
  methodsMerge : MergeRule := .concat
  languages : List (String × LanguageEntry) := []
deriving DecidableEq, Repr

/-- The merge of layers. -/
structure Settings where
  options : Options := {}
  methods : List String := []
  languages : List (String × LanguageEntry) := []
deriving DecidableEq, Repr

namespace Choices

/-- Makes the choices. -/
def apply (choices : Choices) (options : Options) : Options :=
  { wrapAsync := choices.wrapAsync.getD options.wrapAsync
    addReturn := choices.addReturn.getD options.addReturn
    emitLocations := choices.emitLocations.getD options.emitLocations
    emitWidgets := choices.emitWidgets.getD options.emitWidgets
    callerId := choices.callerId.or options.callerId }

end Choices

namespace LanguageEntry

/-- The language that an entry describes. -/
def language (entry : LanguageEntry) : Language :=
  match entry.form with
  | .whole => .notationWhole entry.name
  | .quoted => .notationQuoted entry.name

end LanguageEntry

namespace Layer

/-- The lowest layer: the widget methods that user interfaces commonly draw. -/
def builtin : Layer :=
  { methods := ["_pianoroll", "_punchcard", "_spiral", "_scope", "_pitchwheel", "_spectrum"] }

end Layer

namespace Settings

/-- Adds names that are not there yet. -/
def addNames (names : List String) (more : List String) : List String :=
  more.foldl (fun names name => if names.contains name then names else names ++ [name]) names

/-- Puts a layer on top. -/
def apply (settings : Settings) (layer : Layer) : Settings :=
  let below := match layer.methodsMerge with
    | .prefer => []
    | .concat => settings.methods
  { options := layer.choices.apply settings.options
    methods := addNames below layer.methods
    languages := layer.languages.foldl
      (fun languages entry => Registry.bind entry.1 entry.2 languages) settings.languages }

/-- Merges layers, the lowest first. -/
def ofLayers (layers : List Layer) : Settings :=
  layers.foldl apply {}

/-- The registry with the languages and widget methods of the settings. -/
def registry (settings : Settings) : Registry :=
  let withLanguages := settings.languages.foldl
    (fun registry entry => registry.addLanguage entry.1 entry.2.language) Registry.empty
  settings.methods.foldl (fun registry name => (registry.addMethod name).1) withLanguages

end Settings

end PatternScript.Config
