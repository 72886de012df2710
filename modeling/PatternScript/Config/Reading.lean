import PatternScript.Config.Layer
import PatternScript.Toml.Document
import PatternScript.Wire.Decoding

/-!
Contract: layers of settings as data.

Unlike results, layers are read strictly: a field that is not known is refused, so that a misspelt
setting does not go unnoticed.

Owns: reading a layer.
Does not own: layers.
-/

namespace PatternScript.Config

open Wire

/-- The choices of a layer as a record. -/
def choicesRecord (format : Format) : Record Choices :=
  { typeName := "TranspileSection"
    blank := {}
    isStrict := true
    fields :=
      [ .withDefault "wrap-async" (optional (bool format)) fun choices value =>
          { choices with wrapAsync := value },
        .withDefault "add-return" (optional (bool format)) fun choices value =>
          { choices with addReturn := value },
        .withDefault "emit-locations" (optional (bool format)) fun choices value =>
          { choices with emitLocations := value },
        .withDefault "emit-widgets" (optional (bool format)) fun choices value =>
          { choices with emitWidgets := value },
        .withDefault "caller-id" (optional (string format)) fun choices value =>
          { choices with callerId := value } ] }

/-- The names of the merge rules. -/
def mergeRules : List (String × MergeRule) :=
  [("prefer", .prefer), ("concat", .concat)]

/-- The names of the notation forms. -/
def notationForms : List (String × NotationForm) :=
  [("mini", .whole), ("quoted-mini", .quoted)]

/-- The language of a tag as a record. -/
def languageRecord (format : Format) : Record LanguageEntry :=
  { typeName := "LanguageConfig"
    blank := {}
    isStrict := true
    fields :=
      [ .withDefault "name" (optional (string format)) fun entry value =>
          { entry with name := value },
        .withDefault "notation" (choice format notationForms) fun entry value =>
          { entry with form := value } ] }

/-- A layer as a record. -/
def layerRecord (format : Format) : Record Layer :=
  { typeName := "ConfigLayer"
    blank := {}
    isStrict := true
    fields :=
      [ .withDefault "transpile" ((choicesRecord format).decode format) fun layer value =>
          { layer with choices := value },
        .withDefault "widget-methods" (list format (string format)) fun layer value =>
          { layer with methods := value },
        .withDefault "widget-methods-merge" (choice format mergeRules) fun layer value =>
          { layer with methodsMerge := value },
        .withDefault "languages" (table format ((languageRecord format).decode format))
          fun layer value => { layer with languages := value } ] }

/-- Reads a layer from a data value. -/
def decodeLayer (format : Format) (value : Json) : Decoded Layer :=
  (layerRecord format).decode format value

/-- Reads a layer from a settings text. -/
def readLayer (text : String) : Decoded Layer :=
  match Toml.read? text.toList with
  | some value => decodeLayer .toml value
  | none => .error .unacceptable

end PatternScript.Config
