import PatternScript.Transpile.Options
import PatternScript.Wire.Decoding

/-!
Contract: the choices for a transpilation as a data value.

Fields that are not known are passed over, and those that are not given keep what they are if nothing
is said.

Owns: reading and writing the choices.
Does not own: the choices.
-/

namespace PatternScript.Wire

/-- The choices as a record. -/
def optionsRecord (format : Format) : Record Options :=
  { typeName := "TranspileOptions"
    blank := {}
    isStrict := false
    fields :=
      [ .withDefault "wrap-async" (bool format) fun options value =>
          { options with wrapAsync := value },
        .withDefault "add-return" (bool format) fun options value =>
          { options with addReturn := value },
        .withDefault "emit-locations" (bool format) fun options value =>
          { options with emitLocations := value },
        .withDefault "emit-widgets" (bool format) fun options value =>
          { options with emitWidgets := value },
        .withDefault "caller-id" (optional (string format)) fun options value =>
          { options with callerId := value } ] }

/-- Reads the choices. -/
def decodeOptions (value : Json) : Decoded Options :=
  (optionsRecord .json).decode .json value

/-- A value that may be absent, as null if it is. -/
def orNull {α : Type} (encode : α → Json) : Option α → Json
  | some value => encode value
  | none => .null

/-- Writes all choices. -/
def encodeOptions (options : Options) : Json :=
  .object
    [ ("wrap-async", .bool options.wrapAsync),
      ("add-return", .bool options.addReturn),
      ("emit-locations", .bool options.emitLocations),
      ("emit-widgets", .bool options.emitWidgets),
      ("caller-id", orNull .string options.callerId) ]

end PatternScript.Wire
