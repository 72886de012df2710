import PatternScript.Json
import PatternScript.Number.Layout
import PatternScript.Text.Shown

/-!
Contract: from data values to values of the library.

A value either is what is asked for or it is refused for one cause. The fields of an object are
looked at in their order, so the first that is wrong is the one that is named; fields that are
missing come last, in the order in which a record lists its fields. A record may also be given as an
array of its fields.

Owns: the causes of refusal and their messages, and the decoders that all others are made of.
Does not own: the records of the library.
-/

namespace PatternScript.Wire

/-- The format a value was written in. The formats differ in what they say about a value and in how
strict they are. -/
inductive Format where
  | json
  | toml
deriving DecidableEq, Repr

/-- Why a value is refused. -/
inductive DecodeError where
  /-- A record has no field of this name. -/
  | unknownField (name : String) (expected : List String)
  /-- A choice has no alternative of this name. -/
  | unknownVariant (name : String) (expected : List String)
  /-- A record lacks a field. -/
  | missingField (name : String)
  /-- A value of one kind stands where one of another kind is expected. -/
  | invalidType (found expected : String)
  /-- The value is of the right kind and still cannot be taken. -/
  | unacceptable
deriving DecidableEq, Repr

namespace DecodeError

/-- A name in back quotes. -/
def backQuoted (name : String) : String :=
  "`" ++ name ++ "`"

/-- The names that would have been right. -/
def oneOf : List String → String
  | [] => "there are no fields"
  | [only] => "expected " ++ backQuoted only
  | [first, second] => "expected " ++ backQuoted first ++ " or " ++ backQuoted second
  | names => "expected one of " ++ ", ".intercalate (names.map backQuoted)

/-- What is said about a cause. Nothing is promised about the wording for values that are only
unacceptable. -/
def message? : DecodeError → Option String
  | .unknownField name expected =>
      some ("unknown field " ++ backQuoted name ++ ", " ++ oneOf expected)
  | .unknownVariant name expected =>
      some ("unknown variant " ++ backQuoted name ++ ", " ++ oneOf expected)
  | .missingField name => some ("missing field " ++ backQuoted name)
  | .invalidType found expected => some ("invalid type: " ++ found ++ ", expected " ++ expected)
  | .unacceptable => none

end DecodeError

/-- A value of the library, or why there is none. -/
abbrev Decoded (α : Type) := Except DecodeError α

/-! ## What is said about a value -/

/-- The text of a number in a message. -/
def numberText (format : Format) : Binary64 → String
  | .nan => "NaN"
  | .infinity true => "-inf"
  | .infinity false => "inf"
  | value =>
      let layout := match format with
        | .json => Binary64.Layout.data
        | .toml => Binary64.Layout.message
      (value.render? layout).getD ""

/-- A value in a message. -/
def describe (format : Format) : Json → String
  | .null => "null"
  | .bool true => "boolean `true`"
  | .bool false => "boolean `false`"
  | .integer value => "integer `" ++ toString value ++ "`"
  | .float value => "floating point `" ++ numberText format value ++ "`"
  | .string value => "string " ++ Text.shown value
  | .array _ => "sequence"
  | .object _ => "map"

/-- Refuses a value of the wrong kind. -/
def refuse {α : Type} (format : Format) (value : Json) (expected : String) : Decoded α :=
  .error (.invalidType (describe format value) expected)

/-! ## Plain values -/

/-- A truth value. -/
def bool (format : Format) : Json → Decoded Bool
  | .bool value => .ok value
  | other => refuse format other "a boolean"

/-- A text. -/
def string (format : Format) : Json → Decoded String
  | .string value => .ok value
  | other => refuse format other "a string"

/-- An offset or a count. -/
def natural (format : Format) : Json → Decoded Nat
  | .integer value => if 0 ≤ value then .ok value.toNat else .error .unacceptable
  | other => refuse format other "usize"

/-- A floating-point number; whole numbers are taken as well. -/
def number (format : Format) : Json → Decoded Binary64
  | .integer value => .ok (Binary64.ofInt value)
  | .float value => .ok value
  | other => refuse format other "f64"

/-! ## Values made of others -/

/-- A value that may be absent, which null says. -/
def optional {α : Type} (decode : Json → Decoded α) : Json → Decoded (Option α)
  | .null => .ok none
  | value => (decode value).map some

/-- The decoded values, up to the first that is refused. -/
def decodeAll {α : Type} (decode : Json → Decoded α) : List Json → Decoded (List α)
  | [] => .ok []
  | item :: rest => do
      let first ← decode item
      let others ← decodeAll decode rest
      return first :: others

/-- A list. -/
def list {α : Type} (format : Format) (decode : Json → Decoded α) : Json → Decoded (List α)
  | .array items => decodeAll decode items
  | other => refuse format other "a sequence"

/-- The decoded values under their names, up to the first that is refused. -/
def decodeEntries {α : Type} (decode : Json → Decoded α) :
    List (String × Json) → Decoded (List (String × α))
  | [] => .ok []
  | (name, value) :: rest => do
      let first ← decode value
      let others ← decodeEntries decode rest
      return (name, first) :: others

/-- Values under names of any kind. -/
def table {α : Type} (format : Format) (decode : Json → Decoded α) :
    Json → Decoded (List (String × α))
  | .object fields => decodeEntries decode fields
  | other => refuse format other "a map"

/-! ## Choices -/

/-- The alternative of a name. -/
def alternative {α : Type} (choices : List (String × α)) (name : String) : Decoded α :=
  match choices.lookup name with
  | some choice => .ok choice
  | none => .error (.unknownVariant name (choices.map Prod.fst))

/-- An alternative given as an object with one field takes no content: null or an empty container,
depending on the format. -/
def requireNoContent (format : Format) (content : Json) : Decoded Unit :=
  match format, content with
  | .json, .null => .ok ()
  | .json, other => refuse format other "unit"
  | .toml, .array [] => .ok ()
  | .toml, .object [] => .ok ()
  | .toml, _ => .error .unacceptable

/-- One of several alternatives, given by its name. -/
def choice {α : Type} (format : Format) (choices : List (String × α)) : Json → Decoded α
  | .string name => alternative choices name
  | .object [(name, content)] => do
      if format = .toml ∧ name = Json.dateField then .error .unacceptable
      else
        let chosen ← alternative choices name
        requireNoContent format content
        return chosen
  | .object _ => .error .unacceptable
  | other =>
      match format with
      | .json => refuse format other "string or map"
      | .toml => .error .unacceptable

/-! ## Records -/

/-- A field of a record: where its value goes. -/
structure Field (σ : Type) where
  name : String
  required : Bool
  put : σ → Json → Decoded σ

/-- A field that has a value even if it is not given. -/
def Field.withDefault {σ α : Type} (name : String) (decode : Json → Decoded α) (set : σ → α → σ) :
    Field σ :=
  { name := name, required := false, put := fun record value => (decode value).map (set record) }

/-- A field that must be given. -/
def Field.mandatory {σ α : Type} (name : String) (decode : Json → Decoded α) (set : σ → α → σ) :
    Field σ :=
  { name := name, required := true, put := fun record value => (decode value).map (set record) }

/-- A kind of record. -/
structure Record (σ : Type) where
  /-- The name of the kind in messages. -/
  typeName : String
  /-- The record without any field given. -/
  blank : σ
  fields : List (Field σ)
  /-- Fields of other names are refused and not passed over. -/
  isStrict : Bool

namespace Record

/-- The names of the fields. -/
def names {σ : Type} (record : Record σ) : List String :=
  record.fields.map Field.name

/-- The field of a name. -/
def field? {σ : Type} (record : Record σ) (name : String) : Option (Field σ) :=
  record.fields.find? fun field => field.name == name

/-- Puts given fields into a record, in their order. -/
def putFields {σ : Type} (record : Record σ) : σ → List (String × Json) → Decoded σ
  | value, [] => .ok value
  | value, (name, given) :: rest =>
      match record.field? name with
      | some field => do
          let value ← field.put value given
          record.putFields value rest
      | none =>
          if record.isStrict then .error (.unknownField name record.names)
          else record.putFields value rest

/-- Puts given items into the fields of a record, one after the other. Items for which there are no
fields are an error in one format only. -/
def putItems {σ : Type} (format : Format) : σ → List (Field σ) → List Json → Decoded σ
  | value, [], [] => .ok value
  | value, [], _ :: _ =>
      match format with
      | .json => .error .unacceptable
      | .toml => .ok value
  | value, fields, [] =>
      if fields.any Field.required then .error .unacceptable else .ok value
  | value, field :: fields, item :: items => do
      let value ← field.put value item
      putItems format value fields items

/-- The first field that must be given and is not. -/
def missing? {σ : Type} (record : Record σ) (given : List (String × Json)) : Option String :=
  (record.fields.find? fun field =>
    field.required && !given.any fun entry => entry.1 == field.name).map Field.name

/-- A record. -/
def decode {σ : Type} (format : Format) (record : Record σ) : Json → Decoded σ
  | .object given => do
      let value ← record.putFields record.blank given
      match record.missing? given with
      | some name => .error (.missingField name)
      | none => return value
  | .array items => putItems format record.blank record.fields items
  | other => refuse format other ("struct " ++ record.typeName)

end Record

end PatternScript.Wire
