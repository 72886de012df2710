import PatternScript.Json

/-!
Contract: tables that are built up key by key.

A table is closed once it has been given as a whole, and open while it only exists because a longer
key went through it. Values of dotted keys never go into an open table made by a header.
Keys keep the order in which they were first given, except that an open table that gets its own
header moves to the end.

Owns: tables and putting values into them.
Does not own: the text of keys and values.
-/

namespace PatternScript.Toml

/-- How a table came to be. -/
inductive Origin where
  /-- It was given as a whole. -/
  | given
  /-- A header went through it. -/
  | headerPath
  /-- A dotted key went through it. -/
  | dottedKey
deriving DecidableEq, Repr

/-- What a key stands for. -/
inductive Entry where
  | value (value : Json)
  | table (origin : Origin) (entries : List (String × Entry))
  /-- The tables of an array, the latest first. -/
  | tables (latestFirst : List (List (String × Entry)))

/-- The entries of a table. -/
abbrev Entries := List (String × Entry)

/-- What a key stands for in some entries. -/
def Entries.find? (entries : Entries) (key : String) : Option Entry :=
  List.lookup key entries

/-- Puts an entry under a key: in the place of the key, or at the end. -/
def Entries.set (key : String) (entry : Entry) : Entries → Entries
  | [] => [(key, entry)]
  | (other, held) :: rest =>
      if other = key then (key, entry) :: rest else (other, held) :: Entries.set key entry rest

/-- The entries without a key. -/
def Entries.remove (key : String) (entries : Entries) : Entries :=
  entries.filter fun entry => entry.1 != key

/-- Changes the table at the end of the keys of a header, making open tables on the way. -/
def underHeader (change : Entries → Option Entries) : List String → Entries → Option Entries
  | [], entries => change entries
  | key :: rest, entries =>
      match entries.find? key with
      | none => do
          let made ← underHeader change rest []
          return entries.set key (.table .headerPath made)
      | some (.value _) => none
      | some (.table origin held) => do
          let made ← underHeader change rest held
          return entries.set key (.table origin made)
      | some (.tables []) => none
      | some (.tables (latest :: earlier)) => do
          let made ← underHeader change rest latest
          return entries.set key (.tables (made :: earlier))

/-- Puts a value under a dotted key. A key of several parts puts it into a table that dotted keys
made; open tables of headers may only lie further up. -/
def putValue (value : Json) : List String → Entries → Option Entries
  | [], _ => none
  | [key], entries =>
      match entries.find? key with
      | none => some (entries.set key (.value value))
      | some _ => none
  | key :: next :: rest, entries =>
      match entries.find? key with
      | none => do
          let made ← putValue value (next :: rest) []
          return entries.set key (.table .dottedKey made)
      | some (.table .dottedKey held) => do
          let made ← putValue value (next :: rest) held
          return entries.set key (.table .dottedKey made)
      | some (.table .headerPath held) => do
          guard !rest.isEmpty
          let made ← putValue value (next :: rest) held
          return entries.set key (.table .headerPath made)
      | some (.tables (latest :: earlier)) => do
          guard !rest.isEmpty
          let made ← putValue value (next :: rest) latest
          return entries.set key (.tables (made :: earlier))
      | some _ => none

/-- Puts values under dotted keys, one after the other. -/
def putValues (pairs : List (List String × Json)) (entries : Entries) : Option Entries :=
  pairs.foldlM (fun entries pair => putValue pair.2 pair.1 entries) entries

mutual

/-- The value of an entry. -/
def Entry.toJson : Entry → Json
  | .value value => value
  | .table _ entries => .object (entriesJson entries)
  | .tables latestFirst => .array (tablesJson latestFirst).reverse

/-- The values of entries under their keys. -/
def entriesJson : List (String × Entry) → List (String × Json)
  | [] => []
  | (key, entry) :: rest => (key, entry.toJson) :: entriesJson rest

/-- The values of tables. -/
def tablesJson : List (List (String × Entry)) → List Json
  | [] => []
  | entries :: rest => .object (entriesJson entries) :: tablesJson rest

end

end PatternScript.Toml
