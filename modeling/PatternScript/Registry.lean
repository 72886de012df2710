import PatternScript.Language

/-!
Contract: the languages and widget methods a program may use.

Entries are only ever added. Tags and methods keep the order of their first registration; the last
language registered for a tag is the one it stands for.

Owns: registries, registration and look-up.
Does not own: what the entries are used for.
-/

namespace PatternScript

/-- Known languages by tag, and known widget methods. -/
structure Registry where
  languages : List (String × Language) := []
  methods : List String := []

namespace Registry

/-- Nothing is known. -/
def empty : Registry := {}

/-- Binds a key in a list of bindings: in its place if it is bound, else at the end. -/
def bind {α : Type} (key : String) (value : α) : List (String × α) → List (String × α)
  | [] => [(key, value)]
  | (other, held) :: rest =>
      if other = key then (key, value) :: rest else (other, held) :: bind key value rest

/-- Registers a language for a tag. -/
def addLanguage (registry : Registry) (tag : String) (language : Language) : Registry :=
  { registry with languages := bind tag language registry.languages }

/-- The language of a tag. -/
def language? (registry : Registry) (tag : String) : Option Language :=
  registry.languages.lookup tag

/-- The language for literals without a tag. -/
def defaultLanguage? (registry : Registry) : Option Language :=
  registry.language? Language.defaultTag

/-- The name is a widget method. -/
def isMethod (registry : Registry) (name : String) : Bool :=
  registry.methods.contains name

/-- Registers a widget method; answers whether it was new. -/
def addMethod (registry : Registry) (name : String) : Registry × Bool :=
  if registry.isMethod name then (registry, false)
  else ({ registry with methods := registry.methods ++ [name] }, true)

/-- The tags in the order of their first registration. -/
def tags (registry : Registry) : List String :=
  registry.languages.map Prod.fst

end Registry

end PatternScript
