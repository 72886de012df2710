import PatternScript.Registry
import PatternScript.Text.Shown

/-!
Contract: a registry as it is shown to a developer.

Owns: the shown form.
Does not own: registries.
-/

namespace PatternScript.Registry

/-- The tags and methods of a registry, each in the order of registration. -/
def shown (registry : Registry) : String :=
  let tags := ", ".intercalate (registry.tags.map Text.shown)
  let methods := ", ".intercalate (registry.methods.map Text.shown)
  "LanguageRegistry \x7b languages: [" ++ tags ++ "], widget_methods: \x7b" ++ methods ++ "\x7d \x7d"

end PatternScript.Registry
