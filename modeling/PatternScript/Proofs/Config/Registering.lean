import PatternScript.Proofs.Config.Merging
import PatternScript.Proofs.Transpile.Registering

/-!
Contract: registering entries one after the other.

What a registry holds after any registrations can be read off the list of them: the tags and the
methods in the order of their first registration, and for each tag the last language. As layers are
merged by the same rules, it makes no difference whether their entries are registered layer by layer
or after the merge, as long as no layer drops the methods below it.

Owns: the outcome of registrations, and the registrations of layers.
Does not own: what the entries are used for.
-/

namespace PatternScript

namespace Registration

/-- The tag of a registration of a language. -/
def tag? : Registration → Option String
  | .language tag _ => some tag
  | .method _ => none

/-- The name of a registration of a method. -/
def method? : Registration → Option String
  | .language _ _ => none
  | .method name => some name

/-- The language that is registered, if it is for the given tag. -/
def languageFor? (tag : String) : Registration → Option Language
  | .language other held => if other = tag then some held else none
  | .method _ => none

/-- The binding that a registration of a language makes. -/
def binding? : Registration → Option (String × Language)
  | .language tag held => some (tag, held)
  | .method _ => none

theorem map_fst_filterMap_binding? (entries : List Registration) :
    (entries.filterMap binding?).map Prod.fst = entries.filterMap tag? := by
  rw [List.map_filterMap]
  congr
  funext entry
  cases entry <;> rfl

theorem valuesOf_filterMap_binding? (entries : List Registration) (tag : String) :
    Registry.valuesOf tag (entries.filterMap binding?) = entries.filterMap (languageFor? tag) := by
  rw [Registry.valuesOf, List.filterMap_filterMap]
  congr
  funext entry
  cases entry <;> rfl

theorem mem_filterMap_method? {entries : List Registration} {name : String} :
    name ∈ entries.filterMap method? ↔ .method name ∈ entries := by
  rw [List.mem_filterMap]
  constructor
  · rintro ⟨entry, member, named⟩
    cases entry with
    | language tag language => cases named
    | method other =>
        cases named
        exact member
  · intro member
    exact ⟨.method name, member, rfl⟩

end Registration

/-! ## Registrations from nothing -/

namespace Registry

/-- The registry after some registrations. -/
def ofRegistrations (entries : List Registration) : Registry :=
  entries.foldl register empty

theorem ofRegistrations_concat (entries : List Registration) (entry : Registration) :
    ofRegistrations (entries ++ [entry]) = (ofRegistrations entries).register entry :=
  List.foldl_append

/-- One registration adds to one of the two lists; all of them fill both, each by its own rule. -/
theorem ofRegistrations_eq (entries : List Registration) :
    ofRegistrations entries =
      { languages := bindAll [] (entries.filterMap Registration.binding?)
        methods := (entries.filterMap Registration.method?).eraseDups } := by
  induction entries using List.reverseRecOn with
  | nil => rfl
  | append_singleton entries entry inductionHypothesis =>
      rw [ofRegistrations_concat, inductionHypothesis, List.filterMap_append, List.filterMap_append]
      cases entry with
      | language tag language =>
          simp only [register, addLanguage, List.filterMap_cons, List.filterMap_nil,
            Registration.binding?, Registration.method?, List.append_nil, bindAll_concat]
      | method name =>
          simp only [register, addMethod, isMethod, List.filterMap_cons, List.filterMap_nil,
            Registration.binding?, Registration.method?, List.append_nil, eraseDups_concat,
            List.contains_eq_mem, List.mem_eraseDups, decide_eq_true_eq]
          split <;> rfl

theorem language?_ofRegistrations (entries : List Registration) (tag : String) :
    (ofRegistrations entries).language? tag =
      (entries.filterMap (Registration.languageFor? tag)).getLast? := by
  rw [ofRegistrations_eq, language?, lookup_bindAll, Registration.valuesOf_filterMap_binding?]

theorem tags_ofRegistrations (entries : List Registration) :
    (ofRegistrations entries).tags = (entries.filterMap Registration.tag?).eraseDups := by
  rw [ofRegistrations_eq, tags, map_fst_bindAll, Registration.map_fst_filterMap_binding?]

theorem methods_ofRegistrations (entries : List Registration) :
    (ofRegistrations entries).methods = (entries.filterMap Registration.method?).eraseDups := by
  rw [ofRegistrations_eq]

/-- A method is new as long as it has not been registered. -/
theorem addMethod_ofRegistrations (entries : List Registration) (name : String) :
    ((ofRegistrations entries).addMethod name).2 = true ↔ .method name ∉ entries := by
  have known : (ofRegistrations entries).isMethod name ↔ .method name ∈ entries := by
    rw [isMethod, methods_ofRegistrations, List.contains_iff_mem, List.mem_eraseDups,
      Registration.mem_filterMap_method?]
  rw [← known, addMethod]
  split <;> simp_all

end Registry

/-! ## Registrations of layers -/

namespace Config

/-- The registrations of languages in order, then of methods in order. -/
def registrations (languages : List (String × LanguageEntry)) (methods : List String) :
    List Registration :=
  languages.map (fun entry => .language entry.1 entry.2.language) ++ methods.map .method

theorem filterMap_binding?_registrations (languages : List (String × LanguageEntry))
    (methods : List String) :
    (registrations languages methods).filterMap Registration.binding? =
      languages.map (Prod.map id LanguageEntry.language) := by
  rw [registrations, List.filterMap_append, List.filterMap_map, List.filterMap_map]
  simp [Function.comp_def, Registration.binding?, Prod.map]

theorem filterMap_method?_registrations (languages : List (String × LanguageEntry))
    (methods : List String) :
    (registrations languages methods).filterMap Registration.method? = methods := by
  rw [registrations, List.filterMap_append, List.filterMap_map, List.filterMap_map]
  simp [Function.comp_def, Registration.method?]

/-- The registrations of a layer. -/
def Layer.registrations (layer : Layer) : List Registration :=
  Config.registrations layer.languages layer.methods

end Config

namespace Registry

open Config

/-- Registers the languages of a layer in order, then its methods in order. -/
def registerLayer (registry : Registry) (layer : Layer) : Registry :=
  layer.registrations.foldl register registry

theorem foldl_registerLayer (layers : List Layer) :
    layers.foldl registerLayer empty = ofRegistrations (layers.flatMap Layer.registrations) := by
  rw [ofRegistrations, List.foldl_flatMap]
  rfl

theorem registry_eq_ofRegistrations (settings : Settings) :
    settings.registry = ofRegistrations (registrations settings.languages settings.methods) := by
  rw [ofRegistrations, registrations, List.foldl_append, List.foldl_map, List.foldl_map]
  rfl

/-- Layer by layer or after the merge, the same entries are registered: the merge has bound the
languages in the same way, and binding them once more changes nothing. -/
theorem foldl_registerLayer_eq {layers : List Layer}
    (kept : ∀ layer ∈ layers, layer.methodsMerge ≠ .prefer) :
    layers.foldl registerLayer empty = (Settings.ofLayers layers).registry := by
  rw [foldl_registerLayer, registry_eq_ofRegistrations, ofRegistrations_eq, ofRegistrations_eq]
  have distinct : ((bindAll [] ((layers.flatMap Layer.languages).map
      (Prod.map id LanguageEntry.language))).map Prod.fst).Nodup := by
    rw [map_fst_bindAll]
    exact nodup_eraseDups _
  have languages : (layers.flatMap Layer.registrations).filterMap Registration.binding? =
      (layers.flatMap Layer.languages).map (Prod.map id LanguageEntry.language) := by
    rw [List.filterMap_flatMap, List.map_flatMap]
    simp only [Layer.registrations, filterMap_binding?_registrations]
  have methods : (layers.flatMap Layer.registrations).filterMap Registration.method? =
      layers.flatMap Layer.methods := by
    rw [List.filterMap_flatMap]
    simp only [Layer.registrations, filterMap_method?_registrations]
  rw [languages, methods, filterMap_binding?_registrations, filterMap_method?_registrations,
    Settings.languages_ofLayers, Settings.methods_ofLayers,
    Settings.fromLastPreferred_of_concat kept, map_bindAll, bindAll_of_nodup distinct,
    eraseDups_of_nodup (nodup_eraseDups _)]

/-- The entries of layers of which none drops the methods below it can be registered layer by layer
or after the merge. After any registrations at all a tag stands for its last language, tags and
methods are kept once in the order of their first registration, and the answer to the registration
of a method is that it is new just if it is the first of its name. -/
theorem registrations_in_order (layers : List Layer) (entries : List Registration) :
    ((∀ layer ∈ layers, layer.methodsMerge ≠ .prefer) →
      layers.foldl registerLayer empty = (Settings.ofLayers layers).registry) ∧
    (∀ tag, (ofRegistrations entries).language? tag =
      (entries.filterMap (Registration.languageFor? tag)).getLast?) ∧
    (ofRegistrations entries).tags = (entries.filterMap Registration.tag?).eraseDups ∧
    (ofRegistrations entries).tags.Nodup ∧
    (ofRegistrations entries).methods = (entries.filterMap Registration.method?).eraseDups ∧
    (ofRegistrations entries).methods.Nodup ∧
    ∀ before name after, entries = before ++ .method name :: after →
      (((ofRegistrations before).addMethod name).2 = true ↔ .method name ∉ before) := by
  refine ⟨fun kept => foldl_registerLayer_eq kept, ?_⟩
  refine ⟨language?_ofRegistrations entries, tags_ofRegistrations entries, ?_,
    methods_ofRegistrations entries, ?_, fun before name _ _ => addMethod_ofRegistrations before name⟩
  · rw [tags_ofRegistrations]
    exact nodup_eraseDups _
  · rw [methods_ofRegistrations]
    exact nodup_eraseDups _

/-- Three layers with a tag and methods that come again, and a method that is registered twice. -/
theorem registrations_in_order_repeated :
    let file : Layer :=
      { methods := ["_meter", "_scope"]
        languages := [("b", { name := some "first" }), ("a", {})] }
    let flags : Layer :=
      { methods := ["_meter", "_tuner"]
        languages := [("c", {}), ("b", { name := some "second", form := .quoted })] }
    let registry := (Settings.ofLayers [.builtin, file, flags]).registry
    [Layer.builtin, file, flags].foldl registerLayer empty = registry ∧
    registry.tags = ["b", "a", "c"] ∧
    (registry.language? "b").map Language.callName = some (some "second") ∧
    registry.methods = Layer.builtin.methods ++ ["_meter", "_tuner"] ∧
    (((ofRegistrations [.method "x"]).addMethod "x").2 = true ↔
      .method "x" ∉ [Registration.method "x"]) := by
  intro file flags registry
  obtain ⟨layered, -, -, -, -, -, answered⟩ :=
    registrations_in_order [.builtin, file, flags] [.method "x", .method "x"]
  exact ⟨layered (by decide), by decide +kernel, by decide +kernel, by decide +kernel,
    answered [.method "x"] "x" [] rfl⟩

end Registry

end PatternScript
