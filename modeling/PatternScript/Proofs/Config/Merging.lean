import PatternScript.Config.Layer
import PatternScript.Proofs.Registry.Bindings

/-!
Contract: the merge of layers in closed form.

Layers are merged one by one, and each of the three parts of the settings has a rule of its own. What
the rules come to can be said of all layers at once: the last word on each choice, the methods from
the last layer that drops those below it, and for each tag the entry of the last layer that names it,
in the order in which the tags first appear.

Owns: the closed form.
Does not own: the registry of the settings.
-/

namespace PatternScript.Config

namespace Layer

/-- The tags that a layer names. -/
def tags (layer : Layer) : List String :=
  layer.languages.map Prod.fst

/-- What a layer says about a tag, if it names it. -/
def entryFor? (layer : Layer) (tag : String) : Option LanguageEntry :=
  (Registry.valuesOf tag layer.languages).getLast?

/-- A layer drops the methods of the layers below it. -/
def prefers (layer : Layer) : Bool :=
  layer.methodsMerge == .prefer

end Layer

namespace Settings

/-- What the last layer with something to say says. -/
def lastSet {α : Type} (said : Layer → Option α) (layers : List Layer) : Option α :=
  (layers.filterMap said).getLast?

/-- The layers from the last one that drops the methods below it; all of them if none does. -/
def fromLastPreferred : List Layer → List Layer
  | [] => []
  | layer :: above =>
      if above.any Layer.prefers then fromLastPreferred above else layer :: above

theorem ofLayers_concat (layers : List Layer) (layer : Layer) :
    ofLayers (layers ++ [layer]) = (ofLayers layers).apply layer :=
  List.foldl_append

theorem lastSet_concat {α : Type} (said : Layer → Option α) (layers : List Layer) (layer : Layer) :
    lastSet said (layers ++ [layer]) = (said layer).or (lastSet said layers) := by
  rw [lastSet, List.filterMap_append, List.getLast?_append, lastSet]
  cases heard : said layer <;> simp [heard]

/-! ## Choices -/

theorem options_ofLayers (layers : List Layer) :
    (ofLayers layers).options =
      { wrapAsync := (lastSet (·.choices.wrapAsync) layers).getD ({} : Options).wrapAsync
        addReturn := (lastSet (·.choices.addReturn) layers).getD ({} : Options).addReturn
        emitLocations := (lastSet (·.choices.emitLocations) layers).getD ({} : Options).emitLocations
        emitWidgets := (lastSet (·.choices.emitWidgets) layers).getD ({} : Options).emitWidgets
        callerId := (lastSet (·.choices.callerId) layers).or ({} : Options).callerId } := by
  have getD_or : ∀ (top below : Option Bool) (unset : Bool),
      top.getD (below.getD unset) = (top.or below).getD unset := by
    intro top below unset
    cases top <;> rfl
  induction layers using List.reverseRecOn with
  | nil => rfl
  | append_singleton layers layer inductionHypothesis =>
      rw [ofLayers_concat, apply, Choices.apply, inductionHypothesis]
      simp only [lastSet_concat, getD_or, Option.or_assoc]

/-! ## Methods -/

/-- Added names join the first occurrences of those there are. -/
theorem addNames_eraseDups (names more : List String) :
    addNames names.eraseDups more = (names ++ more).eraseDups := by
  induction more using List.reverseRecOn with
  | nil => rw [List.append_nil]; rfl
  | append_singleton more name inductionHypothesis =>
      have added : addNames names.eraseDups (more ++ [name]) =
          if (addNames names.eraseDups more).contains name then addNames names.eraseDups more
          else addNames names.eraseDups more ++ [name] :=
        List.foldl_append
      rw [added, inductionHypothesis, ← List.append_assoc, eraseDups_concat]
      simp only [List.contains_eq_mem, List.mem_eraseDups, decide_eq_true_eq]

theorem fromLastPreferred_concat (layers : List Layer) (layer : Layer) :
    fromLastPreferred (layers ++ [layer]) =
      if layer.prefers then [layer] else fromLastPreferred layers ++ [layer] := by
  induction layers with
  | nil => cases preferred : layer.prefers <;> rfl
  | cons lowest above inductionHypothesis =>
      rw [List.cons_append, fromLastPreferred, fromLastPreferred, inductionHypothesis,
        List.any_append]
      cases preferred : layer.prefers <;> cases dropped : above.any Layer.prefers <;>
        simp [preferred]

theorem fromLastPreferred_of_concat {layers : List Layer}
    (kept : ∀ layer ∈ layers, layer.methodsMerge ≠ .prefer) : fromLastPreferred layers = layers := by
  cases layers with
  | nil => rfl
  | cons lowest above =>
      rw [fromLastPreferred, if_neg]
      rw [List.any_eq_true]
      rintro ⟨layer, member, preferred⟩
      exact kept layer (List.mem_cons_of_mem _ member) (beq_iff_eq.mp preferred)

theorem methods_ofLayers (layers : List Layer) :
    (ofLayers layers).methods = ((fromLastPreferred layers).flatMap Layer.methods).eraseDups := by
  induction layers using List.reverseRecOn with
  | nil => rfl
  | append_singleton layers layer inductionHypothesis =>
      rw [ofLayers_concat, fromLastPreferred_concat, apply, Layer.prefers]
      cases rule : layer.methodsMerge with
      | prefer =>
          simp only [beq_self_eq_true, ↓reduceIte, List.flatMap_singleton]
          exact addNames_eraseDups [] layer.methods
      | concat =>
          have kept : (MergeRule.concat == MergeRule.prefer) = false := rfl
          simp only [kept, Bool.false_eq_true, ↓reduceIte, inductionHypothesis, addNames_eraseDups,
            List.flatMap_append, List.flatMap_singleton]

/-! ## Languages -/

/-- The languages of the layers are bound one after the other. -/
theorem languages_ofLayers (layers : List Layer) :
    (ofLayers layers).languages = Registry.bindAll [] (layers.flatMap Layer.languages) := by
  induction layers using List.reverseRecOn with
  | nil => rfl
  | append_singleton layers layer inductionHypothesis =>
      rw [ofLayers_concat, List.flatMap_append, List.flatMap_singleton, Registry.bindAll_append,
        ← inductionHypothesis]
      rfl

theorem map_fst_flatMap_languages (layers : List Layer) :
    (layers.flatMap Layer.languages).map Prod.fst = layers.flatMap Layer.tags := by
  rw [List.map_flatMap]
  rfl

/-- The last binding of a tag is that of the last layer that names it. -/
theorem getLast?_valuesOf_languages (layers : List Layer) (tag : String) :
    (Registry.valuesOf tag (layers.flatMap Layer.languages)).getLast? =
      lastSet (·.entryFor? tag) layers := by
  induction layers using List.reverseRecOn with
  | nil => rfl
  | append_singleton layers layer inductionHypothesis =>
      rw [lastSet_concat, ← inductionHypothesis, List.flatMap_append, List.flatMap_singleton,
        Registry.valuesOf, List.filterMap_append, List.getLast?_append]
      rfl

/-- The merge of layers: for each choice the last layer that makes it, else what holds if nothing is
said; the methods from the last layer that drops those below it, each at its first occurrence; and
every tag in the order of first appearance, with the whole entry of the last layer that names it. -/
theorem ofLayers_eq_closed_form (layers : List Layer) :
    ofLayers layers =
      { options :=
          { wrapAsync := (lastSet (·.choices.wrapAsync) layers).getD ({} : Options).wrapAsync
            addReturn := (lastSet (·.choices.addReturn) layers).getD ({} : Options).addReturn
            emitLocations :=
              (lastSet (·.choices.emitLocations) layers).getD ({} : Options).emitLocations
            emitWidgets := (lastSet (·.choices.emitWidgets) layers).getD ({} : Options).emitWidgets
            callerId := (lastSet (·.choices.callerId) layers).or ({} : Options).callerId }
        methods := ((fromLastPreferred layers).flatMap Layer.methods).eraseDups
        languages := (layers.flatMap Layer.tags).eraseDups.filterMap fun tag =>
          (lastSet (·.entryFor? tag) layers).map fun entry => (tag, entry) } ∧
    (ofLayers layers).languages.map Prod.fst = (layers.flatMap Layer.tags).eraseDups := by
  constructor
  · rw [← options_ofLayers, ← methods_ofLayers]
    simp only [← getLast?_valuesOf_languages, ← map_fst_flatMap_languages, ← Registry.bindAll_eq,
      ← languages_ofLayers]
  · rw [languages_ofLayers, Registry.map_fst_bindAll, map_fst_flatMap_languages]

end Settings

end PatternScript.Config
