import PatternScript.Proofs.Notation.Leaves
import PatternScript.Proofs.Transpile.Splicing

/-!
Contract: the locations that a program reports.

Locations are reported for literals that are handed to a function, and nothing inside such a literal
is looked at. Each location covers one whole sounding word of the literal's notation, counted in
characters of the program, whichever way the literal was read. Over the whole program the locations
are reported in the order of the text and do not overlap.

Owns: the part of a literal that is notation, and what the locations of a program point at.
Does not own: the words of a notation text.
-/

namespace PatternScript

open Script Notation
open Text (Boundary)

namespace Script.Node

/-- The end of a template literal's text before its first substitution. -/
def quasiStop (template : Node) : Nat :=
  match template.values.find? fun child => child.kind == .templateSubstitution with
  | some substitution => substitution.start
  | none => template.stop - 1

/-- The node is a string or a template literal. -/
def IsLiteral (node : Node) : Prop :=
  node.kind = .string ∨ node.kind = .templateString

instance (node : Node) : Decidable node.IsLiteral :=
  inferInstanceAs (Decidable (_ ∨ _))

/-- The part of a literal that is read as notation: the text between the delimiters of a string, and
of a template literal that before its first substitution. -/
def notated (literal : Node) : ByteRange :=
  ⟨literal.start + 1,
    if literal.kind = .templateString then literal.quasiStop else literal.stop - 1⟩

end Script.Node

section Literals

variable {chars : List Char} {literal : Node}

theorem firstQuasi_eq_slice (source : SourceText) (isTemplate : literal.kind = .templateString) :
    firstQuasi source literal = source.slice literal.notated := by
  rw [firstQuasi, Node.notated, if_pos isTemplate]
  rfl

/-- A literal has delimiters of one byte. -/
theorem exists_delimited (wellFormed : literal.WellFormed chars) (isLiteral : literal.IsLiteral) :
    ∃ opening closing : Char, literal.Delimited chars opening closing ∧ opening.utf8Size = 1 ∧
      closing.utf8Size = 1 := by
  rcases isLiteral with isString | isTemplate
  · rcases wellFormed.placed.string isString with delimited | delimited
    · exact ⟨_, _, delimited, rfl, rfl⟩
    · exact ⟨_, _, delimited, rfl, rfl⟩
  · exact ⟨_, _, wellFormed.placed.template isTemplate, rfl, rfl⟩

theorem insideDelimiters_eq_slice (wellFormed : literal.WellFormed chars)
    (isString : literal.kind = .string) :
    insideDelimiters ((SourceText.ofChars chars).slice literal.range) =
      (SourceText.ofChars chars).slice literal.notated := by
  obtain ⟨opening, closing, delimited, openingSize, closingSize⟩ :=
    exists_delimited wellFormed (.inl isString)
  obtain ⟨inner, sliced, sliceInner, _⟩ :=
    delimited.exists_slice_inner wellFormed.placed openingSize closingSize
  have notated : literal.notated = ⟨literal.start + 1, literal.stop - 1⟩ := by
    simp [Node.notated, isString]
  simp only [SourceText.slice, SourceText.ofChars, notated, sliceInner, sliced, insideDelimiters]
  have whole : opening :: (inner ++ [closing]) = [opening] ++ (inner ++ [closing]) := rfl
  rw [whole]
  refine Text.slice_eq_of_append (by simp [openingSize]) ?_
  simp only [Text.byteLength_append, Text.byteLength_cons, Text.byteLength_nil, openingSize,
    closingSize]
  omega

/-- Where the notation of a literal stands: on whole characters, strictly between the
delimiters. -/
structure Enclosed (chars : List Char) (literal : Node) : Prop where
  first : Boundary chars literal.notated.start
  last : Boundary chars literal.notated.stop
  forward : literal.notated.start ≤ literal.notated.stop
  before : (SourceText.ofChars chars).charOffset literal.start + 1 =
    (SourceText.ofChars chars).charOffset literal.notated.start
  behind : (SourceText.ofChars chars).charOffset literal.notated.stop <
    (SourceText.ofChars chars).charOffset literal.stop

theorem enclosed_of_isLiteral (wellFormed : literal.WellFormed chars)
    (isLiteral : literal.IsLiteral) : Enclosed chars literal := by
  obtain ⟨opening, closing, delimited, openingSize, closingSize⟩ :=
    exists_delimited wellFormed isLiteral
  have placed := wellFormed.placed
  obtain ⟨_, _, _, atStart, atStop, long⟩ :=
    delimited.exists_slice_inner placed openingSize closingSize
  obtain ⟨opens, closes⟩ := delimited.slice_ends placed openingSize closingSize
  have afterOpening := SourceText.charOffset_stop placed.first atStart (Nat.le_succ _)
  have afterClosing := SourceText.charOffset_stop atStop placed.last (Nat.sub_le _ 1)
  rw [opens] at afterOpening
  rw [closes] at afterClosing
  -- The notation ends at the closing delimiter or at a substitution before it.
  have stop : Boundary chars literal.notated.stop ∧ literal.start + 1 ≤ literal.notated.stop ∧
      literal.notated.stop ≤ literal.stop - 1 := by
    simp only [Node.notated]
    split
    · unfold Node.quasiStop
      split
      case h_1 substitution found =>
          have member := Node.mem_children_of_mem_values (List.mem_of_find?_eq_some found)
          have between := delimited.between substitution member
          have inside := (wellFormed.child member).placed
          have forward := inside.forward
          exact ⟨inside.first, by omega, by omega⟩
      case h_2 => exact ⟨atStop, by omega, Nat.le_refl _⟩
    · exact ⟨atStop, by omega, Nat.le_refl _⟩
  have notAfter := SourceText.charOffset_mono (SourceText.ofChars chars) stop.2.2
  refine ⟨atStart, stop.1, stop.2.1, ?_, ?_⟩
  · rw [Node.notated, afterOpening]
    rfl
  · rw [afterClosing]
    simp only [List.length_singleton]
    omega

end Literals

/-! ## Languages of pattern notation -/

/-- Words are found the way pattern notation has them, in a whole text or in quotes. -/
def IsReading (locate : List Char → Nat → List Span) : Prop :=
  locate = leafSpans ∨ locate = quotedSpans

namespace IsReading

variable {locate : List Char → Nat → List Span}

theorem coversWord (isReading : IsReading locate) {text : List Char} {origin : Nat} {span : Span}
    (member : span ∈ locate text origin) : CoversWord text origin span := by
  rcases isReading with rfl | rfl
  · exact coversWord_of_mem_leafSpans member
  · exact coversWord_of_mem_quotedSpans member

theorem inOrder (isReading : IsReading locate) (text : List Char) (origin : Nat) :
    InOrder (locate text origin) := by
  rcases isReading with rfl | rfl
  · exact inOrder_leafSpans text origin
  · exact inOrder_quotedSpans text origin

/-- Brackets around a text change nothing. -/
theorem bracketed (isReading : IsReading locate) {text : List Char}
    (paired : escapesPaired text = true) (origin : Nat) :
    locate ('[' :: (text ++ [']'])) origin = locate text (origin + 1) := by
  rcases isReading with rfl | rfl
  · exact leafSpans_delimited rfl rfl (by decide) rfl paired origin
  · exact quotedSpans_delimited rfl rfl (by decide) (by decide) paired origin

end IsReading

/-- The language is the pattern notation, for whole literals or in quotes. -/
def Language.IsNotation (language : Language) : Prop :=
  ∃ callName, language = notationWhole callName ∨ language = notationQuoted callName

namespace Registry

/-- All languages that are registered are pattern notation. -/
def HoldsNotation (registry : Registry) : Prop :=
  ∀ entry ∈ registry.languages, entry.2.IsNotation

theorem HoldsNotation.isReading {registry : Registry} (holds : registry.HoldsNotation)
    {tag : String} {language : Language} (known : registry.language? tag = some language) :
    IsReading language.locate := by
  obtain ⟨before, after, languages, _⟩ := List.lookup_eq_some_iff.mp known
  obtain ⟨callName, rfl | rfl⟩ := holds (tag, language) (by simp [languages])
  · exact .inl rfl
  · exact .inr rfl

/-- How literals without a tag are read. -/
def reading (registry : Registry) : List Char → Nat → List Span :=
  match registry.defaultLanguage? with
  | some language => language.locate
  | none => leafSpans

end Registry

/-! ## Literals that are handed over -/

/-- A literal that is handed to a function, and how the words in it are found. -/
structure Handed where
  literal : Node
  locate : List Char → Nat → List Span

/-- The spans of the words in a literal that is handed over. -/
def Handed.spans (source : SourceText) (handed : Handed) : List Span :=
  handed.locate (source.slice handed.literal.notated)
    (source.charOffset handed.literal.notated.start)

/-- The replacement of a literal, with its tag if it has one, by a call that is handed its text. -/
def Edit.HandsOver (source : SourceText) (literal : Node) (edit : Edit) : Prop :=
  literal.range.Within edit.range ∧
    ∃ callee given offset, edit.emission = .callWith (.name callee) [given, .number offset] ∧
      (given = .source literal.range ∨
        given = .quoted (String.ofList (source.slice literal.notated)))

/-- What is handed over is a literal among some nodes, it is read as pattern notation, and one of some
replacements hands it over. -/
structure Handed.Stands (source : SourceText) (nodes : List Node) (edits : List Edit)
    (handed : Handed) : Prop where
  member : handed.literal ∈ nodes
  isLiteral : handed.literal.IsLiteral
  isReading : IsReading handed.locate
  handsOver : ∃ edit ∈ edits, edit.HandsOver source handed.literal

theorem Handed.Stands.mono {source : SourceText} {nodes more : List Node}
    {edits others : List Edit} {handed : Handed} (stands : handed.Stands source nodes edits)
    (moreNodes : ∀ node ∈ nodes, node ∈ more) (moreEdits : ∀ edit ∈ edits, edit ∈ others) :
    handed.Stands source more others :=
  ⟨moreNodes _ stands.member, stands.isLiteral, stands.isReading,
    stands.handsOver.imp fun edit found => ⟨moreEdits edit found.1, found.2⟩⟩

namespace Pass

/-- The literal that is handed over at a node, if nothing below the node is looked at. -/
def handedAt? (context : PassContext) (ancestors : List Node) (node : Node) :
    Option (List Handed) :=
  match Rule.select? context.registry (Shape.of context.source ancestors.head? node) with
  | some (.subLanguage tag template) =>
      (context.registry.language? tag).map fun language => [⟨template, language.locate⟩]
  | some (.tidal template) => some [⟨template, quotedSpans⟩]
  | some .templatePattern | some .stringPattern =>
      if holdsScheme (context.source.slice node.notated) then none
      else some [⟨node, context.registry.reading⟩]
  | some (.nativeWidget _ _) => some []
  | _ => none

mutual

/-- The literals of a tree that are handed over, in the order of the text. -/
def handedOver (context : PassContext) (ancestors : List Node) : Node → List Handed
  | .mk kind role range children =>
      let node := Node.mk kind role range children
      match handedAt? context ancestors node with
      | some handed => handed
      | none => handedOverAll context (node :: ancestors) children

/-- The literals of some trees that are handed over, in the order of the text. -/
def handedOverAll (context : PassContext) (ancestors : List Node) : List Node → List Handed
  | [] => []
  | node :: rest => handedOver context ancestors node ++ handedOverAll context ancestors rest

end

/-! ## One visit -/

/-- What a visit reports beside what is handed over at the node. -/
inductive Reported (source : SourceText) (node : Node) (asked : Bool) :
    Option (List Handed) → Action × Findings → Prop where
  | below {found : Findings} (nothing : found.locations = []) :
      Reported source node asked none (.descend, found)
  | nothing {found : Findings} (nothing : found.locations = []) :
      Reported source node asked (some []) (.skip, found)
  | literal {found : Findings} {handed : Handed}
      (reported : found.locations = if asked then handed.spans source else [])
      (stands : handed.Stands source node.preorder found.edits) :
      Reported source node asked (some [handed]) (.skip, found)

section Visit

variable {chars : List Char} {registry : Registry} {options : Options} {node : Node}
  {counters : WidgetCounters}

/-- A template literal with a tag is read as it stands. -/
theorem reported_tagged (wellFormed : node.WellFormed chars) {template : Node}
    (member : template ∈ node.children) (isTemplate : template.kind = .templateString)
    (callee : String) {locate : List Char → Nat → List Span} (isReading : IsReading locate) :
    Reported (.ofChars chars) node options.emitLocations (some [⟨template, locate⟩])
      (Findings.ofVisit (tagged ⟨.ofChars chars, registry, options⟩ node template callee locate
        { counters := counters })) := by
  simp only [tagged, literalCall, replace, Findings.ofVisit, Findings.ofPass, report_eq,
    List.nil_append, firstQuasi_eq_slice _ isTemplate]
  exact .literal rfl
    { member := Node.mem_preorder_of_child member (Node.mem_preorder_self template)
      isLiteral := .inr isTemplate
      isReading := isReading
      handsOver := ⟨_, List.mem_singleton.mpr rfl, wellFormed.placed.inside template member, callee,
        _, _, rfl, .inr rfl⟩ }

/-- A literal without a tag is read inside delimiters, which changes nothing. -/
theorem reported_pattern (wellFormed : node.WellFormed chars) (isLiteral : node.IsLiteral)
    (paired : escapesPaired ((SourceText.ofChars chars).slice node.notated) = true)
    (holds : registry.HoldsNotation) {literal : Emission}
    (given : literal = .source node.range ∨
      literal = .quoted (String.ofList ((SourceText.ofChars chars).slice node.notated))) :
    Reported (.ofChars chars) node options.emitLocations
      (if holdsScheme ((SourceText.ofChars chars).slice node.notated) then none
        else some [⟨node, registry.reading⟩])
      (Findings.ofVisit (pattern ⟨.ofChars chars, registry, options⟩ node
        ((SourceText.ofChars chars).slice node.notated) literal { counters := counters })) := by
  have origin := (enclosed_of_isLiteral wellFormed isLiteral).before
  have handsOver : ∀ callee offset, Edit.HandsOver (.ofChars chars) node
      ⟨⟨node.range.start, node.range.stop⟩, .callWith (.name callee) [literal, .number offset]⟩ :=
    fun callee offset =>
      ⟨⟨Nat.le_refl _, Nat.le_refl _⟩, callee, literal, offset, rfl, given⟩
  simp only [pattern]
  split
  · exact .below rfl
  · simp only [literalCall, replace, Findings.ofVisit, Findings.ofPass, report_eq,
      List.nil_append, Registry.reading]
    cases known : registry.defaultLanguage? with
    | none =>
        refine .literal ?_ ⟨Node.mem_preorder_self node, isLiteral, .inl rfl, _,
          List.mem_singleton.mpr rfl, handsOver _ _⟩
        simp only [Handed.spans, ← origin]
        rw [← leafSpans_quoted paired]
        rfl
    | some language =>
        have isReading := holds.isReading known
        refine .literal ?_ ⟨Node.mem_preorder_self node, isLiteral, isReading, _,
          List.mem_singleton.mpr rfl, handsOver _ _⟩
        simp only [Handed.spans, ← origin]
        rw [← isReading.bracketed paired]
        rfl

/-- Every visit reports the words of what is handed over at the node. -/
theorem reported_look (wellFormed : node.WellFormed chars)
    (paired : node.IsLiteral →
      escapesPaired ((SourceText.ofChars chars).slice node.notated) = true)
    (holds : registry.HoldsNotation) (ancestors : List Node) :
    Reported (.ofChars chars) node options.emitLocations
      (handedAt? ⟨.ofChars chars, registry, options⟩ ancestors node)
      (look ⟨.ofChars chars, registry, options⟩ ancestors node counters) := by
  simp only [look, visit, handedAt?]
  cases selected : Rule.select? registry
      (Shape.of (.ofChars chars) ancestors.head? node) with
  | none => exact .below rfl
  | some rule =>
      cases Rule.matches_of_select? selected with
      | subLanguage kind _ templatePart _ isTemplate known =>
          simp only [apply, known]
          exact reported_tagged wellFormed (Node.mem_children_of_child? templatePart) isTemplate _
            (holds.isReading known)
      | tidal kind _ templatePart _ isTemplate =>
          exact reported_tagged wellFormed (Node.mem_children_of_child? templatePart) isTemplate _
            (.inr rfl)
      | templatePattern kind =>
          simp only [apply, firstQuasi_eq_slice _ kind]
          exact reported_pattern wellFormed (.inr kind) (paired (.inr kind)) holds (.inr rfl)
      | stringPattern kind =>
          simp only [apply, insideDelimiters_eq_slice wellFormed kind]
          exact reported_pattern wellFormed (.inl kind) (paired (.inl kind)) holds (.inl rfl)
      | @nativeWidget _ _ widget _ _ _ _ _ _ given =>
          obtain ⟨first, rest, values⟩ := List.exists_cons_of_ne_nil given
          obtain ⟨descriptor, described, _⟩ := exists_nativeDescriptor widget (.ofChars chars) first
            rest (counters.next widget.kind.name).1
          simp only [apply, nativeWidget, CallParts.values, values, described, Findings.ofVisit,
            Findings.ofPass, replace, describe_eq]
          exact .nothing rfl
      | widgetMethod =>
          refine .below ?_
          simp [apply, widgetMethod, Findings.ofPass, replace, describe_eq]
      | awaitSamples => exact .below rfl
      | label => exact .below rfl

end Visit

/-! ## Whole trees -/

/-- What is reported for some nodes: the words of the literals that are handed over, which stand
one behind the other, and each of which a replacement hands over. -/
structure Reports (source : SourceText) (asked : Bool) (nodes : List Node) (handed : List Handed)
    (found : Findings) : Prop where
  reported : found.locations = if asked then handed.flatMap (Handed.spans source) else []
  apart : handed.Pairwise fun earlier later => earlier.literal.stop ≤ later.literal.start
  stands : ∀ one ∈ handed, one.Stands source nodes found.edits

section Walk

variable {chars : List Char}

/-- Trees that follow each other report one after the other. -/
theorem reports_exploreAll {context : PassContext} {asked : Bool} {ancestors nodes : List Node}
    (wellFormed : ∀ node ∈ nodes, node.WellFormed chars)
    (ordered : nodes.Pairwise fun left right => left.stop ≤ right.start)
    (each : ∀ node ∈ nodes, ∀ counters,
      Reports (.ofChars chars) asked node.preorder (handedOver context ancestors node)
        (explore context ancestors node counters))
    (counters : WidgetCounters) :
    Reports (.ofChars chars) asked (Node.preorderAll nodes)
      (handedOverAll context ancestors nodes) (exploreAll context ancestors nodes counters) := by
  induction nodes generalizing counters with
  | nil => refine ⟨?_, .nil, ?_⟩ <;> simp [exploreAll, handedOverAll]
  | cons node rest inductionHypothesis =>
      rw [List.pairwise_cons] at ordered
      have first := each node List.mem_cons_self counters
      have behind := inductionHypothesis
        (fun other member => wellFormed other (List.mem_cons_of_mem _ member)) ordered.2
        (fun other member => each other (List.mem_cons_of_mem _ member))
        (explore context ancestors node counters).counters
      rw [exploreAll, handedOverAll, Node.preorderAll]
      simp only [Findings.append]
      refine ⟨?_, List.pairwise_append.mpr ⟨first.apart, behind.apart, ?_⟩, ?_⟩
      · rw [first.reported, behind.reported]
        cases asked <;> simp
      · intro earlier inFirst later inRest
        obtain ⟨other, isOther, inOther⟩ :=
          Node.mem_preorderAll.mp (behind.stands later inRest).member
        have stops := ((wellFormed node List.mem_cons_self).of_mem_preorder _
          (first.stands earlier inFirst).member).2.2
        have starts := ((wellFormed other (List.mem_cons_of_mem _ isOther)).of_mem_preorder _
          inOther).2.1
        exact Nat.le_trans stops (Nat.le_trans (ordered.1 other isOther) starts)
      · intro one member
        rcases List.mem_append.mp member with inFirst | inRest
        · exact (first.stands one inFirst).mono (fun _ => List.mem_append_left _)
            (fun _ => List.mem_append_left _)
        · exact (behind.stands one inRest).mono (fun _ => List.mem_append_right _)
            (fun _ => List.mem_append_right _)

theorem reports_explore {registry : Registry} {options : Options} (holds : registry.HoldsNotation)
    (node : Node) :
    node.WellFormed chars →
      (∀ literal ∈ node.preorder, literal.IsLiteral →
        escapesPaired ((SourceText.ofChars chars).slice literal.notated) = true) →
      ∀ (ancestors : List Node) (counters : WidgetCounters),
        Reports (.ofChars chars) options.emitLocations node.preorder
          (handedOver ⟨.ofChars chars, registry, options⟩ ancestors node)
          (explore ⟨.ofChars chars, registry, options⟩ ancestors node counters) := by
  induction node using Node.induction with
  | step kind role range children inductionHypothesis =>
      intro wellFormed paired ancestors counters
      have below := reports_exploreAll (fun child member => wellFormed.child member)
        wellFormed.placed.ordered (fun child member => inductionHypothesis child member
          (wellFormed.child member)
          (fun literal inChild => paired literal (Node.mem_preorder_of_child member inChild))
          (.mk kind role range children :: ancestors))
      have visited := @reported_look chars registry options _ counters wellFormed
        (paired _ (Node.mem_preorder_self _)) holds ancestors
      rw [handedOver]
      cases looked : look ⟨.ofChars chars, registry, options⟩ ancestors
          (.mk kind role range children) counters with
      | mk action found =>
      cases handed : handedAt? ⟨.ofChars chars, registry, options⟩ ancestors
          (.mk kind role range children) with
      | none =>
          rw [looked, handed] at visited
          cases visited with
          | below nothing =>
              -- The locations are those found below, and the replacements below stay.
              have behind := below found.counters
              rw [explore_of_descend looked]
              refine ⟨?_, behind.apart, fun one member => (behind.stands one member).mono ?_ ?_⟩
              · simp only [Findings.append, nothing, List.nil_append]
                exact behind.reported
              · intro other isOther
                obtain ⟨child, isChild, inChild⟩ := Node.mem_preorderAll.mp isOther
                exact Node.mem_preorder_of_child isChild inChild
              · exact fun edit isEdit => List.mem_append_right _ isEdit
      | some list =>
          rw [looked, handed] at visited
          cases visited with
          | nothing nothing =>
              rw [explore_of_skip looked]
              exact ⟨by simp [nothing], .nil, by simp⟩
          | literal reported stands =>
              rw [explore_of_skip looked]
              exact ⟨by simpa using reported, by simp, by simpa using stands⟩

end Walk

/-! ## Whole programs -/

/-- The text of a small program with a character of two bytes before its two literals. -/
def accentedText : List Char := "é(\"a ~ bd\",`c $\x7bd\x7d e`)".toList

/-- Its tree. -/
def accentedTree : Node :=
  .mk .program none ⟨0, 23⟩ [.mk .expressionStatement none ⟨0, 23⟩ [
    .mk .callExpression none ⟨0, 23⟩ [.mk .identifier (some .function) ⟨0, 2⟩ [],
      .mk .arguments (some .arguments) ⟨2, 23⟩ [.mk .string none ⟨3, 11⟩ [],
        .mk .templateString none ⟨12, 22⟩ [
          .mk .templateSubstitution none ⟨15, 19⟩ [.mk .identifier none ⟨17, 18⟩ []]]]]]]

/-- A location points at one whole sounding word of a literal's notation: it stands behind the
opening delimiter and before the end of the notation, which is before the closing delimiter, and the
characters of the program at the location are those of the word. -/
structure PointsAtWord (chars : List Char) (literal : Node) (location : Span) : Prop where
  opened : (SourceText.ofChars chars).charOffset literal.start < location.start
  forward : location.start < location.stop
  inside : location.stop ≤ (SourceText.ofChars chars).charOffset literal.notated.stop
  closed : (SourceText.ofChars chars).charOffset literal.notated.stop <
    (SourceText.ofChars chars).charOffset literal.stop
  word : ∃ lexeme ∈ lexemes ((SourceText.ofChars chars).slice literal.notated),
    lexeme.token = .word ∧ isSounding lexeme.text = true ∧ '\n' ∉ lexeme.text ∧
      location = (SourceText.ofChars chars).span
        ⟨literal.notated.start + lexeme.start, literal.notated.start + lexeme.stop⟩ ∧
      (chars.drop location.start).take location.length = lexeme.text

theorem pointsAtWord_of_mem_spans {chars : List Char} {handed : Handed}
    (wellFormed : handed.literal.WellFormed chars) (isLiteral : handed.literal.IsLiteral)
    (isReading : IsReading handed.locate) {location : Span}
    (member : location ∈ handed.spans (.ofChars chars)) :
    PointsAtWord chars handed.literal location := by
  have enclosed := enclosed_of_isLiteral wellFormed isLiteral
  have covers := isReading.coversWord member
  obtain ⟨starts, forward, stops⟩ := covers.bounds
  have length := SourceText.charOffset_stop enclosed.first enclosed.last enclosed.forward
  have before := enclosed.before
  have inside : location.stop ≤
      (SourceText.ofChars chars).charOffset handed.literal.notated.stop := by
    rw [length]
    exact stops
  exact ⟨by omega, forward, inside, enclosed.behind,
    covers.in_source enclosed.first enclosed.last enclosed.forward⟩

/-- The locations of a well-formed tree whose literals end in no open escape, read as pattern
notation with or without a default language, are those of the words of the literals that are handed
over. They increase and do not overlap over the whole program, they lie in the program, and each
points at one whole sounding word of a literal that a replacement hands over. -/
theorem locations_point_at_sounding_words (chars : List Char) (tree : Node) (options : Options)
    (registry : Registry) (wellFormed : tree.WellFormed chars)
    (paired : ∀ literal ∈ tree.preorder, literal.IsLiteral →
      escapesPaired ((SourceText.ofChars chars).slice literal.notated) = true)
    (holds : registry.HoldsNotation) (asked : options.emitLocations = true) :
    let context : PassContext := ⟨.ofChars chars, registry, options⟩
    let locations := (ofTree context tree).locations
    locations = (handedOver context [] tree).flatMap (Handed.spans (.ofChars chars)) ∧
      locations.Pairwise (fun earlier later =>
        earlier.start < later.start ∧ earlier.stop ≤ later.start) ∧
      ∀ location ∈ locations, location.start < location.stop ∧ location.stop ≤ chars.length ∧
        ∃ literal ∈ tree.preorder, literal.IsLiteral ∧
          (∃ edit ∈ recorded context tree, edit.HandsOver (.ofChars chars) literal) ∧
          PointsAtWord chars literal location := by
  intro context locations
  have reports := @reports_explore chars registry options holds tree wellFormed paired [] []
  have collected : locations =
      (handedOver context [] tree).flatMap (Handed.spans (.ofChars chars)) := by
    have reported := reports.reported
    rw [asked, if_pos rfl] at reported
    rw [← reported]
    simp only [locations, ofTree_eq_absorb]
    rfl
  have points : ∀ handed ∈ handedOver context [] tree, ∀ location ∈ handed.spans (.ofChars chars),
      PointsAtWord chars handed.literal location := fun handed isHanded location member =>
    have stands := reports.stands handed isHanded
    pointsAtWord_of_mem_spans (wellFormed.of_mem_preorder _ stands.member).1 stands.isLiteral
      stands.isReading member
  refine ⟨collected, ?_, ?_⟩
  · have ordered : InOrder locations := by
      rw [collected]
      refine List.pairwise_flatMap.mpr ⟨fun handed isHanded =>
        (reports.stands handed isHanded).isReading.inOrder _ _, ?_⟩
      -- Across literals the delimiters keep the words apart.
      refine reports.apart.imp_of_mem ?_
      intro earlier later isEarlier isLater apart location inEarlier other inLater
      have first := points earlier isEarlier location inEarlier
      have second := points later isLater other inLater
      have between := SourceText.charOffset_mono (SourceText.ofChars chars) apart
      have inside := first.inside
      have closed := first.closed
      have opened := second.opened
      omega
    refine ordered.imp_of_mem fun {earlier later} isEarlier _ apart => ⟨?_, apart⟩
    rw [collected] at isEarlier
    obtain ⟨handed, isHanded, isLocation⟩ := List.mem_flatMap.mp isEarlier
    exact Nat.lt_of_lt_of_le (points handed isHanded earlier isLocation).forward apart
  · intro location member
    rw [collected] at member
    obtain ⟨handed, isHanded, isLocation⟩ := List.mem_flatMap.mp member
    have stands := reports.stands handed isHanded
    have point := points handed isHanded location isLocation
    have within := (wellFormed.of_mem_preorder _ stands.member).1.placed.last.le
    have bounded := SourceText.charOffset_mono (SourceText.ofChars chars) within
    rw [SourceText.charOffset_byteLength] at bounded
    have inProgram : location.stop ≤ chars.length :=
      Nat.le_trans point.inside (Nat.le_trans (Nat.le_of_lt point.closed) bounded)
    exact ⟨point.forward, inProgram, handed.literal, stands.member, stands.isLiteral,
      stands.handsOver, point⟩

/-- Three words sound in the two literals of the small program, the last one before the
substitution. -/
theorem locations_point_at_sounding_words_accented :
    accentedTree.WellFormed accentedText ∧
      (ofTree ⟨.ofChars accentedText, {}, {}⟩ accentedTree).locations =
        [⟨3, 4⟩, ⟨7, 9⟩, ⟨12, 13⟩] ∧
      ∃ literal ∈ accentedTree.preorder, PointsAtWord accentedText literal ⟨12, 13⟩ := by
  have wellFormed : accentedTree.WellFormed accentedText := by decide +kernel
  obtain ⟨collected, _, each⟩ := locations_point_at_sounding_words accentedText accentedTree {} {}
    wellFormed (by decide +kernel) (fun _ member => absurd member List.not_mem_nil) rfl
  have locations : (ofTree ⟨.ofChars accentedText, {}, {}⟩ accentedTree).locations =
      [⟨3, 4⟩, ⟨7, 9⟩, ⟨12, 13⟩] := by
    rw [collected]
    decide +kernel
  obtain ⟨_, _, literal, member, _, _, point⟩ := each ⟨12, 13⟩ (by rw [locations]; simp)
  exact ⟨wellFormed, locations, literal, member, point⟩

end Pass

end PatternScript
