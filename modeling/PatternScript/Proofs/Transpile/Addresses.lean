import PatternScript.Proofs.Transpile.Agreement
import PatternScript.Proofs.Transpile.Carrying

/-!
Contract: literals with a resource address are no notation.

An address is told by its scheme alone. A literal with a scheme is not handed over, so no location
comes from it, and one that comes from a literal around it or inside it keeps apart from its text: the
notation of a template literal ends before its first substitution opens. A string with a scheme is in
the output as it is in the program.

Owns: schemes, where locations come from, and what is left of literals with a scheme.
Does not own: how texts come through rewriting.
-/

namespace PatternScript

open Script Notation
open Text (Boundary)

/-! ## Schemes -/

/-- The text is a run of letters, digits, `+`, `.` and `-`, then `://`, and then anything. -/
def EndsScheme (text : List Char) : Prop :=
  ∃ run after, text = run ++ "://".toList ++ after ∧
    ∀ c ∈ run, c.isAlphanum = true ∨ c ∈ ['+', '.', '-']

/-- Somewhere in the text a letter starts a scheme. -/
def HasScheme (text : List Char) : Prop :=
  ∃ before letter rest, text = before ++ letter :: rest ∧ letter.isAlpha = true ∧ EndsScheme rest

theorem isSchemeChar_iff {c : Char} :
    isSchemeChar c = true ↔ c.isAlphanum = true ∨ c ∈ ['+', '.', '-'] := by
  simp [isSchemeChar, or_assoc]

theorem endsScheme_cons {c : Char} {rest : List Char} :
    EndsScheme (c :: rest) ↔
      (c = ':' ∧ rest.take 2 = ['/', '/']) ∨ (isSchemeChar c = true ∧ EndsScheme rest) := by
  constructor
  · rintro ⟨run, after, split, each⟩
    cases run with
    | nil =>
        obtain ⟨rfl, rfl⟩ := List.cons.inj split
        exact .inl ⟨rfl, rfl⟩
    | cons first run =>
        obtain ⟨rfl, rfl⟩ := List.cons.inj split
        rw [List.forall_mem_cons] at each
        exact .inr ⟨isSchemeChar_iff.mpr each.1, run, after, rfl, each.2⟩
  · rintro (⟨rfl, slashes⟩ | ⟨inRun, run, after, rfl, each⟩)
    · refine ⟨[], rest.drop 2, ?_, by simp⟩
      have whole := List.take_append_drop 2 rest
      rw [slashes] at whole
      rw [← whole]
      rfl
    · exact ⟨c :: run, after, rfl, List.forall_mem_cons.mpr ⟨isSchemeChar_iff.mp inRun, each⟩⟩

theorem hasScheme_cons {c : Char} {rest : List Char} :
    HasScheme (c :: rest) ↔ (c.isAlpha = true ∧ EndsScheme rest) ∨ HasScheme rest := by
  constructor
  · rintro ⟨before, letter, more, split, isLetter, ends⟩
    cases before with
    | nil =>
        obtain ⟨rfl, rfl⟩ := List.cons.inj split
        exact .inl ⟨isLetter, ends⟩
    | cons first before =>
        obtain ⟨rfl, rfl⟩ := List.cons.inj split
        exact .inr ⟨before, letter, more, rfl, isLetter, ends⟩
  · rintro (⟨isLetter, ends⟩ | ⟨before, letter, more, rfl, isLetter, ends⟩)
    · exact ⟨[], c, rest, rfl, isLetter, ends⟩
    · exact ⟨c :: before, letter, more, rfl, isLetter, ends⟩

/-- A scheme is found if it is there, from one character to the next. -/
theorem schemeFrom_iff (lettered : Bool) (text : List Char) :
    schemeFrom lettered text = true ↔ (lettered = true ∧ EndsScheme text) ∨ HasScheme text := by
  induction text generalizing lettered with
  | nil => simp [schemeFrom, EndsScheme, HasScheme]
  | cons c rest inductionHypothesis =>
      have letter : c.isAlpha = true → isSchemeChar c = true := by
        intro isLetter
        simp [isSchemeChar, Char.isAlphanum, isLetter]
      rw [schemeFrom, Bool.or_eq_true, inductionHypothesis, endsScheme_cons, hasScheme_cons]
      simp only [Bool.and_eq_true, Bool.or_eq_true, beq_iff_eq]
      grind

theorem holdsScheme_iff (text : List Char) : holdsScheme text = true ↔ HasScheme text := by
  simp [holdsScheme, schemeFrom_iff]

/-! ## Where locations come from -/

/-- The spans have no character in common. -/
def Span.Apart (left right : Span) : Prop :=
  left.stop ≤ right.start ∨ right.stop ≤ left.start

namespace Pass

/-- The location of a word of a literal that is handed over at a node. The literal has no scheme, or
it is a template literal with a tag. The location is that of the text in some delimiters, so it may
reach one character over the end of the notation. -/
structure ComesFrom (source : SourceText) (node literal : Node) (location : Span) : Prop where
  isLiteral : literal.IsLiteral
  origin : literal = node ∧ ¬HasScheme (source.slice literal.notated) ∨
    literal.kind = .templateString ∧ node.kind = .callExpression ∧
      node.child? .arguments = some literal
  starts : source.charOffset literal.start ≤ location.start
  stops : location.stop ≤ source.charOffset literal.notated.stop + 1

section Origins

variable {chars : List Char} {registry : Registry} {options : Options} {node literal : Node}
  {location : Span}

theorem comesFrom_tagged (wellFormed : node.WellFormed chars)
    (isCall : node.kind = .callExpression) (templatePart : node.child? .arguments = some literal)
    (isTemplate : literal.kind = .templateString) {locate : List Char → Nat → List Span}
    (isReading : IsReading locate)
    (member : location ∈ locate ((SourceText.ofChars chars).slice literal.notated)
      ((SourceText.ofChars chars).charOffset (literal.start + 1))) :
    ComesFrom (.ofChars chars) node literal location := by
  have isChild := Node.mem_children_of_child? templatePart
  have points := @pointsAtWord_of_mem_spans chars ⟨literal, locate⟩ (wellFormed.child isChild)
    (.inr isTemplate) isReading location member
  exact ⟨.inr isTemplate, .inr ⟨isTemplate, isCall, templatePart⟩, Nat.le_of_lt points.opened,
    Nat.le_succ_of_le points.inside⟩

/-- A literal without a tag is read inside some delimiters of its own length. -/
theorem comesFrom_pattern (wellFormed : literal.WellFormed chars) (isLiteral : literal.IsLiteral)
    (plain : ¬HasScheme ((SourceText.ofChars chars).slice literal.notated))
    {locate : List Char → Nat → List Span} (isReading : IsReading locate) (opening closing : Char)
    (member : location ∈ locate
      (opening :: ((SourceText.ofChars chars).slice literal.notated ++ [closing]))
      ((SourceText.ofChars chars).charOffset literal.start)) :
    ComesFrom (.ofChars chars) literal literal location := by
  have enclosed := enclosed_of_isLiteral wellFormed isLiteral
  have length : (SourceText.ofChars chars).charOffset literal.notated.stop =
      (SourceText.ofChars chars).charOffset literal.notated.start +
        ((SourceText.ofChars chars).slice literal.notated).length :=
    SourceText.charOffset_stop enclosed.first enclosed.last enclosed.forward
  have before := enclosed.before
  obtain ⟨starts, _, stops⟩ := (isReading.coversWord member).bounds
  refine ⟨isLiteral, .inl ⟨rfl, plain⟩, starts, ?_⟩
  simp only [List.length_cons, List.length_append, List.length_nil] at stops
  omega

theorem comesFrom_of_mem_pattern (wellFormed : node.WellFormed chars) (isLiteral : node.IsLiteral)
    (holds : registry.HoldsNotation) {counters : WidgetCounters} {given : Emission}
    (member : location ∈ (Findings.ofVisit (pattern ⟨.ofChars chars, registry, options⟩ node
      ((SourceText.ofChars chars).slice node.notated) given
      { counters := counters })).2.locations) :
    ComesFrom (.ofChars chars) node node location := by
  simp only [pattern] at member
  by_cases scheme : holdsScheme ((SourceText.ofChars chars).slice node.notated) = true
  · rw [if_pos scheme] at member
    exact absurd member List.not_mem_nil
  · have plain := mt (holdsScheme_iff _).mpr scheme
    rw [if_neg scheme] at member
    cases known : registry.defaultLanguage? with
    | none =>
        simp only [known, literalCall, replace, report_eq, Findings.ofVisit, Findings.ofPass,
          List.nil_append, List.mem_ite_nil_right] at member
        exact comesFrom_pattern wellFormed isLiteral plain (.inl rfl) '"' '"' member.2
    | some language =>
        simp only [known, literalCall, replace, report_eq, Findings.ofVisit, Findings.ofPass,
          List.nil_append, List.mem_ite_nil_right] at member
        exact comesFrom_pattern wellFormed isLiteral plain (holds.isReading known) '[' ']' member.2

/-- Every location that a visit reports comes from a literal. -/
theorem exists_comesFrom_look (wellFormed : node.WellFormed chars) (holds : registry.HoldsNotation)
    {ancestors : List Node} {counters : WidgetCounters}
    (member : location ∈ (look ⟨.ofChars chars, registry, options⟩ ancestors node
      counters).2.locations) :
    ∃ literal, ComesFrom (.ofChars chars) node literal location := by
  simp only [look, visit] at member
  cases selected : Rule.select? registry (Shape.of (.ofChars chars) ancestors.head? node) with
  | none =>
      rw [selected] at member
      exact absurd member List.not_mem_nil
  | some rule =>
      rw [selected] at member
      cases Rule.matches_of_select? selected with
      | subLanguage isCall _ templatePart _ isTemplate known =>
          simp only [apply, known, tagged, literalCall, replace, report_eq, Findings.ofVisit,
            Findings.ofPass, firstQuasi_eq_slice _ isTemplate, List.nil_append,
            List.mem_ite_nil_right] at member
          exact ⟨_, comesFrom_tagged wellFormed isCall templatePart isTemplate
            (holds.isReading known) member.2⟩
      | tidal isCall _ templatePart _ isTemplate =>
          simp only [apply, tagged, literalCall, replace, report_eq, Findings.ofVisit,
            Findings.ofPass, firstQuasi_eq_slice _ isTemplate, List.nil_append,
            List.mem_ite_nil_right] at member
          exact ⟨_, comesFrom_tagged wellFormed isCall templatePart isTemplate (.inr rfl) member.2⟩
      | templatePattern kind =>
          simp only [apply, firstQuasi_eq_slice _ kind] at member
          exact ⟨node, comesFrom_of_mem_pattern wellFormed (.inr kind) holds member⟩
      | stringPattern kind =>
          simp only [apply, insideDelimiters_eq_slice wellFormed kind] at member
          exact ⟨node, comesFrom_of_mem_pattern wellFormed (.inl kind) holds member⟩
      | nativeWidget =>
          simp only [apply, nativeWidget] at member
          split at member <;>
            simp [replace, describe_eq, Findings.ofVisit, Findings.ofPass] at member
      | widgetMethod =>
          simp [apply, widgetMethod, replace, describe_eq, Findings.ofVisit, Findings.ofPass] at member
      | awaitSamples | label =>
          simp [apply, awaitSamples, Pass.label, replace, Findings.ofVisit, Findings.ofPass] at member

/-- Every location of a tree comes from a literal in it. -/
theorem exists_comesFrom {tree : Node} (wellFormed : tree.WellFormed chars)
    (holds : registry.HoldsNotation)
    (member : location ∈ (ofTree ⟨.ofChars chars, registry, options⟩ tree).locations) :
    ∃ node ∈ tree.preorder, ∃ literal, ComesFrom (.ofChars chars) node literal location := by
  rw [ofTree_eq_absorb] at member
  refine holds_explore (fun found => ∀ location ∈ found.locations, ∃ node ∈ tree.preorder,
    ∃ literal, ComesFrom (.ofChars chars) node literal location) ?_ ?_ ?_ [] [] location member
  · simp
  · intro first second inFirst inSecond
    exact List.forall_mem_append.mpr ⟨inFirst, inSecond⟩
  · intro node isNode ancestors counters location found
    exact ⟨node, isNode,
      exists_comesFrom_look (wellFormed.of_mem_preorder node isNode).1 holds found⟩

end Origins

/-! ## Keeping apart -/

section Apart

variable {chars : List Char} {tree node literal target : Node} {location : Span}

/-- The notation of a template literal ends before each substitution. -/
theorem quasiStop_le (wellFormed : node.WellFormed chars) {substitution : Node}
    (isChild : substitution ∈ node.children)
    (isSubstitution : substitution.kind = .templateSubstitution) :
    node.quasiStop ≤ substitution.start := by
  have isValue : substitution ∈ node.values :=
    List.mem_filter.mpr ⟨isChild, by simp [isSubstitution, Kind.isExtra]⟩
  unfold Node.quasiStop
  cases found : node.values.find? fun child => child.kind == .templateSubstitution with
  | none =>
      have other := List.find?_eq_none.mp found substitution isValue
      simp [isSubstitution] at other
  | some first =>
      obtain ⟨_, before, after, values, noneBefore⟩ := List.find?_eq_some_iff_append.mp found
      have ordered : node.values.Pairwise fun left right => left.stop ≤ right.start :=
        wellFormed.placed.ordered.filter _
      have member : first ∈ node.children :=
        Node.mem_children_of_mem_values (List.mem_of_find?_eq_some found)
      have forward := (wellFormed.child member).placed.forward
      rw [values, List.pairwise_append, List.pairwise_cons] at ordered
      rw [values, List.mem_append, List.mem_cons] at isValue
      rcases isValue with inBefore | rfl | inAfter
      · have other := noneBefore substitution inBefore
        simp [isSubstitution] at other
      · exact Nat.le_refl _
      · exact Nat.le_trans forward (ordered.2.1.1 substitution inAfter)

/-- A literal in a substitution starts behind the character that opens the substitution. -/
theorem charOffset_lt_of_substitution (wellFormed : node.WellFormed chars) {substitution : Node}
    (isChild : substitution ∈ node.children)
    (isSubstitution : substitution.kind = .templateSubstitution)
    (delimited : substitution.Delimited chars '$' '}') (isLiteral : target.IsLiteral)
    (member : target ∈ substitution.preorder) :
    (SourceText.ofChars chars).charOffset node.quasiStop <
      (SourceText.ofChars chars).charOffset target.start := by
  have placed := (wellFormed.child isChild).placed
  obtain ⟨_, _, _, opened, _⟩ := delimited.exists_slice_inner placed rfl rfl
  obtain ⟨opens, _⟩ := delimited.slice_ends placed rfl rfl
  have behind := SourceText.charOffset_stop placed.first opened (Nat.le_succ _)
  rw [opens, List.length_singleton] at behind
  have before := SourceText.charOffset_mono (SourceText.ofChars chars)
    (quasiStop_le wellFormed isChild isSubstitution)
  rcases Node.mem_preorder_iff.mp member with rfl | ⟨inner, isInner, inInner⟩
  · rcases isLiteral with kind | kind <;> rw [isSubstitution] at kind <;> cases kind
  · have between := (delimited.between inner isInner).1
    have within := (((wellFormed.child isChild).child isInner).of_mem_preorder target inInner).2.1
    have after : (SourceText.ofChars chars).charOffset (substitution.start + 1) ≤
        (SourceText.ofChars chars).charOffset target.start :=
      SourceText.charOffset_mono _ (Nat.le_trans between within)
    omega

/-- A location keeps apart from every literal but the one it comes from and those around that. -/
theorem ComesFrom.below_or_apart (wellFormed : tree.WellFormed chars)
    (closed : ∀ node ∈ tree.preorder, node.Closed chars)
    (comesFrom : ComesFrom (.ofChars chars) node literal location) (isNode : node ∈ tree.preorder)
    (isTarget : target ∈ tree.preorder) (targetIsLiteral : target.IsLiteral) :
    literal = target ∨ (∃ child ∈ target.children, literal ∈ child.preorder) ∨
      location.Apart ((SourceText.ofChars chars).span target.range) := by
  have isMember : literal ∈ tree.preorder := by
    rcases comesFrom.origin with ⟨rfl, _⟩ | ⟨_, _, templatePart⟩
    · exact isNode
    · exact Node.mem_preorder_trans isNode (Node.mem_preorder_of_child
        (Node.mem_children_of_child? templatePart) (Node.mem_preorder_self literal))
  have literalWellFormed := (wellFormed.of_mem_preorder literal isMember).1
  have enclosed := (enclosed_of_isLiteral literalWellFormed comesFrom.isLiteral).behind
  have starts := comesFrom.starts
  have stops := comesFrom.stops
  rcases Node.nested_or_apart wellFormed literal isMember target isTarget with
    inTarget | inLiteral | before | behind
  · rcases Node.mem_preorder_iff.mp inTarget with same | below
    · exact .inl same
    · exact .inr (.inl below)
  · rcases comesFrom.isLiteral with isString | isTemplate
    · exact .inl ((closed literal isMember).eq_of_mem_string isString targetIsLiteral
        inLiteral).symm
    · rcases Node.mem_preorder_iff.mp inLiteral with same | ⟨child, isChild, inChild⟩
      · exact .inl same.symm
      · obtain ⟨isSubstitution, delimited⟩ := (closed literal isMember).exists_substitution
          isTemplate targetIsLiteral isChild inChild
        have apart := charOffset_lt_of_substitution literalWellFormed isChild isSubstitution
          delimited targetIsLiteral inChild
        have notated : literal.notated.stop = literal.quasiStop := by
          simp [Node.notated, isTemplate]
        rw [notated] at stops
        exact .inr (.inr (.inl (Nat.le_trans stops apart)))
  · have ordered := SourceText.charOffset_mono (SourceText.ofChars chars) before
    exact .inr (.inr (.inl (Nat.le_trans stops (Nat.le_trans enclosed ordered))))
  · have ordered := SourceText.charOffset_mono (SourceText.ofChars chars) behind
    exact .inr (.inr (.inr (Nat.le_trans ordered starts)))

end Apart

/-! ## Whole programs -/

section Programs

variable {chars : List Char} {registry : Registry} {options : Options} {tree literal : Node}
  {location : Span}

theorem apart_of_string (wellFormed : tree.WellFormed chars)
    (closed : ∀ node ∈ tree.preorder, node.Closed chars) (holds : registry.HoldsNotation)
    (member : literal ∈ tree.preorder) (isString : literal.kind = .string)
    (scheme : HasScheme ((SourceText.ofChars chars).slice literal.notated))
    (isLocation : location ∈ (ofTree ⟨.ofChars chars, registry, options⟩ tree).locations) :
    location.Apart ((SourceText.ofChars chars).span literal.range) := by
  obtain ⟨node, isNode, other, comesFrom⟩ := exists_comesFrom wellFormed holds isLocation
  rcases comesFrom.below_or_apart wellFormed closed isNode member (.inl isString) with
    rfl | ⟨child, isChild, inChild⟩ | apart
  · rcases comesFrom.origin with ⟨_, plain⟩ | ⟨isTemplate, _⟩
    · exact absurd scheme plain
    · rw [isString] at isTemplate
      cases isTemplate
  · have inert := (closed literal member).string isString child isChild
    exact absurd inChild (inert.not_mem_preorder comesFrom.isLiteral)
  · exact apart

theorem apart_of_template (wellFormed : tree.WellFormed chars)
    (closed : ∀ node ∈ tree.preorder, node.Closed chars) (holds : registry.HoldsNotation)
    (member : literal ∈ tree.preorder) (isTemplate : literal.kind = .templateString)
    (untagged : ∀ call ∈ tree.preorder, call.kind = .callExpression →
      call.child? .arguments ≠ some literal)
    (scheme : HasScheme ((SourceText.ofChars chars).slice literal.notated))
    (isLocation : location ∈ (ofTree ⟨.ofChars chars, registry, options⟩ tree).locations) :
    location.Apart ((SourceText.ofChars chars).span literal.range) ∨
      ∃ substitution ∈ literal.children, substitution.kind = .templateSubstitution ∧
        (SourceText.ofChars chars).charOffset substitution.start ≤ location.start ∧
        location.stop ≤ (SourceText.ofChars chars).charOffset substitution.stop := by
  obtain ⟨node, isNode, other, comesFrom⟩ := exists_comesFrom wellFormed holds isLocation
  rcases comesFrom.below_or_apart wellFormed closed isNode member (.inr isTemplate) with
    rfl | ⟨child, isChild, inChild⟩ | apart
  · rcases comesFrom.origin with ⟨_, plain⟩ | ⟨_, isCall, tagged⟩
    · exact absurd scheme plain
    · exact absurd tagged (untagged node isNode isCall)
  · right
    have isSubstitution := ((closed literal member).exists_substitution isTemplate
      comesFrom.isLiteral isChild inChild).1
    have literalWellFormed := (wellFormed.of_mem_preorder literal member).1
    obtain ⟨otherWellFormed, within⟩ :=
      (literalWellFormed.child isChild).of_mem_preorder other inChild
    have enclosed := (enclosed_of_isLiteral otherWellFormed comesFrom.isLiteral).behind
    have starts := SourceText.charOffset_mono (SourceText.ofChars chars) within.1
    have stops := SourceText.charOffset_mono (SourceText.ofChars chars) within.2
    refine ⟨child, isChild, isSubstitution, Nat.le_trans starts comesFrom.starts, ?_⟩
    exact Nat.le_trans comesFrom.stops (Nat.le_trans enclosed stops)
  · exact .inl apart

end Programs

/-- The text of a small program: a string with a scheme, one without, and a template literal with a
scheme that has notation in its substitution. -/
def addressText : List Char := "f(\"h://a\",\"b\",`c://d $\x7b\"e\"\x7d`)".toList

/-- The string with a scheme. -/
def addressLiteral : Node :=
  .mk .string none ⟨2, 9⟩ []

/-- The template literal with a scheme. -/
def addressTemplate : Node :=
  .mk .templateString none ⟨14, 28⟩ [
    .mk .templateSubstitution none ⟨21, 27⟩ [.mk .string none ⟨23, 26⟩ []]]

/-- The tree of the program. -/
def addressTree : Node :=
  .mk .program none ⟨0, 29⟩ [.mk .expressionStatement none ⟨0, 29⟩ [
    .mk .callExpression none ⟨0, 29⟩ [.mk .identifier (some .function) ⟨0, 1⟩ [],
      .mk .arguments (some .arguments) ⟨1, 29⟩ [addressLiteral, .mk .string none ⟨10, 13⟩ [],
        addressTemplate]]]]

/-- The literals of a program that have a scheme are no notation. No location overlaps a string with a
scheme, and the string is in the output as it stands unless it is in a substitution of a template
literal that is handed over. No location overlaps the text of a template literal without a tag whose
text before the first substitution has a scheme: each keeps apart from the template literal or lies in
one of its substitutions. -/
theorem schemes_are_no_notation (chars : List Char) (tree : Node) (options : Options)
    (registry : Registry) (wellFormed : tree.WellFormed chars)
    (closed : ∀ node ∈ tree.preorder, node.Closed chars) (isProgram : tree.kind = .program)
    (holds : registry.HoldsNotation) :
    let source := SourceText.ofChars chars
    let context : PassContext := ⟨source, registry, options⟩
    let locations := (ofTree context tree).locations
    (∀ literal ∈ tree.preorder, literal.kind = .string →
      HasScheme (source.slice literal.notated) →
        (∀ location ∈ locations, location.Apart (source.span literal.range)) ∧
        (Spared source tree literal (recorded context tree) →
          ∀ result, transpileTree source tree options registry = .ok result →
            source.slice literal.range <:+: result.output.toList)) ∧
    ∀ template ∈ tree.preorder, template.kind = .templateString →
      (∀ call ∈ tree.preorder, call.kind = .callExpression →
        call.child? .arguments ≠ some template) →
      HasScheme (source.slice template.notated) →
        ∀ location ∈ locations, location.Apart (source.span template.range) ∨
          ∃ substitution ∈ template.children, substitution.kind = .templateSubstitution ∧
            source.charOffset substitution.start ≤ location.start ∧
            location.stop ≤ source.charOffset substitution.stop := by
  intro source context locations
  constructor
  · intro literal member isString scheme
    refine ⟨fun location => apart_of_string wellFormed closed holds member isString scheme, ?_⟩
    intro spared result transpiled
    have literalWellFormed := (wellFormed.of_mem_preorder literal member).1
    have found : holdsScheme (insideDelimiters (source.slice literal.range)) = true := by
      rw [insideDelimiters_eq_slice literalWellFormed isString]
      exact (holdsScheme_iff _).mpr scheme
    exact infix_output wellFormed closed isProgram ⟨isString, literalWellFormed.placed, found⟩ member
      spared transpiled
  · intro template member isTemplate untagged scheme location isLocation
    exact apart_of_template wellFormed closed holds member isTemplate untagged scheme isLocation

/-- Two words sound in the small program, one of them in the substitution, and the string with a
scheme stays. -/
theorem schemes_are_no_notation_mixed :
    addressTree.WellFormed addressText ∧
      (∀ node ∈ addressTree.preorder, node.Closed addressText) ∧
      (ofTree ⟨.ofChars addressText, {}, {}⟩ addressTree).locations = [⟨11, 12⟩, ⟨24, 25⟩] ∧
      (transpileTree (.ofChars addressText) addressTree {} {}).toOption.map Transpiled.output =
        some "return f(\"h://a\",m(\"b\", 10),`c://d $\x7bm(\"e\", 23)\x7d`)" ∧
      (∀ location ∈ (ofTree ⟨.ofChars addressText, {}, {}⟩ addressTree).locations,
        location.Apart ⟨2, 9⟩) ∧
      (∀ result, transpileTree (.ofChars addressText) addressTree {} {} = .ok result →
        "\"h://a\"".toList <:+: result.output.toList) ∧
      ∀ location ∈ (ofTree ⟨.ofChars addressText, {}, {}⟩ addressTree).locations,
        location.Apart ⟨14, 28⟩ ∨
          ∃ substitution ∈ addressTemplate.children, substitution.kind = .templateSubstitution ∧
            (SourceText.ofChars addressText).charOffset substitution.start ≤ location.start ∧
            location.stop ≤ (SourceText.ofChars addressText).charOffset substitution.stop := by
  have wellFormed : addressTree.WellFormed addressText := by decide +kernel
  have closed : ∀ node ∈ addressTree.preorder, node.Closed addressText := by decide +kernel
  have inTree : addressLiteral ∈ addressTree.preorder ∧ addressTemplate ∈ addressTree.preorder := by
    simp [addressTree, Node.preorder, Node.preorderAll, Node.mem_preorder_self]
  have spared : ∀ edits, Spared (.ofChars addressText) addressTree addressLiteral edits := by
    intro edits template member isTemplate _ substitution isChild _ inside
    have elsewhere : ∀ template ∈ addressTree.preorder, template.kind = .templateString →
        ∀ substitution ∈ template.children, ∀ inner ∈ substitution.preorder,
          inner.range ≠ addressLiteral.range := by decide +kernel
    exact elsewhere template member isTemplate substitution isChild addressLiteral inside rfl
  have untagged : ∀ call ∈ addressTree.preorder, call.kind = .callExpression →
      call.child? .arguments ≠ some addressTemplate := by
    intro call member isCall tagged
    have elsewhere : ∀ call ∈ addressTree.preorder, call.kind = .callExpression →
        (call.child? .arguments).map Node.range ≠ some addressTemplate.range := by decide +kernel
    exact elsewhere call member isCall (by rw [tagged]; rfl)
  obtain ⟨strings, templates⟩ := schemes_are_no_notation addressText addressTree {} {} wellFormed
    closed rfl fun _ known => absurd known List.not_mem_nil
  obtain ⟨apart, held⟩ := strings addressLiteral inTree.1 rfl
    ((holdsScheme_iff _).mp (by decide +kernel))
  exact ⟨wellFormed, closed, by decide +kernel, by decide +kernel, apart, held (spared _),
    templates addressTemplate inTree.2 rfl untagged ((holdsScheme_iff _).mp (by decide +kernel))⟩

end Pass

end PatternScript
