import PatternScript.Proofs.Notation.Enclosing
import PatternScript.Proofs.Registry.Bindings
import PatternScript.Proofs.Script.Programs
import PatternScript.Proofs.Transpile.Agreement
import PatternScript.Proofs.Transpile.Selection
import PatternScript.Transpile

/-!
Contract: what a program sees of a registry.

A program asks a registry for the languages of its tags, for the methods it calls, and for the
language of its literals without a tag. Registries that give the same answers to these questions
make no difference. So an entry that a program does not ask for is inert, and the notation as the
language of literals without a tag is what they have anyway.

Owns: the tags and the called members of a program, registries that agree about a program, and
registrations.
Does not own: what the entries of a registry are used for.
-/

namespace PatternScript

open Script

/-! ## What a program asks for -/

namespace Script.Node

/-- The tag of a template literal that has a name as its tag. -/
def tag? (source : SourceText) (node : Node) : Option String :=
  match node.child? .function, node.child? .arguments with
  | some function, some arguments =>
      if node.kind = .callExpression ∧ function.kind = .identifier ∧
          arguments.kind = .templateString then
        some (source.text function.range)
      else none
  | _, _ => none

/-- The name of the member that is called. -/
def calledMember? (source : SourceText) (node : Node) : Option String :=
  match node.child? .function, node.child? .arguments with
  | some function, some arguments =>
      if node.kind = .callExpression ∧ function.kind = .memberExpression ∧
          arguments.kind ≠ .templateString then
        (function.child? .property).map fun property => source.text property.range
      else none
  | _, _ => none

/-- The tags in a program. -/
def tags (source : SourceText) (program : Node) : List String :=
  program.preorder.filterMap (tag? source)

/-- The members that a program calls. -/
def calledMembers (source : SourceText) (program : Node) : List String :=
  program.preorder.filterMap (calledMember? source)

end Script.Node

/-! ## Registries that agree -/

namespace Registry

/-- The function that literals without a tag are handed to. -/
def patternCallee (registry : Registry) : String :=
  (registry.defaultLanguage?.bind Language.callName).getD Language.patternCall

/-- The spans to highlight in a literal without a tag. -/
def patternSpans (registry : Registry) (value : List Char) (offset : Nat) : List Span :=
  match registry.defaultLanguage? with
  | some language => language.locate ('[' :: value ++ [']']) offset
  | none => Notation.leafSpans ('"' :: value ++ ['"']) offset

/-- Two registries give the same answers to all that a program asks for. -/
structure AgreeOn (source : SourceText) (program : Node) (left right : Registry) : Prop where
  callee : left.patternCallee = right.patternCallee
  spans : ∀ value offset, left.patternSpans value offset = right.patternSpans value offset
  languages : ∀ tag ∈ program.tags source, left.language? tag = right.language? tag
  methods : ∀ name ∈ program.calledMembers source, left.isMethod name = right.isMethod name

/-- Registries with the same language for literals without a tag hand them on alike. -/
theorem AgreeOn.of_default {source : SourceText} {program : Node} {left right : Registry}
    (sameDefault : left.defaultLanguage? = right.defaultLanguage?)
    (languages : ∀ tag ∈ program.tags source, left.language? tag = right.language? tag)
    (methods : ∀ name ∈ program.calledMembers source, left.isMethod name = right.isMethod name) :
    AgreeOn source program left right where
  callee := by rw [patternCallee, sameDefault, patternCallee]
  spans value offset := by rw [patternSpans, sameDefault, patternSpans]
  languages := languages
  methods := methods

theorem AgreeOn.trans {source : SourceText} {program : Node} {first second third : Registry}
    (agree : AgreeOn source program first second) (agree' : AgreeOn source program second third) :
    AgreeOn source program first third where
  callee := agree.callee.trans agree'.callee
  spans value offset := (agree.spans value offset).trans (agree'.spans value offset)
  languages tag used := (agree.languages tag used).trans (agree'.languages tag used)
  methods name called := (agree.methods name called).trans (agree'.methods name called)

section Asking

variable {source : SourceText} {program node : Node} {left right : Registry}

theorem AgreeOn.language (agree : AgreeOn source program left right)
    (inProgram : node ∈ program.preorder) {tag : String} (isTag : node.tag? source = some tag) :
    left.language? tag = right.language? tag :=
  agree.languages tag (List.mem_filterMap.mpr ⟨node, inProgram, isTag⟩)

theorem AgreeOn.method (agree : AgreeOn source program left right)
    (inProgram : node ∈ program.preorder) {name : String}
    (called : node.calledMember? source = some name) : left.isMethod name = right.isMethod name :=
  agree.methods name (List.mem_filterMap.mpr ⟨node, inProgram, called⟩)

end Asking

end Registry

namespace Pass

theorem pattern_eq (context : PassContext) (node : Node) (value : List Char) (literal : Emission)
    (pass : Pass) :
    pass.pattern context node value literal =
      if holdsScheme value then (.descend, pass)
      else
        let start := context.source.charOffset node.start
        (.skip, (pass.report context (context.registry.patternSpans value start)).literalCall node
          context.registry.patternCallee literal start) := by
  unfold pattern Registry.patternSpans Registry.patternCallee
  cases context.registry.defaultLanguage? <;> rfl

section Agreement

variable {source : SourceText} {program node : Node} {left right : Registry}

/-- Only the shapes of calls have rules that ask the registry. -/
theorem select?_of_agreeOn (agree : Registry.AgreeOn source program left right)
    (inProgram : node ∈ program.preorder) (parent : Option Node) :
    Rule.select? left (Shape.of source parent node) =
      Rule.select? right (Shape.of source parent node) := by
  unfold Shape.of
  split
  case _ isCall =>
      unfold Shape.ofCall
      split
      case _ function arguments functionPart argumentsPart =>
          by_cases isTemplate : arguments.kind = .templateString
          · rw [if_pos isTemplate]
            by_cases isName : function.kind = .identifier
            · have isTag : node.tag? source = some (source.text function.range) := by
                simp [Node.tag?, functionPart, argumentsPart, isCall, isName, isTemplate]
              simp only [if_pos isName, Rule.select?, Rule.ofTag?, agree.language inProgram isTag]
            · simp only [if_neg isName, Rule.select?]
          · rw [if_neg isTemplate]
            unfold Shape.calleeOf
            split
            case _ => rfl
            case _ isMember =>
                split
                case _ property propertyPart =>
                    have called : node.calledMember? source = some (source.text property.range) := by
                      simp [Node.calledMember?, functionPart, argumentsPart, isCall, isMember,
                        isTemplate, propertyPart]
                    simp only [Rule.select?, agree.method inProgram called]
                case _ => rfl
            case _ => rfl
      case _ => rfl
  case _ => rfl
  case _ => split <;> rfl
  case _ =>
      unfold Shape.ofLabeled
      split
      case _ label body _ _ =>
          simp only
          cases (if body.kind = .expressionStatement then body.values.head? else none) <;> rfl
      case _ => rfl
  case _ => rfl

theorem agreeAt_of_agreeOn (agree : Registry.AgreeOn source program left right) (options : Options)
    (inProgram : node ∈ program.preorder) :
    AgreeAt Eq ⟨source, left, options⟩ ⟨source, right, options⟩ node := by
  intro ancestors counters
  rw [← Prod.ext_iff]
  unfold look visit
  simp only
  rw [select?_of_agreeOn agree inProgram]
  cases selected : Rule.select? right (Shape.of source ancestors.head? node) with
  | none => rfl
  | some rule =>
      cases rule with
      | subLanguage tag template =>
          -- The rule asks the registry again for the language it was selected for.
          have isTag : node.tag? source = some tag := by
            cases Rule.matches_of_select? selected with
            | subLanguage kind functionPart templatePart isName isTemplate _ =>
                simp [Node.tag?, functionPart, templatePart, kind, isName, isTemplate]
          simp only [apply, agree.language inProgram isTag]
          rfl
      | templatePattern =>
          simp only [apply, pattern_eq, agree.callee, agree.spans]
          rfl
      | stringPattern =>
          simp only [apply, pattern_eq, agree.callee, agree.spans]
          rfl
      | _ => rfl

/-- Registries that agree about a program lead to the same result. -/
theorem transpile_of_agreeOn {text : String} (options : Options)
    (agree : ∀ program, readProgram (.ofString text) = .ok program →
      Registry.AgreeOn (.ofString text) program left right) :
    transpile text options left = transpile text options right := by
  cases read : readProgram (.ofString text) with
  | error error => rw [transpile_of_unreadable read, transpile_of_unreadable read]
  | ok program =>
      have found := related_explore Findings.composes_eq program
        (fun node inProgram => agreeAt_of_agreeOn (agree program read) options inProgram) [] []
      rw [transpile_of_readProgram read, transpile_of_readProgram read, transpileTree, transpileTree,
        ofTree_eq_absorb, ofTree_eq_absorb, found]

end Agreement

end Pass

/-! ## Registrations -/

/-- An entry to be registered. -/
inductive Registration where
  | language (tag : String) (language : Language)
  | method (name : String)

namespace Registration

/-- A program does not ask for the entry. -/
def Unused (source : SourceText) (program : Node) : Registration → Prop
  | .language tag _ => tag ≠ Language.defaultTag ∧ tag ∉ program.tags source
  | .method name => name ∉ program.calledMembers source

end Registration

namespace Registry

variable {source : SourceText} {program : Node}

/-- Registers an entry. -/
def register (registry : Registry) : Registration → Registry
  | .language tag language => registry.addLanguage tag language
  | .method name => (registry.addMethod name).1

theorem language?_addLanguage (registry : Registry) (tag : String) (language : Language)
    (other : String) :
    (registry.addLanguage tag language).language? other =
      if other = tag then some language else registry.language? other :=
  lookup_bind tag language registry.languages other

theorem isMethod_addMethod_of_ne (registry : Registry) {name other : String} (differ : other ≠ name) :
    (registry.addMethod name).1.isMethod other = registry.isMethod other := by
  unfold addMethod
  split
  · rfl
  · simp [isMethod, differ]

theorem language?_addMethod (registry : Registry) (name tag : String) :
    (registry.addMethod name).1.language? tag = registry.language? tag := by
  unfold addMethod
  split <;> rfl

theorem agreeOn_register (registry : Registry) {entry : Registration}
    (unused : entry.Unused source program) :
    AgreeOn source program (registry.register entry) registry := by
  cases entry with
  | language tag language =>
      obtain ⟨notDefault, notTag⟩ := unused
      have others : ∀ other, other ≠ tag →
          (registry.addLanguage tag language).language? other = registry.language? other := by
        intro other differ
        rw [language?_addLanguage, if_neg differ]
      apply AgreeOn.of_default (others _ (Ne.symm notDefault))
      · exact fun other used => others other fun same => notTag (same ▸ used)
      · exact fun _ _ => rfl
  | method name =>
      apply AgreeOn.of_default (language?_addMethod registry name _)
      · exact fun tag _ => language?_addMethod registry name tag
      · exact fun other called => isMethod_addMethod_of_ne registry fun same => unused (same ▸ called)

theorem agreeOn_registerAll {entries : List Registration} (registry : Registry)
    (unused : ∀ entry ∈ entries, entry.Unused source program) :
    AgreeOn source program (entries.foldl register registry) registry := by
  induction entries generalizing registry with
  | nil => exact .of_default rfl (fun _ _ => rfl) (fun _ _ => rfl)
  | cons entry rest inductionHypothesis =>
      rw [List.forall_mem_cons] at unused
      exact (inductionHypothesis (registry.register entry) unused.2).trans
        (agreeOn_register registry unused.1)

/-- The notation gives literals without a tag what they have without a language. -/
theorem agreeOn_notationWhole {registry : Registry} (unbound : registry.defaultLanguage? = none)
    (notTag : Language.defaultTag ∉ program.tags source) :
    AgreeOn source program (registry.addLanguage Language.defaultTag (.notationWhole none))
      registry := by
  have bound : (registry.addLanguage Language.defaultTag (.notationWhole none)).defaultLanguage? =
      some (.notationWhole none) := by
    rw [defaultLanguage?, language?_addLanguage, if_pos rfl]
  refine ⟨?_, ?_, ?_, fun _ _ => rfl⟩
  · rw [patternCallee, bound, patternCallee, unbound]
    rfl
  · intro value offset
    rw [patternSpans, bound, patternSpans, unbound]
    exact Notation.leafSpans_bracketed value offset
  · intro other used
    have differ : other ≠ Language.defaultTag := fun same => notTag (same ▸ used)
    rw [language?_addLanguage, if_neg differ]

end Registry

namespace Pass

/-- Entries that a program does not ask for are inert: however many are registered, in any order, the
program has the same result or the same error. -/
theorem transpile_register_unused (text : String) (options : Options) (registry : Registry)
    (entries : List Registration)
    (unused : ∀ program, readProgram (.ofString text) = .ok program →
      ∀ entry ∈ entries, entry.Unused (.ofString text) program) :
    transpile text options (entries.foldl Registry.register registry) =
      transpile text options registry :=
  transpile_of_agreeOn options fun program read =>
    Registry.agreeOn_registerAll registry (unused program read)

/-- A program with a tag and a called member, and a registry to which another tag, another method and
a language for the name of the method are added. -/
theorem transpile_register_unused_chained :
    (∃ program, readProgram (.ofString "s.w(x`a`)") = .ok program ∧
      program.tags (.ofString "s.w(x`a`)") = ["x"] ∧
      program.calledMembers (.ofString "s.w(x`a`)") = ["w"]) ∧
    transpile "s.w(x`a`)" {}
        ([.language "w" (.notationWhole none), .method "x", .language "tidal" (.notationWhole none)].foldl
          Registry.register { methods := ["w"] }) =
      transpile "s.w(x`a`)" {} { methods := ["w"] } := by
  obtain ⟨program, read, asked⟩ := @readProgram_of_leading "s.w(x`a`)".toList
    (fun program => program.tags (.ofString "s.w(x`a`)") == ["x"] &&
      program.calledMembers (.ofString "s.w(x`a`)") == ["w"]) (by decide +kernel)
  rw [Bool.and_eq_true, beq_iff_eq, beq_iff_eq] at asked
  refine ⟨⟨program, read, asked⟩, transpile_register_unused "s.w(x`a`)" {} { methods := ["w"] } _ ?_⟩
  intro other read'
  obtain rfl := Except.ok.inj (read.symm.trans read')
  simp [Registration.Unused, asked, Language.defaultTag]

/-- The notation as the language of literals without a tag makes no difference to a program that has
no such tag: where nothing is registered for them the same spans are highlighted, as brackets and
double quotes around a literal enclose the same leaves. -/
theorem transpile_addLanguage_notationWhole (text : String) (options : Options) (registry : Registry)
    (unbound : registry.language? Language.defaultTag = none)
    (notTag : ∀ program, readProgram (.ofString text) = .ok program →
      Language.defaultTag ∉ program.tags (.ofString text)) :
    transpile text options (registry.addLanguage Language.defaultTag (.notationWhole none)) =
        transpile text options registry ∧
      ∀ (value : List Char) (offset : Nat),
        Notation.leafSpans ('[' :: value ++ [']']) offset =
          Notation.leafSpans ('"' :: value ++ ['"']) offset :=
  ⟨transpile_of_agreeOn options fun program read => Registry.agreeOn_notationWhole unbound
    (notTag program read), Notation.leafSpans_bracketed⟩

/-- A program with a literal and another tag, and a value that ends in a backslash. -/
theorem transpile_addLanguage_notationWhole_literal :
    (∃ program, readProgram (.ofString "s(\"a b\", x`c`)") = .ok program ∧
      program.tags (.ofString "s(\"a b\", x`c`)") = ["x"]) ∧
    transpile "s(\"a b\", x`c`)" {}
        (Registry.empty.addLanguage Language.defaultTag (.notationWhole none)) =
      transpile "s(\"a b\", x`c`)" {} .empty ∧
    Notation.leafSpans ['[', 'a', '\\', ']'] 2 = Notation.leafSpans ['"', 'a', '\\', '"'] 2 := by
  obtain ⟨program, read, asked⟩ := @readProgram_of_leading "s(\"a b\", x`c`)".toList
    (fun program => program.tags (.ofString "s(\"a b\", x`c`)") == ["x"]) (by decide +kernel)
  rw [beq_iff_eq] at asked
  obtain ⟨same, enclosed⟩ := transpile_addLanguage_notationWhole "s(\"a b\", x`c`)" {} .empty rfl (by
    intro other read'
    obtain rfl := Except.ok.inj (read.symm.trans read')
    simp [asked, Language.defaultTag])
  exact ⟨⟨program, read, asked⟩, same, enclosed ['a', '\\'] 2⟩

end Pass

end PatternScript
