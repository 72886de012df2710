import PatternScript.Edits
import PatternScript.Proofs.Script.Strings

/-!
Contract: literals that are written into a program denote the text they were made of.

A literal in double quotes escapes everything that could end it or its line, in the ways that a program
reads back; so it denotes its text, whatever that is. A literal in single quotes escapes the quote and
the backslash alone, and is a literal only if its text has no line end.

Owns: what it is to spell a text, and when the two kinds of literals do.
Does not own: which texts are written.
-/

namespace PatternScript

namespace Script

/-- The characters of a text that no backslash escapes. -/
def unescaped : List Char → List Char
  | '\\' :: _ :: rest => unescaped rest
  | c :: rest => c :: unescaped rest
  | [] => []

/-- A text without line feeds and carriage returns. -/
def OneLine (text : List Char) : Prop :=
  '\n' ∉ text ∧ '\r' ∉ text

instance (text : List Char) : Decidable (OneLine text) :=
  inferInstanceAs (Decidable (_ ∧ _))

theorem oneLine_cons {c : Char} {rest : List Char} :
    OneLine (c :: rest) ↔ ¬ (c = '\n' ∨ c = '\r') ∧ OneLine rest := by
  simp only [OneLine, List.mem_cons, not_or, @eq_comm _ c]
  exact and_and_and_comm

theorem oneLine_append {text more : List Char} :
    OneLine (text ++ more) ↔ OneLine text ∧ OneLine more := by
  simp only [OneLine, List.mem_append, not_or]
  exact and_and_and_comm

/-- A text is one whole literal in the given quotes, and denotes a value. -/
structure Spells (quote : Char) (value text : List Char) : Prop where
  /-- Nothing between the quotes ends the literal or the line. -/
  whole : ∃ inside, text = quote :: (inside ++ [quote]) ∧ quote ∉ unescaped inside ∧ OneLine inside
  /-- Whatever stands behind it, the literal is read up to its end. -/
  denotes : ∀ behind, readLiteral? (text ++ behind) = some (unitsOf value, behind)

/-- Two values that are spelled alike are the same. -/
theorem Spells.unique {quote quote' : Char} {value value' text : List Char}
    (spells : Spells quote value text) (spells' : Spells quote' value' text) : value = value' := by
  have read := spells.denotes []
  rw [spells'.denotes [], Option.some.injEq, Prod.mk.injEq] at read
  exact (unitsOf_inj read.1).symm

end Script

namespace Text

open Script

/-! ## Texts that are escaped character by character -/

section Escaping

variable {quote : Char} {escape : Char → List Char} {text : List Char}

/-- If each character is read back, the text is. -/
theorem readInside?_flatMap
    (reads : ∀ c ∈ text, ∀ more, readInside? quote (escape c ++ more) =
      (readInside? quote more).map (prepend (unitsOfCode c.toNat))) (behind : List Char) :
    readInside? quote (text.flatMap escape ++ quote :: behind) = some (unitsOf text, behind) := by
  induction text with
  | nil => exact readInside?_quote
  | cons c rest inductionHypothesis =>
      obtain ⟨readsFirst, readsRest⟩ := List.forall_mem_cons.mp reads
      rw [List.flatMap_cons, List.append_assoc, readsFirst, inductionHypothesis readsRest]
      rfl

/-- If no character brings in a quote that is not escaped, the text has none. -/
theorem not_mem_unescaped_flatMap
    (passes : ∀ c more, quote ∈ unescaped (escape c ++ more) → quote ∈ unescaped more) :
    quote ∉ unescaped (text.flatMap escape) := by
  induction text with
  | nil => simp [unescaped]
  | cons c rest inductionHypothesis =>
      rw [List.flatMap_cons]
      exact mt (passes c _) inductionHypothesis

end Escaping

theorem unescaped_cons {c : Char} (plain : c ≠ '\\') (rest : List Char) :
    unescaped (c :: rest) = c :: unescaped rest := by
  rw [unescaped]
  rintro _ _ rfl
  exact absurd rfl plain

/-! ## Double quotes -/

theorem hexValue?_hexDigit (value : Nat) : Json.hexValue? (hexDigit value) = some (value % 16) := by
  have small : ∀ digit < 16, Json.hexValue? (Nat.digitChar digit) = some digit := by decide
  exact small _ (Nat.mod_lt _ (by decide))

/-- A control character is read back from its code. -/
theorem readEscape?_code {code : Nat} (small : code < 0x20) (more : List Char) :
    readEscape? ('u' :: '0' :: '0' :: hexDigit (code / 16) :: hexDigit code :: more) =
      some (unitsOfCode code, more) := by
  have sum : 16 * (code / 16 % 16) + code % 16 = code := by omega
  have single : unitsOfCode code = [.ofNat code] := if_pos (by omega)
  have zero : Json.hexValue? '0' = some 0 := rfl
  rw [readEscape?, readFour?, Json.readUnit]
  · simp [zero, hexValue?_hexDigit, single, sum]
  · simp

/-- What stands for a character in double quotes. -/
inductive EscapedDouble (c : Char) : List Char → Prop where
  /-- A backslash and a character that stands for this one. -/
  | mark {d : Char} (visible : 0x20 ≤ d.toNat)
      (stands : ∀ more, readEscape? (d :: more) = some (unitsOfCode c.toNat, more)) :
      EscapedDouble c ['\\', d]
  /-- The code of a control character. -/
  | code (control : c.toNat < 0x20) :
      EscapedDouble c ['\\', 'u', '0', '0', hexDigit (c.toNat / 16), hexDigit c.toNat]
  /-- The character itself. -/
  | itself (visible : 0x20 ≤ c.toNat) (notQuote : c ≠ '"') (plain : c ≠ '\\') : EscapedDouble c [c]

theorem escapedDouble (c : Char) : EscapedDouble c (escapeDouble c) := by
  unfold escapeDouble
  -- Seven characters have marks of their own.
  iterate 7
    split
    · subst c
      exact .mark (by decide) fun _ => rfl
  split
  case isTrue control => exact .code control
  case isFalse visible => exact .itself (Nat.not_lt.mp visible) ‹_› ‹_›

theorem hexDigit_plain (value : Nat) :
    0x20 ≤ (hexDigit value).toNat ∧ hexDigit value ≠ '"' ∧ hexDigit value ≠ '\\' := by
  have small : ∀ digit < 16, 0x20 ≤ (Nat.digitChar digit).toNat ∧ Nat.digitChar digit ≠ '"' ∧
      Nat.digitChar digit ≠ '\\' := by decide
  exact small _ (Nat.mod_lt _ (by decide))

namespace EscapedDouble

variable {c : Char} {text : List Char}

theorem readInside? (escaped : EscapedDouble c text) (more : List Char) :
    Script.readInside? '"' (text ++ more) =
      (Script.readInside? '"' more).map (prepend (unitsOfCode c.toNat)) := by
  cases escaped with
  | mark _ stands => exact readInside?_escape (by decide) (stands more)
  | code control => exact readInside?_escape (by decide) (readEscape?_code control more)
  | itself visible notQuote plain =>
      refine readInside?_plain notQuote plain ?_
      rintro (rfl | rfl) <;> exact absurd visible (by decide)

theorem visible (escaped : EscapedDouble c text) : ∀ d ∈ text, 0x20 ≤ d.toNat := by
  cases escaped with
  | mark visible _ => simpa using visible
  | code _ =>
      simp only [List.forall_mem_cons]
      exact ⟨by decide, by decide, by decide, by decide, (hexDigit_plain _).1, (hexDigit_plain _).1,
        by simp⟩
  | itself visible _ _ => simpa using visible

theorem mem_unescaped (escaped : EscapedDouble c text) {more : List Char}
    (member : '"' ∈ unescaped (text ++ more)) : '"' ∈ unescaped more := by
  cases escaped with
  | mark _ _ => exact member
  | code _ =>
      obtain ⟨-, notQuote, plain⟩ := hexDigit_plain (c.toNat / 16)
      obtain ⟨-, notQuote', plain'⟩ := hexDigit_plain c.toNat
      simpa [unescaped, unescaped_cons plain, unescaped_cons plain', Ne.symm notQuote,
        Ne.symm notQuote'] using member
  | itself _ notQuote plain =>
      rw [List.singleton_append, unescaped_cons plain] at member
      exact (List.mem_cons.mp member).resolve_left (Ne.symm notQuote)

end EscapedDouble

theorem visible_quoteDouble (text : List Char) : ∀ c ∈ quoteDouble text, 0x20 ≤ c.toNat := by
  have inside : ∀ c ∈ text.flatMap escapeDouble, 0x20 ≤ c.toNat := by
    intro c member
    obtain ⟨d, -, inEscaped⟩ := List.mem_flatMap.mp member
    exact (escapedDouble d).visible c inEscaped
  intro c member
  rw [quoteDouble, List.cons_append, List.mem_cons, List.mem_append, List.mem_singleton] at member
  rcases member with rfl | inInside | rfl
  · decide
  · exact inside c inInside
  · decide

/-- A literal in double quotes spells its text. -/
theorem spells_quoteDouble (text : List Char) : Spells '"' text (quoteDouble text) := by
  have notInside : ∀ {c : Char}, c.toNat < 0x20 → c ∉ text.flatMap escapeDouble := by
    intro c control member
    refine absurd (visible_quoteDouble text c ?_) (Nat.not_le.mpr control)
    simp [quoteDouble, member]
  refine ⟨⟨text.flatMap escapeDouble, rfl, ?_, notInside (by decide), notInside (by decide)⟩, ?_⟩
  · exact not_mem_unescaped_flatMap fun c _ => (escapedDouble c).mem_unescaped
  · intro behind
    have read := readInside?_flatMap (fun c _ => (escapedDouble c).readInside? : ∀ c ∈ text, _) behind
    simpa [quoteDouble, readLiteral?] using read

/-! ## Single quotes -/

theorem readInside?_escapeSingle {c : Char} (inLine : ¬ (c = '\n' ∨ c = '\r')) (more : List Char) :
    readInside? '\'' (escapeSingle c ++ more) =
      (readInside? '\'' more).map (prepend (unitsOfCode c.toNat)) := by
  unfold escapeSingle
  split
  case isTrue escaped =>
      refine readInside?_escape (by decide) ?_
      rcases escaped with rfl | rfl <;> rfl
  case isFalse plain =>
      rw [not_or] at plain
      exact readInside?_plain plain.1 plain.2 inLine

/-- A line end inside single quotes cuts the literal off. -/
theorem readInside?_lineEnds {text : List Char} (lineEnds : ¬ OneLine text) (more : List Char) :
    readInside? '\'' (text.flatMap escapeSingle ++ more) = none := by
  induction text with
  | nil => exact absurd (by decide) lineEnds
  | cons c rest inductionHypothesis =>
      rw [List.flatMap_cons, List.append_assoc]
      by_cases here : c = '\n' ∨ c = '\r'
      · have itself : escapeSingle c = [c] := by
          rcases here with rfl | rfl <;> rfl
        have notQuote : c ≠ '\'' := by
          rcases here with rfl | rfl <;> decide
        rw [itself]
        exact readInside?_lineEnd notQuote here
      · have later : ¬ OneLine rest := fun inLine => lineEnds (oneLine_cons.mpr ⟨here, inLine⟩)
        rw [readInside?_escapeSingle here, inductionHypothesis later]
        rfl

theorem readLiteral?_quoteSingle (text behind : List Char) :
    readLiteral? (quoteSingle text ++ behind) =
      if OneLine text then some (unitsOf text, behind) else none := by
  have opened : readLiteral? (quoteSingle text ++ behind) =
      readInside? '\'' (text.flatMap escapeSingle ++ '\'' :: behind) := by
    simp [quoteSingle, readLiteral?]
  rw [opened]
  split
  case isTrue inLine =>
      refine readInside?_flatMap (fun c member => readInside?_escapeSingle ?_) behind
      rintro (rfl | rfl)
      · exact inLine.1 member
      · exact inLine.2 member
  case isFalse lineEnds => exact readInside?_lineEnds lineEnds _

theorem mem_unescaped_of_escapeSingle {c : Char} {more : List Char}
    (member : '\'' ∈ unescaped (escapeSingle c ++ more)) : '\'' ∈ unescaped more := by
  unfold escapeSingle at member
  split at member
  case isTrue => exact member
  case isFalse plain =>
      rw [not_or] at plain
      rw [List.singleton_append, unescaped_cons plain.2] at member
      exact (List.mem_cons.mp member).resolve_left (Ne.symm plain.1)

theorem oneLine_escapeSingle {text : List Char} (inLine : OneLine text) :
    OneLine (text.flatMap escapeSingle) := by
  induction text with
  | nil => exact inLine
  | cons c rest inductionHypothesis =>
      obtain ⟨here, later⟩ := oneLine_cons.mp inLine
      rw [List.flatMap_cons, oneLine_append]
      refine ⟨?_, inductionHypothesis later⟩
      have itself : OneLine [c] := oneLine_cons.mpr ⟨here, by decide⟩
      unfold escapeSingle
      split
      · exact oneLine_cons.mpr ⟨by decide, itself⟩
      · exact itself

/-- A literal in single quotes spells its text if the text is one line. -/
theorem spells_quoteSingle {text : List Char} (inLine : OneLine text) :
    Spells '\'' text (quoteSingle text) := by
  refine ⟨⟨text.flatMap escapeSingle, rfl, ?_, oneLine_escapeSingle inLine⟩, ?_⟩
  · exact not_mem_unescaped_flatMap fun _ _ => mem_unescaped_of_escapeSingle
  · intro behind
    rw [readLiteral?_quoteSingle, if_pos inLine]

end Text

/-! ## Written literals -/

namespace Edits

open Script

/-- Every text can be written in double quotes, as a literal that holds no control character (none
below the space), no line end and no quote without a backslash, and that denotes the text wherever it
stands. So different texts are written as different literals. -/
theorem quoted_spells_value (write : RangeWriter) (owner : EditKey) :
    (∀ value : String, ∃ text, writeEmission write owner (.quoted value) = .ok text ∧
      (∀ c ∈ text, 0x20 ≤ c.toNat) ∧ Spells '"' value.toList text) ∧
    Function.Injective fun value : String => writeEmission write owner (.quoted value) := by
  refine ⟨fun value => ⟨_, rfl, Text.visible_quoteDouble _, Text.spells_quoteDouble _⟩, ?_⟩
  intro value value' same
  have written : Text.quoteDouble value.toList = Text.quoteDouble value'.toList :=
    Except.ok.inj same
  have spells := Text.spells_quoteDouble value.toList
  rw [written] at spells
  exact String.toList_injective (spells.unique (Text.spells_quoteDouble value'.toList))

end Edits

end PatternScript
