import PatternScript.Proofs.Script.Readers
import PatternScript.Widget.Native

/-!
Contract: which texts of a program are read as numbers.

Blanks and underscores are dropped before a text is read. What is left of a decimal literal is a
decimal, so every such literal is read, with a sign and blanks before it; a literal in another base is
not. Dropping underscores also turns some names into numbers: a name is read just if what is left of
it is the name of a number that is not finite, or a decimal.

Owns: the literals and names of a program as grammars, the numbers read from them, and the bounds of a
slider that are given by a name.
Does not own: rounding.
-/

namespace PatternScript

namespace Script

/-! ## Literals and names -/

/-- Digits with single underscores between them, and the digits alone. -/
inductive Separated (accepts : Char → Bool) : (text digits : List Char) → Prop where
  | last {c : Char} (isDigit : accepts c = true) : Separated accepts [c] [c]
  | next {c : Char} {text digits : List Char} (isDigit : accepts c = true)
      (rest : Separated accepts text digits) : Separated accepts (c :: text) (c :: digits)
  | apart {c : Char} {text digits : List Char} (isDigit : accepts c = true)
      (rest : Separated accepts text digits) : Separated accepts (c :: '_' :: text) (c :: digits)

/-- A sign that may stand before a number. -/
inductive Sign where
  | absent
  | plus
  | minus
deriving DecidableEq, Repr

namespace Sign

/-- The text of a sign. -/
def text : Sign → List Char
  | .absent => []
  | .plus => ['+']
  | .minus => ['-']

/-- The sign makes a number negative. -/
def isMinus : Sign → Bool
  | .minus => true
  | _ => false

/-- A natural number with the sign. -/
def apply (sign : Sign) (value : Nat) : Int :=
  if sign.isMinus then -(value : Int) else value

end Sign

/-- The exponent of a decimal literal, which may be absent. -/
inductive Exponent : (text : List Char) → (value : Int) → Prop where
  | absent : Exponent [] 0
  | given {mark : Char} {sign : Sign} {text digits : List Char} (isMark : mark = 'e' ∨ mark = 'E')
      (separated : Separated Char.isDigit text digits) :
      Exponent (mark :: (sign.text ++ text)) (sign.apply (Binary64.digitsValue digits))

/-- A decimal literal for `digits * 10 ^ exponent`. Zeros may lead. -/
inductive Decimal : (text digits : List Char) → (exponent : Int) → Prop where
  | whole {text digits mark : List Char} {exponent : Int}
      (separated : Separated Char.isDigit text digits) (scaled : Exponent mark exponent) :
      Decimal (text ++ mark) digits exponent
  | pointed {text digits mark : List Char} {exponent : Int}
      (separated : Separated Char.isDigit text digits) (scaled : Exponent mark exponent) :
      Decimal (text ++ '.' :: mark) digits exponent
  | mixed {text digits text' digits' mark : List Char} {exponent : Int}
      (separated : Separated Char.isDigit text digits)
      (separated' : Separated Char.isDigit text' digits') (scaled : Exponent mark exponent) :
      Decimal (text ++ '.' :: (text' ++ mark)) (digits ++ digits') (exponent - digits'.length)
  | fraction {text digits mark : List Char} {exponent : Int}
      (separated : Separated Char.isDigit text digits) (scaled : Exponent mark exponent) :
      Decimal ('.' :: (text ++ mark)) digits (exponent - digits.length)

/-- A literal in another base than ten. -/
inductive Based : (text : List Char) → Prop where
  | hexadecimal {mark : Char} {text digits : List Char} (isMark : mark = 'x' ∨ mark = 'X')
      (separated : Separated isHexDigit text digits) : Based ('0' :: mark :: text)
  | octal {mark : Char} {text digits : List Char} (isMark : mark = 'o' ∨ mark = 'O')
      (separated : Separated isOctalDigit text digits) : Based ('0' :: mark :: text)
  | binary {mark : Char} {text digits : List Char} (isMark : mark = 'b' ∨ mark = 'B')
      (separated : Separated isBinaryDigit text digits) : Based ('0' :: mark :: text)

/-- One character of a name, written as itself or by its code. -/
inductive NameCharacter (accepts : Char → Bool) : (text : List Char) → Prop where
  | plain {c : Char} (isPart : accepts c = true) : NameCharacter accepts [c]
  | code {digits : List Char} (four : digits.length = 4)
      (hexadecimal : ∀ c ∈ digits, isHexDigit c = true) :
      NameCharacter accepts ('\\' :: 'u' :: digits)
  | bracedCode {digits : List Char} (given : digits ≠ [])
      (hexadecimal : ∀ c ∈ digits, isHexDigit c = true) :
      NameCharacter accepts ('\\' :: 'u' :: '{' :: (digits ++ ['}']))

/-- A name. -/
inductive Name : (text : List Char) → Prop where
  | start {first : List Char} (isStart : NameCharacter isNameStart first) : Name first
  | more {text next : List Char} (name : Name text) (isPart : NameCharacter isNamePart next) :
      Name (text ++ next)

end Script

namespace Binary64

open Script

/-- The text that is read of a part of a program. -/
def bare (text : List Char) : List Char :=
  text.filter fun c => c != '_' && !Text.isBlank c

/-- The name of a number that is not finite, in any case. -/
def NamesSpecial (text : List Char) : Prop :=
  text.map Char.toLower = "inf".toList ∨ text.map Char.toLower = "infinity".toList ∨
    text.map Char.toLower = "nan".toList

/-- A name looks like a number once its underscores are dropped. -/
def LooksNumeric (name : List Char) : Prop :=
  NamesSpecial (bare name) ∨ ∃ digits exponent, Decimal (bare name) digits exponent

/-! ## Characters -/

theorem bare_append (text more : List Char) : bare (text ++ more) = bare text ++ bare more :=
  List.filter_append text more

theorem bare_cons {c : Char} (kept : (c != '_' && !Text.isBlank c) = true) (text : List Char) :
    bare (c :: text) = c :: bare text :=
  List.filter_cons_of_pos kept

theorem bare_bare (text : List Char) : bare (bare text) = bare text := by
  rw [bare, bare, List.filter_filter]
  simp only [Bool.and_self]

theorem bare_eq_nil {text : List Char} (blank : text.all Text.isBlank = true) : bare text = [] := by
  rw [bare, List.filter_eq_nil_iff]
  intro c member
  simp [List.all_eq_true.mp blank c member]

theorem bare_sign (sign : Sign) : bare sign.text = sign.text := by
  cases sign <;> rfl

theorem kept_of_isDigit {c : Char} (isDigit : c.isDigit = true) :
    (c != '_' && !Text.isBlank c) = true :=
  @Reader.forall_isDigit (fun c => (c != '_' && !Text.isBlank c) = true) _ (by decide) c isDigit

/-- A digit is no sign, starts no name of a special number, and is ASCII. -/
theorem starts_of_isDigit {c : Char} (isDigit : c.isDigit = true) :
    (c ≠ '+' ∧ c ≠ '-') ∧ c.toLower ≠ 'i' ∧ c.toLower ≠ 'n' ∧ c.toNat < 0x80 :=
  @Reader.forall_isDigit
    (fun c => (c ≠ '+' ∧ c ≠ '-') ∧ c.toLower ≠ 'i' ∧ c.toLower ≠ 'n' ∧ c.toNat < 0x80) _
    (by decide) c isDigit

theorem bare_separated {text digits : List Char} (separated : Separated Char.isDigit text digits) :
    bare text = digits := by
  induction separated with
  | last isDigit => rw [bare_cons (kept_of_isDigit isDigit)]; rfl
  | next isDigit _ inductionHypothesis =>
      rw [bare_cons (kept_of_isDigit isDigit), inductionHypothesis]
  | @apart _ text _ isDigit _ inductionHypothesis =>
      have dropped : bare ('_' :: text) = bare text := List.filter_cons_of_neg (by decide)
      rw [bare_cons (kept_of_isDigit isDigit), dropped, inductionHypothesis]

theorem digits_separated {text digits : List Char} (separated : Separated Char.isDigit text digits) :
    digits ≠ [] ∧ digits.all Char.isDigit = true := by
  induction separated with
  | last isDigit => simp [isDigit]
  | next isDigit _ inductionHypothesis => simp [isDigit, inductionHypothesis.2]
  | apart isDigit _ inductionHypothesis => simp [isDigit, inductionHypothesis.2]

/-- Digits can stand without underscores between them. -/
theorem separated_of_digits {digits : List Char} (given : digits ≠ [])
    (areDigits : digits.all Char.isDigit = true) : Separated Char.isDigit digits digits := by
  induction digits with
  | nil => exact absurd rfl given
  | cons c rest inductionHypothesis =>
      rw [List.all_cons, Bool.and_eq_true] at areDigits
      cases rest with
      | nil => exact .last areDigits.1
      | cons d rest => exact .next areDigits.1 (inductionHypothesis (by simp) areDigits.2)

/-! ## Signs and exponents -/

theorem splitSign_text {sign : Sign} {rest : List Char}
    (unsigned : ∀ c ∈ rest.head?, c ≠ '+' ∧ c ≠ '-') :
    splitSign (sign.text ++ rest) = (sign.isMinus, rest) := by
  cases sign with
  | absent =>
      cases rest with
      | nil => rfl
      | cons c rest =>
          obtain ⟨notPlus, notMinus⟩ := unsigned c rfl
          simp [Sign.text, Sign.isMinus, splitSign, notPlus, notMinus]
  | plus => rfl
  | minus => rfl

theorem exists_sign_of_splitSign {text rest : List Char} {negative : Bool}
    (split : splitSign text = (negative, rest)) :
    ∃ sign : Sign, text = sign.text ++ rest ∧ sign.isMinus = negative := by
  unfold splitSign at split
  split at split <;> cases split
  · exact ⟨.plus, rfl, rfl⟩
  · exact ⟨.minus, rfl, rfl⟩
  · exact ⟨.absent, rfl, rfl⟩

theorem head?_of_digits {digits : List Char} (areDigits : digits.all Char.isDigit = true) :
    ∀ c ∈ digits.head?, c.isDigit = true := by
  intro c isHead
  exact List.all_eq_true.mp areDigits c (List.mem_of_mem_head? isHead)

theorem readExponent?_of_exponent {mark : List Char} {exponent : Int}
    (scaled : Exponent mark exponent) : readExponent? (bare mark) = some exponent := by
  cases scaled with
  | absent => rfl
  | @given mark sign text digits isMark separated =>
      obtain ⟨given, areDigits⟩ := digits_separated separated
      have kept : (mark != '_' && !Text.isBlank mark) = true := by
        rcases isMark with rfl | rfl <;> decide
      have marked : (mark == 'e' || mark == 'E') = true := by
        rcases isMark with rfl | rfl <;> decide
      have split : splitSign (sign.text ++ digits) = (sign.isMinus, digits) :=
        splitSign_text fun c isHead => (starts_of_isDigit (head?_of_digits areDigits c isHead)).1
      rw [bare_cons kept, bare_append, bare_sign, bare_separated separated, readExponent?,
        if_pos marked]
      simp [split, given, areDigits, Sign.apply]

theorem exponent_of_readExponent? {text : List Char} {exponent : Int}
    (found : readExponent? text = some exponent) : Exponent text exponent := by
  cases text with
  | nil =>
      cases found
      exact .absent
  | cons mark rest =>
      rw [readExponent?] at found
      split at found
      case isTrue marked =>
          rcases split : splitSign rest with ⟨negative, digits⟩
          obtain ⟨sign, rfl, rfl⟩ := exists_sign_of_splitSign split
          simp only [split] at found
          split at found
          case isTrue => cases found
          case isFalse given =>
              rw [Bool.or_eq_true, not_or, List.isEmpty_iff, Bool.not_eq_true,
                Bool.not_eq_eq_eq_not, Bool.not_false] at given
              have isMark : mark = 'e' ∨ mark = 'E' := by
                simpa using marked
              obtain rfl := Option.some.inj found
              exact Exponent.given isMark (separated_of_digits given.1 given.2)
      case isFalse => cases found

/-- An exponent starts with its mark. -/
theorem head?_bare_exponent {mark : List Char} {exponent : Int} (scaled : Exponent mark exponent) :
    ∀ c ∈ (bare mark).head?, c = 'e' ∨ c = 'E' := by
  cases scaled with
  | absent => intro c isHead; cases isHead
  | @given mark sign text digits isMark separated =>
      have kept : (mark != '_' && !Text.isBlank mark) = true := by
        rcases isMark with rfl | rfl <;> decide
      rw [bare_cons kept]
      rintro c ⟨⟩
      exact isMark

/-! ## Decimals -/

/-- No digit is taken from a text that starts with none. -/
theorem takeWhile_of_ends {rest : List Char} (ends : ∀ c ∈ rest.head?, c.isDigit = false) :
    rest.takeWhile Char.isDigit = [] ∧ rest.dropWhile Char.isDigit = rest := by
  cases rest with
  | nil => exact ⟨rfl, rfl⟩
  | cons c rest =>
      have ended := ends c rfl
      simp [ended]

theorem splitDecimal_whole {whole rest : List Char} (areDigits : whole.all Char.isDigit = true)
    (ends : ∀ c ∈ rest.head?, c.isDigit = false ∧ c ≠ '.') :
    splitDecimal (whole ++ rest) = (whole, [], rest) := by
  have inWhole := List.all_eq_true.mp areDigits
  obtain ⟨taken, dropped⟩ := takeWhile_of_ends fun c isHead => (ends c isHead).1
  rw [splitDecimal, List.takeWhile_append_of_pos inWhole, List.dropWhile_append_of_pos inWhole,
    taken, dropped, List.append_nil]
  split
  case _ more => exact absurd rfl (ends '.' rfl).2
  case _ => rfl

theorem splitDecimal_point {whole fraction rest : List Char}
    (areDigits : whole.all Char.isDigit = true) (areDigits' : fraction.all Char.isDigit = true)
    (ends : ∀ c ∈ rest.head?, c.isDigit = false) :
    splitDecimal (whole ++ '.' :: (fraction ++ rest)) = (whole, fraction, rest) := by
  have inWhole := List.all_eq_true.mp areDigits
  have inFraction := List.all_eq_true.mp areDigits'
  have atPoint : ∀ c ∈ ('.' :: (fraction ++ rest)).head?, c.isDigit = false := by
    rintro c ⟨⟩
    rfl
  obtain ⟨takenPoint, droppedPoint⟩ := takeWhile_of_ends atPoint
  obtain ⟨taken, dropped⟩ := takeWhile_of_ends ends
  rw [splitDecimal, List.takeWhile_append_of_pos inWhole, List.dropWhile_append_of_pos inWhole,
    takenPoint, droppedPoint, List.append_nil]
  simp only [List.takeWhile_append_of_pos inFraction, List.dropWhile_append_of_pos inFraction,
    taken, dropped, List.append_nil]

/-- A text is its parts put together again. -/
theorem append_of_splitDecimal {text whole fraction rest : List Char}
    (split : splitDecimal text = (whole, fraction, rest)) :
    whole.all Char.isDigit = true ∧ fraction.all Char.isDigit = true ∧
      (fraction = [] ∧ text = whole ++ rest ∨ text = whole ++ '.' :: (fraction ++ rest)) := by
  have together : text.takeWhile Char.isDigit ++ text.dropWhile Char.isDigit = text :=
    List.takeWhile_append_dropWhile
  rw [splitDecimal] at split
  split at split <;> cases split
  case _ more atPoint =>
      rw [atPoint] at together
      refine ⟨List.all_takeWhile, List.all_takeWhile, .inr ?_⟩
      rw [List.takeWhile_append_dropWhile, together]
  case _ => exact ⟨List.all_takeWhile, rfl, .inl ⟨rfl, together.symm⟩⟩

/-- Special numbers start with a letter. -/
theorem not_namesSpecial {text : List Char}
    (starts : ∀ c ∈ text.head?, c.toLower ≠ 'i' ∧ c.toLower ≠ 'n') : ¬ NamesSpecial text := by
  intro special
  cases text with
  | nil => rcases special with same | same | same <;> cases same
  | cons c rest =>
      obtain ⟨notI, notN⟩ := starts c rfl
      rcases special with same | same | same
      · exact notI (List.cons.inj same).1
      · exact notI (List.cons.inj same).1
      · exact notN (List.cons.inj same).1

theorem readUnsigned?_of_split {negative : Bool} {text whole fraction rest : List Char}
    (starts : ∀ c ∈ text.head?, c.toLower ≠ 'i' ∧ c.toLower ≠ 'n')
    (split : splitDecimal text = (whole, fraction, rest)) (given : whole ≠ [] ∨ fraction ≠ []) :
    readUnsigned? negative text = (readExponent? rest).map fun exponent =>
      ofDecimal negative (digitsValue (whole ++ fraction)) (exponent - fraction.length) := by
  have notSpecial := not_namesSpecial starts
  rw [NamesSpecial, not_or, not_or] at notSpecial
  have notEmpty : ¬ (whole.isEmpty && fraction.isEmpty) = true := by
    rw [Bool.and_eq_true, List.isEmpty_iff, List.isEmpty_iff]
    rintro ⟨noWhole, noFraction⟩
    exact given.elim (· noWhole) (· noFraction)
  rw [readUnsigned?]
  simp only [notSpecial, or_self, ↓reduceIte, split, if_neg notEmpty]
  cases readExponent? rest <;> rfl

/-- The first character of a literal. -/
def StartsNumber (text : List Char) : Prop :=
  ∀ c ∈ text.head?, c.isDigit = true ∨ c = '.'

theorem StartsNumber.unsigned {text : List Char} (starts : StartsNumber text) :
    ∀ c ∈ text.head?, c ≠ '+' ∧ c ≠ '-' := by
  intro c isHead
  rcases starts c isHead with isDigit | rfl
  · exact (starts_of_isDigit isDigit).1
  · decide

theorem StartsNumber.noLetter {text : List Char} (starts : StartsNumber text) :
    ∀ c ∈ text.head?, c.toLower ≠ 'i' ∧ c.toLower ≠ 'n' := by
  intro c isHead
  rcases starts c isHead with isDigit | rfl
  · exact ⟨(starts_of_isDigit isDigit).2.1, (starts_of_isDigit isDigit).2.2.1⟩
  · decide

theorem startsNumber_whole {whole rest : List Char} (given : whole ≠ [])
    (areDigits : whole.all Char.isDigit = true) : StartsNumber (whole ++ rest) := by
  cases whole with
  | nil => exact absurd rfl given
  | cons c more =>
      rintro _ ⟨⟩
      exact .inl (head?_of_digits areDigits c rfl)

theorem startsNumber_point {whole : List Char} (areDigits : whole.all Char.isDigit = true)
    (rest : List Char) : StartsNumber (whole ++ '.' :: rest) := by
  cases whole with
  | nil =>
      rintro _ ⟨⟩
      exact .inr rfl
  | cons c more => exact startsNumber_whole (by simp) areDigits

section Exponents

variable {whole fraction mark : List Char} {exponent : Int}

theorem ends_exponent (scaled : Exponent mark exponent) :
    ∀ c ∈ (bare mark).head?, c.isDigit = false ∧ c ≠ '.' := by
  intro c isHead
  rcases head?_bare_exponent scaled c isHead with rfl | rfl <;> decide

theorem readUnsigned?_whole (given : whole ≠ []) (areDigits : whole.all Char.isDigit = true)
    (scaled : Exponent mark exponent) (negative : Bool) :
    readUnsigned? negative (whole ++ bare mark) =
      some (ofDecimal negative (digitsValue whole) exponent) := by
  rw [readUnsigned?_of_split (startsNumber_whole given areDigits).noLetter
    (splitDecimal_whole areDigits (ends_exponent scaled)) (.inl given),
    readExponent?_of_exponent scaled]
  simp

theorem readUnsigned?_point (given : whole ≠ [] ∨ fraction ≠ [])
    (areDigits : whole.all Char.isDigit = true) (areDigits' : fraction.all Char.isDigit = true)
    (scaled : Exponent mark exponent) (negative : Bool) :
    readUnsigned? negative (whole ++ '.' :: (fraction ++ bare mark)) =
      some (ofDecimal negative (digitsValue (whole ++ fraction)) (exponent - fraction.length)) := by
  have ends := ends_exponent scaled
  rw [readUnsigned?_of_split (startsNumber_point areDigits _).noLetter
    (splitDecimal_point areDigits areDigits' fun c isHead => (ends c isHead).1) given,
    readExponent?_of_exponent scaled]
  rfl

end Exponents

/-- A decimal literal without its underscores starts like a number, and is read as the number it
denotes. -/
theorem readUnsigned?_of_decimal {text digits : List Char} {exponent : Int}
    (decimal : Decimal text digits exponent) (negative : Bool) :
    StartsNumber (bare text) ∧
      readUnsigned? negative (bare text) =
        some (ofDecimal negative (digitsValue digits) exponent) := by
  have atPoint : ∀ rest : List Char, bare ('.' :: rest) = '.' :: bare rest := fun rest =>
    bare_cons (by decide) rest
  cases decimal with
  | whole separated scaled =>
      obtain ⟨given, areDigits⟩ := digits_separated separated
      rw [bare_append, bare_separated separated]
      exact ⟨startsNumber_whole given areDigits, readUnsigned?_whole given areDigits scaled negative⟩
  | pointed separated scaled =>
      obtain ⟨given, areDigits⟩ := digits_separated separated
      rw [bare_append, bare_separated separated, atPoint]
      refine ⟨startsNumber_point areDigits _, ?_⟩
      simpa using readUnsigned?_point (.inl given) areDigits List.all_nil scaled negative
  | mixed separated separated' scaled =>
      obtain ⟨given, areDigits⟩ := digits_separated separated
      obtain ⟨-, areDigits'⟩ := digits_separated separated'
      rw [bare_append, bare_separated separated, atPoint, bare_append, bare_separated separated']
      exact ⟨startsNumber_point areDigits _,
        readUnsigned?_point (.inl given) areDigits areDigits' scaled negative⟩
  | fraction separated scaled =>
      obtain ⟨given, areDigits⟩ := digits_separated separated
      rw [atPoint, bare_append, bare_separated separated]
      exact ⟨startsNumber_point List.all_nil _,
        readUnsigned?_point (.inr given) List.all_nil areDigits scaled negative⟩

/-- What is read as a number is the name of a special number or a decimal. -/
theorem namesSpecial_or_decimal {negative : Bool} {text : List Char} {value : Binary64}
    (found : readUnsigned? negative text = some value) :
    NamesSpecial text ∨ ∃ digits exponent, Decimal text digits exponent := by
  rw [readUnsigned?] at found
  split at found
  case isTrue infinite => exact .inl (infinite.imp_right .inl)
  case isFalse =>
      split at found
      case isTrue undefined => exact .inl (.inr (.inr undefined))
      case isFalse =>
          right
          rcases split : splitDecimal text with ⟨whole, fraction, rest⟩
          simp only [split] at found
          split at found
          case isTrue => cases found
          case isFalse given =>
              cases scaled : readExponent? rest with
              | none =>
                  rw [scaled] at found
                  cases found
              | some exponent =>
                  have scaled := exponent_of_readExponent? scaled
                  obtain ⟨areDigits, areDigits', ⟨rfl, rfl⟩ | rfl⟩ := append_of_splitDecimal split
                  · have given : whole ≠ [] := by
                      rintro rfl
                      exact given rfl
                    exact ⟨_, _, .whole (separated_of_digits given areDigits) scaled⟩
                  · by_cases noWhole : whole = []
                    · have given' : fraction ≠ [] := by
                        rintro rfl
                        exact given (by rw [noWhole]; rfl)
                      subst noWhole
                      exact ⟨_, _, .fraction (separated_of_digits given' areDigits') scaled⟩
                    · have separated := separated_of_digits noWhole areDigits
                      by_cases noFraction : fraction = []
                      · subst noFraction
                        exact ⟨_, _, .pointed separated scaled⟩
                      · exact ⟨_, _,
                          .mixed separated (separated_of_digits noFraction areDigits') scaled⟩

/-- A literal in another base starts with a zero that no decimal goes on from. -/
theorem readUnsigned?_of_based {text : List Char} (based : Based text) (negative : Bool) :
    StartsNumber (bare text) ∧ readUnsigned? negative (bare text) = none := by
  obtain ⟨mark, rest, rfl, notDecimal⟩ : ∃ mark rest, text = '0' :: mark :: rest ∧
      (mark != '_' && !Text.isBlank mark) = true ∧ mark.isDigit = false ∧ mark ≠ '.' ∧
        (mark == 'e' || mark == 'E') = false := by
    cases based with
    | hexadecimal isMark _ | octal isMark _ | binary isMark _ =>
        refine ⟨_, _, rfl, ?_⟩
        rcases isMark with rfl | rfl <;> decide
  obtain ⟨kept, notDigit, notPoint, notMark⟩ := notDecimal
  have starts : StartsNumber ('0' :: mark :: bare rest) := by
    rintro _ ⟨⟩
    exact .inl rfl
  have split : splitDecimal ('0' :: mark :: bare rest) = (['0'], [], mark :: bare rest) := by
    refine @splitDecimal_whole ['0'] (mark :: bare rest) rfl ?_
    rintro _ ⟨⟩
    exact ⟨notDigit, notPoint⟩
  rw [bare_cons (by decide), bare_cons kept]
  refine ⟨starts, ?_⟩
  rw [readUnsigned?_of_split starts.noLetter split (.inl (by simp)), readExponent?, notMark]
  rfl

/-! ## Signs and blanks before a literal -/

theorem ascii_of_separated {text digits : List Char} (separated : Separated Char.isDigit text digits) :
    ∀ c ∈ text, c.toNat < 0x80 := by
  have atDigit : ∀ {c : Char}, c.isDigit = true → c.toNat < 0x80 := fun isDigit =>
    (starts_of_isDigit isDigit).2.2.2
  induction separated with
  | last isDigit => simpa using atDigit isDigit
  | next isDigit _ inductionHypothesis =>
      exact List.forall_mem_cons.mpr ⟨atDigit isDigit, inductionHypothesis⟩
  | apart isDigit _ inductionHypothesis =>
      refine List.forall_mem_cons.mpr ⟨atDigit isDigit, List.forall_mem_cons.mpr ⟨by decide, ?_⟩⟩
      exact inductionHypothesis

theorem ascii_sign (sign : Sign) : ∀ c ∈ sign.text, c.toNat < 0x80 := by
  cases sign <;> exact forall_mem_of_all (by decide)

theorem ascii_of_exponent {text : List Char} {exponent : Int} (scaled : Exponent text exponent) :
    ∀ c ∈ text, c.toNat < 0x80 := by
  cases scaled with
  | absent => simp
  | @given mark sign text digits isMark separated =>
      refine List.forall_mem_cons.mpr ⟨?_, List.forall_mem_append.mpr ⟨ascii_sign sign, ?_⟩⟩
      · rcases isMark with rfl | rfl <;> decide
      · exact ascii_of_separated separated

theorem ascii_of_decimal {text digits : List Char} {exponent : Int}
    (decimal : Decimal text digits exponent) : ∀ c ∈ text, c.toNat < 0x80 := by
  have point : '.'.toNat < 0x80 := by decide
  cases decimal with
  | whole separated scaled =>
      exact List.forall_mem_append.mpr ⟨ascii_of_separated separated, ascii_of_exponent scaled⟩
  | pointed separated scaled =>
      exact List.forall_mem_append.mpr ⟨ascii_of_separated separated,
        List.forall_mem_cons.mpr ⟨point, ascii_of_exponent scaled⟩⟩
  | mixed separated separated' scaled =>
      exact List.forall_mem_append.mpr ⟨ascii_of_separated separated,
        List.forall_mem_cons.mpr ⟨point, List.forall_mem_append.mpr
          ⟨ascii_of_separated separated', ascii_of_exponent scaled⟩⟩⟩
  | fraction separated scaled =>
      exact List.forall_mem_cons.mpr ⟨point, List.forall_mem_append.mpr
        ⟨ascii_of_separated separated, ascii_of_exponent scaled⟩⟩

theorem ascii_of_namesSpecial {text : List Char} (special : NamesSpecial text) :
    ∀ c ∈ text, c.toNat < 0x80 := by
  have lowered : ∀ c ∈ text.map Char.toLower, c.toNat < 0x80 := by
    rcases special with same | same | same <;> rw [same] <;>
      exact forall_mem_of_all (by decide)
  intro c member
  have low := lowered c.toLower (List.mem_map_of_mem member)
  unfold Char.toLower at low
  split at low
  case isTrue isUpper =>
      have most := UInt32.le_iff_toNat_le.mp isUpper.2
      have code : c.toNat = c.val.toNat := rfl
      have last : 'Z'.val.toNat = 90 := rfl
      omega
  case isFalse => exact low

/-- Everything that is read as a number is ASCII. -/
theorem ascii_of_read? {text : List Char} {value : Binary64} (found : read? text = some value) :
    ∀ c ∈ text, c.toNat < 0x80 := by
  rcases split : splitSign text with ⟨negative, rest⟩
  rw [read?, split] at found
  obtain ⟨sign, rfl, -⟩ := exists_sign_of_splitSign split
  refine List.forall_mem_append.mpr ⟨ascii_sign sign, ?_⟩
  obtain special | ⟨digits, exponent, decimal⟩ := namesSpecial_or_decimal found
  · exact ascii_of_namesSpecial special
  · exact ascii_of_decimal decimal

/-- A separator that is no blank is not ASCII. -/
theorem not_ascii_of_isSeparator {c : Char} (separator : isSeparator c = true)
    (notBlank : Text.isBlank c = false) : ¬ c.toNat < 0x80 ∧ c ≠ '_' := by
  simp only [isSeparator, notBlank, Bool.false_or, Bool.or_eq_true, beq_iff_eq] at separator
  rcases separator with (rfl | rfl) | rfl <;> decide

/-- A text that starts like a number is read behind a sign with blanks around it, and not behind other
separators. -/
theorem ofProgram?_signed {sign : Sign} {before between text : List Char}
    (separators : ∀ c ∈ before ++ between, isSeparator c = true)
    (starts : StartsNumber (bare text)) :
    ofProgram? (before ++ (sign.text ++ (between ++ text))) =
      if (before ++ between).all Text.isBlank = true then
        readUnsigned? sign.isMinus (bare text)
      else none := by
  have cleaned : ofProgram? (before ++ (sign.text ++ (between ++ text))) =
      read? (bare before ++ (sign.text ++ (bare between ++ bare text))) := by
    show read? (bare _) = _
    rw [bare_append, bare_append, bare_append, bare_sign]
  rw [cleaned]
  split
  case isTrue blank =>
      rw [List.all_append, Bool.and_eq_true] at blank
      rw [bare_eq_nil blank.1, bare_eq_nil blank.2, List.nil_append, List.nil_append, read?,
        splitSign_text starts.unsigned]
  case isFalse notBlank =>
      rw [Option.eq_none_iff_forall_ne_some]
      intro value found
      rw [List.all_eq_true] at notBlank
      obtain ⟨c, notBlank⟩ := Classical.not_forall.mp notBlank
      rw [Classical.not_imp, Bool.not_eq_true] at notBlank
      obtain ⟨wide, notUnderscore⟩ :=
        not_ascii_of_isSeparator (separators c notBlank.1) notBlank.2
      -- The separator is left in the text that is read.
      have inBare : c ∈ bare (before ++ between) := by
        rw [bare, List.mem_filter]
        exact ⟨notBlank.1, by simp [notUnderscore, notBlank.2]⟩
      rw [bare_append, List.mem_append] at inBare
      apply wide
      apply ascii_of_read? found
      rcases inBare with inBefore | inBetween <;> simp [*]

/-! ## Names -/

theorem unsigned_of_nameCharacter {accepts : Char → Bool} {text : List Char}
    (isPart : NameCharacter accepts text) (parts : ∀ c, accepts c = true → isNamePart c = true) :
    ∀ c ∈ text, c ≠ '+' ∧ c ≠ '-' := by
  have inCode : ∀ {digits : List Char}, (∀ c ∈ digits, isHexDigit c = true) →
      ∀ c ∈ digits, c ≠ '+' ∧ c ≠ '-' := by
    intro digits hexadecimal c member
    constructor <;> rintro rfl <;> exact absurd (hexadecimal _ member) (by decide)
  cases isPart with
  | plain isPart =>
      rw [List.forall_mem_singleton]
      constructor <;> rintro rfl <;> exact absurd (parts _ isPart) (by decide)
  | code _ hexadecimal =>
      refine List.forall_mem_cons.mpr ⟨by decide, List.forall_mem_cons.mpr ⟨by decide, ?_⟩⟩
      exact inCode hexadecimal
  | bracedCode _ hexadecimal =>
      refine List.forall_mem_cons.mpr ⟨by decide, List.forall_mem_cons.mpr ⟨by decide,
        List.forall_mem_cons.mpr ⟨by decide, List.forall_mem_append.mpr ⟨?_, ?_⟩⟩⟩⟩
      · exact inCode hexadecimal
      · rw [List.forall_mem_singleton]
        decide

theorem unsigned_of_name {text : List Char} (name : Name text) : ∀ c ∈ text, c ≠ '+' ∧ c ≠ '-' := by
  induction name with
  | start isStart =>
      refine unsigned_of_nameCharacter isStart fun c starts => ?_
      rw [isNameStart, Bool.and_eq_true] at starts
      exact starts.1
  | more _ isPart inductionHypothesis =>
      exact List.forall_mem_append.mpr
        ⟨inductionHypothesis, unsigned_of_nameCharacter isPart fun _ => id⟩

/-- A name is read as a number just if it looks like one. -/
theorem isSome_ofProgram?_name {name : List Char} (isName : Name name) :
    (ofProgram? name).isSome ↔ LooksNumeric name := by
  have unsigned : ∀ c ∈ (bare name).head?, c ≠ '+' ∧ c ≠ '-' := by
    intro c isHead
    have inBare := List.mem_of_mem_head? isHead
    exact unsigned_of_name isName c (List.mem_filter.mp inBare).1
  have split : splitSign (bare name) = (false, bare name) := @splitSign_text .absent _ unsigned
  have cleaned : ofProgram? name = readUnsigned? false (bare name) := by
    show read? (bare name) = _
    rw [read?, split]
  rw [cleaned, LooksNumeric]
  constructor
  · intro found
    obtain ⟨value, found⟩ := Option.isSome_iff_exists.mp found
    exact namesSpecial_or_decimal found
  · rintro (special | ⟨digits, exponent, decimal⟩)
    · rw [readUnsigned?]
      rcases special with same | same | same <;> simp [same]
    · have found := (readUnsigned?_of_decimal decimal false).2
      rw [bare_bare] at found
      rw [found]
      rfl

/-- A decimal literal is read as the number it denotes, with a sign and blanks before it; a literal in
another base is not read, and neither is anything behind a separator that is no blank. A name is read
just if it looks like a number without its underscores, and a bound of a slider that is given by any
other name is what it is if none is given. -/
theorem literals_and_names_of_program (text : List Char) :
    (∀ (sign : Sign) (before between : List Char),
      (∀ c ∈ before ++ between, isSeparator c = true) →
      (∀ digits exponent, Decimal text digits exponent →
        ofProgram? (before ++ (sign.text ++ (between ++ text))) =
          if (before ++ between).all Text.isBlank = true then
            some (ofDecimal sign.isMinus (digitsValue digits) exponent)
          else none) ∧
      (Based text → ofProgram? (before ++ (sign.text ++ (between ++ text))) = none)) ∧
    (Name text →
      ((ofProgram? text).isSome ↔ LooksNumeric text) ∧
      (¬ LooksNumeric text → ∀ source values index descriptor place bound,
        nativeDescriptor? .slider source values index = some descriptor →
        values[place]? = some bound → source.slice bound.range = text →
          (place = 1 → descriptor.min = some (ofInt 0)) ∧
          (place = 2 → descriptor.max = some (ofInt 1)) ∧
          (place = 3 → descriptor.step = none))) := by
  constructor
  · intro sign before between separators
    constructor
    · intro digits exponent decimal
      obtain ⟨starts, found⟩ := readUnsigned?_of_decimal decimal sign.isMinus
      rw [ofProgram?_signed separators starts, found]
    · intro based
      obtain ⟨starts, missed⟩ := readUnsigned?_of_based based sign.isMinus
      rw [ofProgram?_signed separators starts, missed, ite_self]
  · intro isName
    refine ⟨isSome_ofProgram?_name isName, ?_⟩
    intro plain source values index descriptor place bound described atPlace isText
    have unread : numberAt source values place = none := by
      have missed := mt (isSome_ofProgram?_name isName).mp plain
      rw [numberAt, atPlace]
      show ofProgram? (source.slice bound.range) = none
      rw [isText]
      simpa using missed
    cases values with
    | nil => cases atPlace
    | cons first rest =>
        cases described
        refine ⟨?_, ?_, ?_⟩ <;> rintro rfl <;> simp only [unread, Option.getD_none]

/-- A negative decimal with every part that one can have, a hexadecimal literal, and a slider whose
least value is given by a name with a digit. -/
theorem literals_and_names_of_program_slider :
    let source := SourceText.ofString "slider(1,x1)"
    let values : List Node := [.mk .number none ⟨7, 8⟩ [], .mk .identifier none ⟨9, 11⟩ []]
    ofProgram? "- 1_0.5e+2".toList = some (ofDecimal true 105 1) ∧
    ofProgram? "+0x1_f".toList = none ∧
    ¬ LooksNumeric "x1".toList ∧
    ∃ descriptor, nativeDescriptor? .slider source values 0 = some descriptor ∧
      descriptor.min = some (ofInt 0) := by
  intro source values
  have decimal : Decimal "1_0.5e+2".toList ['1', '0', '5'] 1 :=
    @Decimal.mixed ['1', '_', '0'] ['1', '0'] ['5'] ['5'] ['e', '+', '2'] 2
      (.apart rfl (.last rfl)) (.last rfl)
      (@Exponent.given 'e' .plus ['2'] ['2'] (.inl rfl) (.last rfl))
  have based : Based "0x1_f".toList := .hexadecimal (.inl rfl) (.apart rfl (.last rfl))
  have isName : Name "x1".toList :=
    .more (.start (@NameCharacter.plain isNameStart 'x' rfl)) (@NameCharacter.plain isNamePart '1' rfl)
  obtain ⟨read, bounds⟩ := (literals_and_names_of_program "x1".toList).2 isName
  have plain : ¬ LooksNumeric "x1".toList := by
    rw [← read]
    decide +kernel
  refine ⟨?_, ?_, plain, _, rfl, ?_⟩
  · exact ((literals_and_names_of_program _).1 .minus [] [' '] (forall_mem_of_all (by decide))).1 _ _
      decimal
  · exact ((literals_and_names_of_program _).1 .plus [] [] (forall_mem_of_all (by decide))).2 based
  · exact (bounds plain source values 0 _ 1 _ rfl rfl (by decide +kernel)).1 rfl

/-- A literal that is not read, names that are read, and a literal that is not read behind a byte
order mark. -/
theorem literal_missed_and_names_taken :
    (Based "0x10".toList ∧ ofProgram? "0x10".toList = none) ∧
    (Name "inf".toList ∧ ofProgram? "inf".toList = some (.infinity false)) ∧
    (Name "_1".toList ∧ ofProgram? "_1".toList = some (ofInt 1)) ∧
    (Decimal "2".toList ['2'] 0 ∧ isSeparator '\uFEFF' ∧ ofProgram? "-\uFEFF2".toList = none) := by
  refine ⟨⟨.hexadecimal (.inl rfl) (.next rfl (.last rfl)), by decide +kernel⟩,
    ⟨?_, by decide +kernel⟩, ⟨?_, by decide +kernel⟩, ?_, by decide +kernel, by decide +kernel⟩
  · have first : Name ['i'] := .start (.plain rfl)
    exact .more (.more first (@NameCharacter.plain isNamePart 'n' rfl))
      (@NameCharacter.plain isNamePart 'f' rfl)
  · have first : Name ['_'] := .start (.plain rfl)
    exact .more first (@NameCharacter.plain isNamePart '1' rfl)
  · exact @Decimal.whole ['2'] ['2'] [] 0 (.last rfl) .absent

end Binary64

end PatternScript
