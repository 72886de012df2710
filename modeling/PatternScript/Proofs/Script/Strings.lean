import PatternScript.Json.Reading
import PatternScript.Script.Character

/-!
Contract: the strings that the string literals of a program denote.

A string of a program is a sequence of units of sixteen bits. A character of a literal stands for its
units in UTF-16, unless it is a backslash. What a backslash escapes may be a character that stands for
another one or for itself, a code in digits of base eight or sixteen, or a line end, which stands for
nothing. A literal ends at the first closing quote that is not escaped, and holds no line feed and no
carriage return outside an escape.

Owns: the units of a text, reading a literal at the front of a text, and which literals denote their
own text.
Does not own: the literals that are written into a program.
-/

namespace PatternScript.Script

open Json (TextReader hexValue? readUnit)

/-! ## Units -/

/-- One unit of a string of a program. -/
abbrev CodeUnit := UInt16

/-- The units of a code point: itself, or a pair of surrogates. -/
def unitsOfCode (code : Nat) : List CodeUnit :=
  if code < 0x10000 then [.ofNat code]
  else [.ofNat (0xD800 + (code - 0x10000) / 0x400), .ofNat (0xDC00 + (code - 0x10000) % 0x400)]

/-- The units of a text. -/
def unitsOf (text : List Char) : List CodeUnit :=
  text.flatMap fun c => unitsOfCode c.toNat

@[simp] theorem unitsOf_nil : unitsOf [] = [] := rfl

@[simp] theorem unitsOf_cons (c : Char) (rest : List Char) :
    unitsOf (c :: rest) = unitsOfCode c.toNat ++ unitsOf rest := rfl

@[simp] theorem unitsOf_append (text more : List Char) :
    unitsOf (text ++ more) = unitsOf text ++ unitsOf more :=
  List.flatMap_append

theorem unitsOfCode_length (code : Nat) :
    1 ≤ (unitsOfCode code).length ∧ (unitsOfCode code).length ≤ 2 := by
  unfold unitsOfCode
  split <;> simp

theorem length_le_length_unitsOf (text : List Char) : text.length ≤ (unitsOf text).length := by
  induction text with
  | nil => exact Nat.le_refl _
  | cons c rest inductionHypothesis =>
      have atLeast := (unitsOfCode_length c.toNat).1
      simp only [List.length_cons, unitsOf_cons, List.length_append]
      omega

theorem eq_of_ofNat_eq {left right : Nat} (small : left < 0x10000) (small' : right < 0x10000)
    (same : UInt16.ofNat left = UInt16.ofNat right) : left = right := by
  have values := congrArg UInt16.toNat same
  rw [UInt16.toNat_ofNat_of_lt' small, UInt16.toNat_ofNat_of_lt' small'] at values
  exact values

/-- The units of a character tell it from every other, whatever follows: no character is a
surrogate. -/
theorem unitsOfCode_append_inj {c d : Char} {later later' : List CodeUnit}
    (same : unitsOfCode c.toNat ++ later = unitsOfCode d.toNat ++ later') :
    c = d ∧ later = later' := by
  have scalar : ∀ e : Char, e.toNat < 0xD800 ∨ 0xDFFF < e.toNat ∧ e.toNat < 0x110000 := fun e =>
    e.valid
  have atFirst := scalar c
  have atSecond := scalar d
  simp only [unitsOfCode] at same
  split at same <;> split at same <;>
    simp only [List.cons_append, List.nil_append, List.cons.injEq] at same
  case isTrue.isTrue small small' =>
      exact ⟨Char.toNat_inj.mp (eq_of_ofNat_eq small small' same.1), same.2⟩
  case isTrue.isFalse small large =>
      have surrogate := eq_of_ofNat_eq small (by omega) same.1
      omega
  case isFalse.isTrue large small =>
      have surrogate := eq_of_ofNat_eq (by omega) small same.1
      omega
  case isFalse.isFalse large large' =>
      have high := eq_of_ofNat_eq (by omega) (by omega) same.1
      have low := eq_of_ofNat_eq (by omega) (by omega) same.2.1
      exact ⟨Char.toNat_inj.mp (by omega), same.2.2⟩

/-- Different texts have different units. -/
theorem unitsOf_inj {text text' : List Char} (same : unitsOf text = unitsOf text') : text = text' := by
  induction text generalizing text' with
  | nil =>
      have short := length_le_length_unitsOf text'
      rw [← same] at short
      exact (List.eq_nil_of_length_eq_zero (Nat.le_zero.mp short)).symm
  | cons c rest inductionHypothesis =>
      cases text' with
      | nil =>
          have short := length_le_length_unitsOf (c :: rest)
          rw [same] at short
          simp at short
      | cons d rest' =>
          obtain ⟨rfl, sameRest⟩ := unitsOfCode_append_inj same
          rw [inductionHypothesis sameRest]

/-! ## Escapes -/

/-- Line ends, which stand for nothing behind a backslash. -/
def isLineTerminator (c : Char) : Bool :=
  c == '\n' || c == '\r' || c == '\u2028' || c == '\u2029'

/-- The character that a letter stands for behind a backslash. -/
def escapedLetter? : Char → Option Char
  | 'b' => some '\x08'
  | 'f' => some '\x0c'
  | 'n' => some '\n'
  | 'r' => some '\r'
  | 't' => some '\t'
  | 'v' => some '\x0b'
  | _ => none

/-- The value of hexadecimal digits. -/
def codeOfHex (digits : List Char) : Nat :=
  digits.foldl (fun code c => 16 * code + (hexValue? c).getD 0) 0

/-- The value of octal digits. -/
def codeOfOctal (digits : List Char) : Nat :=
  digits.foldl (fun code c => 8 * code + (c.toNat - '0'.toNat)) 0

/-- A code of two hexadecimal digits. -/
def readByte? : TextReader (List CodeUnit)
  | first :: second :: behind => do
      let code := 16 * (← hexValue? first) + (← hexValue? second)
      return ([.ofNat code], behind)
  | _ => none

/-- The code of a character in any number of hexadecimal digits and a closing brace. -/
def readBraced? (text : List Char) : Option (List CodeUnit × List Char) :=
  match text.takeWhile isHexDigit, text.dropWhile isHexDigit with
  | digit :: digits, '}' :: behind =>
      let code := codeOfHex (digit :: digits)
      if code < 0x110000 then some (unitsOfCode code, behind) else none
  | _, _ => none

/-- A unit in four hexadecimal digits. -/
def readFour? (text : List Char) : Option (List CodeUnit × List Char) :=
  (readUnit text).map fun (unit, behind) => ([.ofNat unit], behind)

/-- The octal digits at the front of a text that make up one code below 256: three, or two if the
first is above 3. -/
def octalDigits (text : List Char) : List Char :=
  (text.take (if text.head?.any (· ≤ '3') then 3 else 2)).takeWhile isOctalDigit

theorem octalDigits_append_drop (text : List Char) :
    octalDigits text ++ text.drop (octalDigits text).length = text := by
  have isPrefix : octalDigits text <+: text :=
    (List.takeWhile_prefix _).trans (List.take_prefix _ _)
  exact List.prefix_iff_eq_append.mp isPrefix

/-- What a backslash escapes: its units, and the text behind it. -/
def readEscape? : TextReader (List CodeUnit)
  | [] => none
  | 'x' :: rest => readByte? rest
  | 'u' :: '{' :: rest => readBraced? rest
  | 'u' :: rest => readFour? rest
  | '\r' :: '\n' :: rest => some ([], rest)
  | c :: rest =>
      if isLineTerminator c then some ([], rest)
      else if isOctalDigit c then
        let digits := octalDigits (c :: rest)
        some ([.ofNat (codeOfOctal digits)], (c :: rest).drop digits.length)
      else some (unitsOfCode ((escapedLetter? c).getD c).toNat, rest)

/-- Some text has been taken from the front, and it has at least as many units as what was made of
it. -/
def Shrinks (text : List Char) (units : List CodeUnit) (behind : List Char) : Prop :=
  ∃ used, text = used ++ behind ∧ used ≠ [] ∧ units.length ≤ (unitsOf used).length

namespace Shrinks

variable {text behind : List Char} {units : List CodeUnit}

theorem of_used {used : List Char} (taken : text = used ++ behind) (given : used ≠ [])
    (few : units.length ≤ used.length) : Shrinks text units behind :=
  ⟨used, taken, given, Nat.le_trans few (length_le_length_unitsOf used)⟩

theorem cons (c : Char) (shrinks : Shrinks text units behind) : Shrinks (c :: text) units behind := by
  obtain ⟨used, rfl, -, few⟩ := shrinks
  refine ⟨c :: used, rfl, by simp, ?_⟩
  simp only [unitsOf_cons, List.length_append]
  omega

theorem length_lt (shrinks : Shrinks text units behind) : behind.length < text.length := by
  obtain ⟨used, rfl, given, -⟩ := shrinks
  have positive := List.length_pos_iff.mpr given
  simp only [List.length_append]
  omega

theorem of_readByte? (found : readByte? text = some (units, behind)) : Shrinks text units behind := by
  unfold readByte? at found
  split at found
  case h_1 first second rest =>
      cases atFirst : hexValue? first <;> cases atSecond : hexValue? second <;>
        simp only [atFirst, atSecond, bind, Option.bind, pure, reduceCtorEq, Option.some.injEq,
          Prod.mk.injEq] at found
      obtain ⟨rfl, rfl⟩ := found
      exact of_used (by simp : _ = [first, second] ++ _) (by simp) (by simp)
  case h_2 => cases found

theorem of_readBraced? (found : readBraced? text = some (units, behind)) :
    Shrinks text units behind := by
  unfold readBraced? at found
  split at found
  case h_1 digit digits rest isDigits isRest =>
      simp only [Option.ite_none_right_eq_some, Option.some.injEq, Prod.mk.injEq] at found
      obtain ⟨-, rfl, rfl⟩ := found
      have taken : text = (digit :: digits ++ ['}']) ++ rest := by
        rw [List.append_assoc, List.singleton_append, ← isRest, ← isDigits,
          List.takeWhile_append_dropWhile]
      refine of_used taken (by simp) ?_
      have atMost := (unitsOfCode_length (codeOfHex (digit :: digits))).2
      simp only [List.length_append, List.length_cons, List.length_nil]
      omega
  case h_2 => cases found

theorem of_readFour? (found : readFour? text = some (units, behind)) : Shrinks text units behind := by
  obtain ⟨⟨unit, rest⟩, isUnit, made⟩ := Option.map_eq_some_iff.mp found
  obtain ⟨rfl, rfl⟩ := Prod.mk.inj made
  unfold readUnit at isUnit
  split at isUnit
  case h_1 first second third fourth more =>
      cases atFirst : hexValue? first <;> cases atSecond : hexValue? second <;>
        cases atThird : hexValue? third <;> cases atFourth : hexValue? fourth <;>
        simp only [atFirst, atSecond, atThird, atFourth, bind, Option.bind, pure, reduceCtorEq,
          Option.some.injEq, Prod.mk.injEq] at isUnit
      obtain ⟨-, rfl⟩ := isUnit
      exact of_used (by simp : _ = [first, second, third, fourth] ++ _) (by simp) (by simp)
  case h_2 => cases isUnit

/-- A letter and what it stands for are both one unit. -/
theorem length_escaped (c : Char) :
    (unitsOfCode ((escapedLetter? c).getD c).toNat).length ≤ (unitsOf [c]).length := by
  unfold escapedLetter?
  split
  case h_7 => simp
  all_goals decide

end Shrinks

/-- An escape takes at least as many units as it denotes, not counting its backslash. -/
theorem shrinks_of_readEscape? {text behind : List Char} {units : List CodeUnit}
    (found : readEscape? text = some (units, behind)) : Shrinks text units behind := by
  unfold readEscape? at found
  split at found
  case h_1 => cases found
  case h_2 => exact (Shrinks.of_readByte? found).cons _
  case h_3 => exact ((Shrinks.of_readBraced? found).cons _).cons _
  case h_4 => exact (Shrinks.of_readFour? found).cons _
  case h_5 rest =>
      obtain ⟨rfl, rfl⟩ := Prod.mk.inj (Option.some.inj found)
      exact .of_used (by simp : _ = ['\r', '\n'] ++ _) (by simp) (by simp)
  case h_6 c rest _ _ _ _ =>
      split at found
      case isTrue =>
          obtain ⟨rfl, rfl⟩ := Prod.mk.inj (Option.some.inj found)
          exact .of_used (by simp : _ = [c] ++ _) (by simp) (by simp)
      case isFalse =>
          split at found
          case isTrue isOctal =>
              obtain ⟨rfl, rfl⟩ := Prod.mk.inj (Option.some.inj found)
              have given : octalDigits (c :: rest) ≠ [] := by
                unfold octalDigits
                split <;> simp [isOctal]
              exact .of_used (octalDigits_append_drop _).symm given (List.length_pos_iff.mpr given)
          case isFalse =>
              obtain ⟨rfl, rfl⟩ := Prod.mk.inj (Option.some.inj found)
              exact ⟨[c], rfl, by simp, Shrinks.length_escaped c⟩

/-! ## Literals -/

/-- Units before those that were read. -/
def prepend (units : List CodeUnit) (read : List CodeUnit × List Char) : List CodeUnit × List Char :=
  (units ++ read.1, read.2)

/-- The rest of a literal behind its opening quote. -/
def readInside? (quote : Char) : TextReader (List CodeUnit)
  | [] => none
  | c :: rest =>
      if c = quote then some ([], rest)
      else if c = '\\' then
        match found : readEscape? rest with
        | none => none
        | some (units, behind) =>
            have : behind.length < rest.length := (shrinks_of_readEscape? found).length_lt
            (readInside? quote behind).map (prepend units)
      else if c = '\n' ∨ c = '\r' then none
      else (readInside? quote rest).map (prepend (unitsOfCode c.toNat))
termination_by text => text.length

/-- A literal at the front of a text: the string it denotes, and the text behind it. -/
def readLiteral? : TextReader (List CodeUnit)
  | [] => none
  | quote :: rest => if quote = '"' ∨ quote = '\'' then readInside? quote rest else none

example : readLiteral? "'aA\\x41\\u\x7b1F600\x7d\\uD83D\\'\\\n\\477\\08\\q\\v' + 1".toList =
    some (unitsOf "aAA😀".toList ++ 0xD83D :: unitsOf "''7\x008q\x0b".toList, " + 1".toList) := by
  decide +kernel

section Reading

variable {quote c : Char} {rest behind : List Char} {units : List CodeUnit}

theorem readInside?_quote : readInside? quote (quote :: rest) = some ([], rest) := by
  rw [readInside?, if_pos rfl]

theorem readInside?_escape (notQuote : quote ≠ '\\')
    (found : readEscape? rest = some (units, behind)) :
    readInside? quote ('\\' :: rest) = (readInside? quote behind).map (prepend units) := by
  rw [readInside?, if_neg notQuote.symm, if_pos rfl]
  split
  case h_1 missed =>
      rw [found] at missed
      cases missed
  case h_2 found' =>
      rw [found] at found'
      cases found'
      rfl

theorem readInside?_lineEnd (notQuote : c ≠ quote) (lineEnd : c = '\n' ∨ c = '\r') :
    readInside? quote (c :: rest) = none := by
  have plain : c ≠ '\\' := by
    rcases lineEnd with rfl | rfl <;> decide
  rw [readInside?, if_neg notQuote, if_neg plain, if_pos lineEnd]

theorem readInside?_plain (notQuote : c ≠ quote) (plain : c ≠ '\\') (inLine : ¬ (c = '\n' ∨ c = '\r')) :
    readInside? quote (c :: rest) =
      (readInside? quote rest).map (prepend (unitsOfCode c.toNat)) := by
  rw [readInside?, if_neg notQuote, if_neg plain, if_neg inLine]

end Reading

/-- What is read of a literal has the units of its own text if it holds no backslash, and fewer
otherwise. -/
theorem exists_inside {quote : Char} {text behind : List Char} {units : List CodeUnit}
    (read : readInside? quote text = some (units, behind)) :
    ∃ inside, text = inside ++ quote :: behind ∧
      if '\\' ∈ inside then units.length < (unitsOf inside).length else units = unitsOf inside := by
  fun_induction readInside? quote text generalizing units with
  | case1 => cases read
  | case2 rest =>
      obtain ⟨rfl, rfl⟩ := Prod.mk.inj (Option.some.inj read)
      exact ⟨[], rfl, by simp⟩
  | case3 => cases read
  | case4 rest escaped later found _ _ inductionHypothesis =>
      obtain ⟨⟨more, _⟩, isMore, made⟩ := Option.map_eq_some_iff.mp read
      obtain ⟨rfl, rfl⟩ := Prod.mk.inj made
      obtain ⟨inside, rfl, counted⟩ := inductionHypothesis isMore
      obtain ⟨used, rfl, -, few⟩ := shrinks_of_readEscape? found
      have notMore : more.length ≤ (unitsOf inside).length := by
        split at counted
        · exact Nat.le_of_lt counted
        · exact Nat.le_of_eq (congrArg List.length counted)
      refine ⟨'\\' :: (used ++ inside), by simp, ?_⟩
      have one : (unitsOfCode '\\'.toNat).length = 1 := rfl
      rw [if_pos List.mem_cons_self]
      simp only [unitsOf_cons, unitsOf_append, List.length_append, one]
      omega
  | case5 => cases read
  | case6 c rest _ plain _ inductionHypothesis =>
      obtain ⟨⟨more, _⟩, isMore, made⟩ := Option.map_eq_some_iff.mp read
      obtain ⟨rfl, rfl⟩ := Prod.mk.inj made
      obtain ⟨inside, rfl, counted⟩ := inductionHypothesis isMore
      refine ⟨c :: inside, rfl, ?_⟩
      have sameMembers : '\\' ∈ c :: inside ↔ '\\' ∈ inside := by
        simp [Ne.symm plain]
      simp only [sameMembers, unitsOf_cons, List.length_append]
      split at counted
      · rw [if_pos ‹_›]
        omega
      · rw [if_neg ‹_›, counted]

/-- A text is a string literal: its quotes, the text between them, and the string it denotes. -/
theorem exists_of_readLiteral? {text : List Char} {units : List CodeUnit}
    (read : readLiteral? text = some (units, [])) :
    ∃ quote inside, (quote = '"' ∨ quote = '\'') ∧ text = quote :: (inside ++ [quote]) ∧
      (unitsOf inside = units ↔ '\\' ∉ text) := by
  cases text with
  | nil => cases read
  | cons quote rest =>
      simp only [readLiteral?, Option.ite_none_right_eq_some] at read
      obtain ⟨isQuote, read⟩ := read
      obtain ⟨inside, rfl, counted⟩ := exists_inside read
      refine ⟨quote, inside, isQuote, rfl, ?_⟩
      have sameMembers : '\\' ∈ quote :: (inside ++ [quote]) ↔ '\\' ∈ inside := by
        rcases isQuote with rfl | rfl <;> simp
      rw [sameMembers]
      split at counted
      case isTrue escapes =>
          refine iff_of_false ?_ (not_not_intro escapes)
          rintro rfl
          exact Nat.lt_irrefl _ counted
      case isFalse plain => exact iff_of_true counted.symm plain

end PatternScript.Script
