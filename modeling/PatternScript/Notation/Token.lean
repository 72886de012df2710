import PatternScript.Text.Blank
import PatternScript.Source.Bytes

/-!
Contract: the tokens of pattern notation.

A notation text is a run of step words, brackets, separators, quotes and operators with blanks
between them. Every text has tokens: the only character that belongs to none of the classes is a
backslash with nothing to escape, and it is a token of its own.

Owns: the token classes, the lexemes of a text with their byte ranges, and which words sound.
Does not own: which words stand as steps.
-/

namespace PatternScript.Notation

/-- The classes of tokens. -/
inductive Token where
  | openSequence
  | closeSequence
  | openAlternation
  | closeAlternation
  | openPolymeter
  | closePolymeter
  | openEuclid
  | closeEuclid
  | comma
  | choice
  | quote
  | fast
  | slow
  | elongate
  | replicate
  | degrade
  | steps
  | word
  | strayBackslash
deriving DecidableEq, Repr

namespace Token

/-- The token that a character is on its own, if it is one. -/
def ofChar? : Char → Option Token
  | '[' => some .openSequence
  | ']' => some .closeSequence
  | '<' => some .openAlternation
  | '>' => some .closeAlternation
  | '{' => some .openPolymeter
  | '}' => some .closePolymeter
  | '(' => some .openEuclid
  | ')' => some .closeEuclid
  | ',' => some .comma
  | '|' => some .choice
  | '"' => some .quote
  | '*' => some .fast
  | '/' => some .slow
  | '@' => some .elongate
  | '!' => some .replicate
  | '?' => some .degrade
  | '%' => some .steps
  | _ => none

/-- The token opens a group. -/
def opens : Token → Bool
  | .openSequence | .openAlternation | .openPolymeter | .openEuclid => true
  | _ => false

/-- The token closes a group. -/
def closes : Token → Bool
  | .closeSequence | .closeAlternation | .closePolymeter | .closeEuclid => true
  | _ => false

/-- The token modifies the step before it and takes an operand. -/
def isOperator : Token → Bool
  | .fast | .slow | .elongate | .replicate | .degrade | .steps => true
  | _ => false

end Token

/-- A token of a text, with the characters it consists of and the byte at which it starts. -/
structure Lexeme where
  token : Token
  start : Nat
  text : List Char
deriving DecidableEq, Repr

namespace Lexeme

/-- The byte just past the lexeme. -/
def stop (lexeme : Lexeme) : Nat :=
  lexeme.start + Text.byteLength lexeme.text

/-- The bytes of the lexeme. -/
def range (lexeme : Lexeme) : ByteRange :=
  ⟨lexeme.start, lexeme.stop⟩

end Lexeme

/-- Puts characters that belong to a word before lexemes that start at byte `next`: they extend the
word that starts there, or are a word of their own. -/
def prependWord (start next : Nat) (chars : List Char) : List Lexeme → List Lexeme
  | [] => [⟨.word, start, chars⟩]
  | lexeme :: more =>
      if lexeme.token = .word ∧ lexeme.start = next then
        ⟨.word, start, chars ++ lexeme.text⟩ :: more
      else ⟨.word, start, chars⟩ :: lexeme :: more

/-- The lexemes of a text whose first byte is `start`. A backslash and the character after it
belong to a word, unless that character is a line feed. -/
def lexemesFrom (start : Nat) : List Char → List Lexeme
  | [] => []
  | ['\\'] => [⟨.strayBackslash, start, ['\\']⟩]
  | '\\' :: c :: rest =>
      if c = '\n' then ⟨.strayBackslash, start, ['\\']⟩ :: lexemesFrom (start + 2) rest
      else
        let next := start + ('\\'.utf8Size + c.utf8Size)
        prependWord start next ['\\', c] (lexemesFrom next rest)
  | c :: rest =>
      let next := start + c.utf8Size
      if Text.isBlank c then lexemesFrom next rest
      else
        match Token.ofChar? c with
        | some token => ⟨token, start, [c]⟩ :: lexemesFrom next rest
        | none => prependWord start next [c] (lexemesFrom next rest)

/-- The lexemes of a text. -/
def lexemes (text : List Char) : List Lexeme :=
  lexemesFrom 0 text

/-- A step word sounds unless it is a rest or only fills time. -/
def isSounding (word : List Char) : Bool :=
  word != ['~'] && word != ['-'] && !word.all (fun c => c == '.' || c == '_')

end PatternScript.Notation
