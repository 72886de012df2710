import PatternScript.Notation.Token
import PatternScript.Source.Offsets

/-!
Contract: the leaves of a notation text, the words an editor highlights while they sound.

A word is a leaf if it sounds and stands as a step. Words inside the parentheses of a euclidean
rhythm and words that are the operand of an operator do not stand as steps; an operand follows its
operator with nothing between them and is one word or one bracketed group. Texts that are not well
formed have leaves too: closing brackets need not match the opening ones, and a group that never
closes reaches to the end.

Owns: the leaves of a text and the leaves of the quoted regions of a text.
Does not own: which parts of a program are notation.
-/

namespace PatternScript.Notation

/-- What the search for leaves remembers between two lexemes. -/
structure Standing where
  /-- The byte just past the operator before, if the lexeme before is an operator. -/
  operatorStop : Option Nat := none
  /-- How many brackets are still open in a group that is left out. -/
  skipDepth : Nat := 0
deriving DecidableEq, Repr

/-- Depth after one lexeme of a group that is left out. -/
def skipLexeme (depth : Nat) (token : Token) : Nat :=
  if token.opens then depth + 1 else if token.closes then depth - 1 else depth

/-- The lexemes that are leaves, in order. -/
def leafLexemes (standing : Standing) : List Lexeme → List Lexeme
  | [] => []
  | lexeme :: rest =>
      if standing.skipDepth > 0 then
        leafLexemes { standing with skipDepth := skipLexeme standing.skipDepth lexeme.token } rest
      else
        let isOperand := standing.operatorStop == some lexeme.start
        if lexeme.token = .openEuclid ∨ (lexeme.token.opens ∧ isOperand) then
          leafLexemes { skipDepth := 1 } rest
        else if lexeme.token.isOperator then
          leafLexemes { operatorStop := some lexeme.stop } rest
        else if lexeme.token = .word ∧ ¬ isOperand ∧ isSounding lexeme.text then
          lexeme :: leafLexemes {} rest
        else leafLexemes {} rest

/-- The spans of the leaves of a text whose first character has the given offset. -/
def leafSpans (code : List Char) (offset : Nat) : List Span :=
  let index := OffsetIndex.ofText code
  (leafLexemes {} (lexemes code)).map fun lexeme => (index.span lexeme.range).shift offset

/-- The elements of a list two by two; a last one without a partner is dropped. -/
def pairUp {α : Type} : List α → List (α × α)
  | first :: second :: rest => (first, second) :: pairUp rest
  | _ => []

/-- The byte ranges of the quoted regions of a text, quotes included. Quotes pair up in order. -/
def quotedRanges (code : List Char) : List ByteRange :=
  let quotes := (lexemes code).filter fun lexeme => lexeme.token = .quote
  (pairUp quotes).map fun (opening, closing) => ⟨opening.start, closing.stop⟩

/-- The spans of the leaves of every quoted region of a text whose first character has the given
offset. -/
def quotedSpans (code : List Char) (offset : Nat) : List Span :=
  let index := OffsetIndex.ofText code
  (quotedRanges code).flatMap fun region =>
    leafSpans (Text.slice code region) (offset + index.charOffset region.start)

end PatternScript.Notation
