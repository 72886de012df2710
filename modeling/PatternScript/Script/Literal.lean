import PatternScript.Script.Input

/-!
Contract: the words, numbers, strings, regular expressions and punctuators of JavaScript.

Owns: one reader for each class of token. Each of them first passes over what may stand before a
token, and takes the longest token of its class.
Does not own: template literals and markup, which hold expressions.
-/

namespace PatternScript.Script

namespace Reader

/-! ## Words -/

/-- One character of a name, written as itself or by its code. -/
def nameCharacter (accepts : Char → Bool) : Reader (List Char) :=
  (do return [← char accepts]) <|>
  (do
    exactly ['\\', 'u']
    let a ← char isHexDigit
    let b ← char isHexDigit
    let c ← char isHexDigit
    let d ← char isHexDigit
    return ['\\', 'u', a, b, c, d]) <|>
  (do
    exactly ['\\', 'u', '{']
    let first ← char isHexDigit
    let more ← chars isHexDigit
    exactly ['}']
    return ['\\', 'u', '{'] ++ (first :: more) ++ ['}'])

/-- A name right here, with nothing passed over. -/
def nameHere : Reader String := do
  let first ← nameCharacter isNameStart
  let more ← many (nameCharacter isNamePart)
  return String.ofList (first ++ more.flatten)

/-- A name or keyword. -/
def word : Reader String := do
  skip
  nameHere

/-- The given word. -/
def keyword (expected : String) : Reader Unit := do
  ensure ((← word) == expected)

/-- A word as a node. -/
def wordNode (kind : Kind) : Reader Node := do
  let start ← position
  let _ ← word
  finish kind start []

/-- A private name, which a number sign starts. -/
def privateName : Reader Node := do
  let start ← position
  exactly ['#']
  let _ ← nameHere
  finish .privatePropertyIdentifier start []

/-! ## Numbers -/

/-- Digits of a class, with single underscores between them. -/
def digits (accepts : Char → Bool) : Reader (List Char) := do
  let first ← char accepts
  let more ← many do
    let _ ← maybe (exactly ['_'])
    char accepts
  return first :: more

/-- An integer in another base than ten. -/
def basedInteger (small large : Char) (accepts : Char → Bool) : Reader Unit := do
  exactly ['0']
  let _ ← char fun c => c == small || c == large
  let _ ← digits accepts
  let _ ← maybe (exactly ['n'])

/-- The exponent of a decimal number. -/
def exponent : Reader Unit := do
  let _ ← char fun c => c == 'e' || c == 'E'
  let _ ← maybe (char fun c => c == '+' || c == '-')
  let _ ← digits Char.isDigit

/-- Whole digits that a fraction or an exponent may follow: a lone zero, or digits of which the
first or the second is not zero. -/
def takesFraction : List Char → Bool
  | ['0'] => true
  | '0' :: c :: _ => c != '0'
  | _ => true

/-- A decimal number. -/
def decimalNumber : Reader Unit :=
  (do
    exactly ['.']
    let _ ← digits Char.isDigit
    let _ ← maybe exponent) <|>
  (do
    let whole ← digits Char.isDigit
    let _ ← maybe do
      exactly ['n'] <|> do
        ensure (takesFraction whole)
        (do
          exactly ['.']
          let _ ← maybe (digits Char.isDigit)
          let _ ← maybe exponent) <|> exponent)

/-- A number. -/
def number : Reader Node := do
  let start ← position
  basedInteger 'x' 'X' isHexDigit <|> basedInteger 'o' 'O' isOctalDigit <|>
    basedInteger 'b' 'B' isBinaryDigit <|> decimalNumber
  finish .number start []

/-! ## Strings -/

/-- A backslash and what it escapes. -/
def escape : Reader Unit := do
  exactly ['\\']
  (do
    let _ ← char fun c => c == '\r' || c == '?'
    let _ ← char isLineEnd) <|>
  (do
    let _ ← char fun c => c != 'x' && c != 'u' && !isOctalDigit c) <|>
  (do
    let _ ← char isOctalDigit
    let _ ← maybe do
      let _ ← char isOctalDigit
      maybe (char isOctalDigit)) <|>
  (do
    exactly ['x']
    let _ ← char isHexDigit
    let _ ← char isHexDigit) <|>
  (do
    exactly ['u', '{']
    let _ ← char isHexDigit
    let _ ← chars isHexDigit
    exactly ['}']) <|>
  (do
    exactly ['u']
    let _ ← char isHexDigit
    let _ ← char isHexDigit
    let _ ← char isHexDigit
    let _ ← char isHexDigit)

/-- One piece of a string between its quotes: characters that stand for themselves, an escape, or
a comment behind a line end. -/
def stringPiece (quote : Char) : Reader Unit :=
  let isPlain := fun c => c != quote && c != '\\' && c != '\r' && c != '\n'
  (do
    let _ ← char isPlain
    let _ ← chars isPlain) <|>
  escape <|>
  (do
    passSeparators
    passComment)

/-- A string literal. Nothing but separators may stand between a line end inside it and the
closing quote. -/
def string : Reader Node := do
  let start ← position
  let quote ← char fun c => c == '"' || c == '\''
  let _ ← many (stringPiece quote)
  passSeparators
  exactly [quote]
  finish .string start []

/-! ## Regular expressions -/

/-- An escaped character of a regular expression. -/
def regexEscape : Reader Unit := do
  exactly ['\\']
  let _ ← char (· != '\n')

/-- A character class of a regular expression. -/
def regexClass : Reader Unit := do
  exactly ['[']
  let _ ← many (regexEscape <|> do
    let _ ← char fun c => c != ']' && c != '\n' && c != '\\')
  exactly [']']

/-- A regular expression literal. -/
def regex : Reader Node := do
  let start ← position
  exactly ['/']
  let pieces ← many (regexClass <|> regexEscape <|> do
    let _ ← char fun c => c != '/' && c != '\\' && c != '[' && c != '\n')
  ensure !pieces.isEmpty
  exactly ['/']
  let _ ← chars fun c => 'a' ≤ c && c ≤ 'z'
  finish .regex start []

/-! ## Punctuators -/

/-- The punctuators, longer ones before those they start with. -/
def punctuators : List String :=
  [">>>=", "...", "===", "!==", "**=", "<<=", ">>=", ">>>", "&&=", "||=", "??=",
    "=>", "==", "!=", "<=", ">=", "&&", "||", "??", "?.", "++", "--", "+=", "-=", "*=", "/=",
    "%=", "&=", "|=", "^=", "<<", ">>", "**",
    "\x7b", "\x7d", "(", ")", "[", "]", ";", ",", "<", ">", "=", "+", "-", "*", "/", "%", "&",
    "|", "^", "!", "~", "?", ":", ".", "@"]

/-- The longest of some punctuators that a text starts with. A question mark before a decimal
fraction is not the mark of an optional chain. -/
def longestPunctuator? (text : List Char) : Option String :=
  punctuators.find? fun candidate =>
    match stripStart? candidate.toList text with
    | some (c :: _) => !(candidate == "?." && c.isDigit)
    | some [] => true
    | none => false

/-- A punctuator. -/
def punctuator : Reader String := do
  skip
  match longestPunctuator? (← unread) with
  | some found =>
      exactly found.toList
      return found
  | none => failure

/-- The given punctuator. -/
def punct (expected : String) : Reader Unit := do
  ensure ((← punctuator) == expected)

/-- The next token is the given punctuator. -/
def atPunct (expected : String) : Reader Bool :=
  looks (punct expected)

/-- The next token is the given word. -/
def atKeyword (expected : String) : Reader Bool :=
  looks (keyword expected)

/-- The next character that starts a token, without reading anything. -/
def nextToken : Reader (Option Char) := fun input =>
  match (do skip; peek : Reader (Option Char)) input with
  | some (c, _) => some (c, input)
  | none => some (none, input)

/-- The next word, without reading anything. -/
def nextWord : Reader (Option String) := fun input =>
  match word input with
  | some (found, _) => some (some found, input)
  | none => some (none, input)

end Reader

end PatternScript.Script
