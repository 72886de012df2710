import PatternScript.Text.Blank

/-!
Contract: the character classes of JavaScript program text.

Owns: the characters that may stand between tokens, line ends, and the characters of names and
numbers.
Does not own: how characters group into tokens.
-/

namespace PatternScript.Script

/-- Characters that may stand anywhere between two tokens: blanks, the byte order mark, the word
joiner and the zero-width space. -/
def isSeparator (c : Char) : Bool :=
  Text.isBlank c || c == '\uFEFF' || c == '\u2060' || c == '\u200B'

/-- Characters at which a line of program text ends. A carriage return alone does not end one. -/
def isLineEnd (c : Char) : Bool :=
  c == '\n' || c == '\u2028' || c == '\u2029'

/-- The ASCII blanks, which are the only ones that the search for an omitted semicolon passes. -/
def isPlainBlank (c : Char) : Bool :=
  c == ' ' || (0x09 ≤ c.toNat && c.toNat ≤ 0x0D)

/-- Characters that are punctuation wherever they stand outside a literal. -/
def isPunctuation (c : Char) : Bool :=
  ":;`\"'@#.,|^&<=>+-*/\\%?!~()[]\x7b\x7d".toList.contains c

/-- Characters a name can continue with. -/
def isNamePart (c : Char) : Bool :=
  0x20 ≤ c.toNat && !isSeparator c && !isPunctuation c

/-- Characters a name can start with. -/
def isNameStart (c : Char) : Bool :=
  isNamePart c && !c.isDigit

/-- Hexadecimal digits. -/
def isHexDigit (c : Char) : Bool :=
  c.isDigit || ('a' ≤ c && c ≤ 'f') || ('A' ≤ c && c ≤ 'F')

/-- Octal digits. -/
def isOctalDigit (c : Char) : Bool :=
  '0' ≤ c && c ≤ '7'

/-- Binary digits. -/
def isBinaryDigit (c : Char) : Bool :=
  c == '0' || c == '1'

end PatternScript.Script
