/-!
Contract: text as a string literal.

A double-quoted literal escapes the quote, the backslash and every control character below the
space, so it stays on one line. A single-quoted literal escapes the quote and the backslash only.

Owns: writing both literals.
Does not own: reading them.
-/

namespace PatternScript.Text

/-- A hexadecimal digit in lower case. -/
def hexDigit (value : Nat) : Char :=
  Nat.digitChar (value % 16)

/-- A character inside double quotes. -/
def escapeDouble (c : Char) : List Char :=
  if c = '"' then ['\\', '"']
  else if c = '\\' then ['\\', '\\']
  else if c = '\n' then ['\\', 'n']
  else if c = '\r' then ['\\', 'r']
  else if c = '\t' then ['\\', 't']
  else if c = '\x08' then ['\\', 'b']
  else if c = '\x0c' then ['\\', 'f']
  else if c.toNat < 0x20 then
    ['\\', 'u', '0', '0', hexDigit (c.toNat / 16), hexDigit c.toNat]
  else [c]

/-- A text in double quotes. -/
def quoteDouble (text : List Char) : List Char :=
  '"' :: text.flatMap escapeDouble ++ ['"']

/-- A character inside single quotes. -/
def escapeSingle (c : Char) : List Char :=
  if c = '\'' ∨ c = '\\' then ['\\', c] else [c]

/-- A text in single quotes. -/
def quoteSingle (text : List Char) : List Char :=
  '\'' :: text.flatMap escapeSingle ++ ['\'']

end PatternScript.Text
