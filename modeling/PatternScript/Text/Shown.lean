import PatternScript.Text.GraphemeExtend
import PatternScript.Text.Printable
import PatternScript.Text.Quoted

/-!
Contract: text in double quotes as it is shown to a developer.

Everything that cannot be seen by itself is written as an escape: quotes and backslashes, the
usual control characters by a letter, all others by their code point.

Owns: the shown form.
Does not own: string literals of a program or of a data format.
-/

namespace PatternScript.Text

/-- A code point in hexadecimal digits. -/
def codeEscape (c : Char) : List Char :=
  "\\u\x7b".toList ++ Nat.toDigits 16 c.toNat ++ ['\x7d']

/-- A character of a shown text. -/
def showChar (c : Char) : List Char :=
  match c with
  | '\x00' => ['\\', '0']
  | '\t' => ['\\', 't']
  | '\r' => ['\\', 'r']
  | '\n' => ['\\', 'n']
  | '"' => ['\\', '"']
  | '\\' => ['\\', '\\']
  | _ => if isGraphemeExtend c || !isPrintable c then codeEscape c else [c]

/-- A text as it is shown. -/
def shown (text : String) : String :=
  String.ofList ('"' :: text.toList.flatMap showChar ++ ['"'])

end PatternScript.Text
