import PatternScript.Script.Node
import PatternScript.Script.Character
import PatternScript.Source.Bytes

/-!
Contract: reading program text from left to right.

A reader takes the unread text and either fails or answers with a value and what is left. The unread
text keeps its byte offset, the end of the last token, and the comments passed over so far, so that
a failed attempt leaves no trace: the alternative starts from the unread text it was given.

Owns: the state of a reading, the elementary readers, repetition, and what is skipped between
tokens.
Does not own: any token of the language.
-/

namespace PatternScript.Script

/-- What is left to read, and what is known about what has been read. -/
structure Input where
  /-- The unread text. -/
  rest : List Char
  /-- The byte offset of the unread text. -/
  offset : Nat
  /-- The byte just past the last token. -/
  stop : Nat
  /-- The comments passed over, the latest first. -/
  comments : List Node

namespace Input

/-- Nothing has been read yet. -/
def ofChars (chars : List Char) : Input :=
  { rest := chars, offset := 0, stop := 0, comments := [] }

/-- The input after `chars`, which are the first unread characters, as part of a token. -/
def consume (input : Input) (chars rest : List Char) : Input :=
  let offset := input.offset + Text.byteLength chars
  { input with rest := rest, offset := offset, stop := offset }

/-- The input after separators, which are the first unread characters. -/
def pass (input : Input) (chars rest : List Char) : Input :=
  { input with rest := rest, offset := input.offset + Text.byteLength chars }

end Input

/-- A reader fails, or answers with a value and the input that is left. -/
abbrev Reader := StateT Input Option

/-- The rest of a text after a given start, if the text has that start. -/
def stripStart? : (start text : List Char) → Option (List Char)
  | [], text => some text
  | _ :: _, [] => none
  | c :: start, d :: text => if c = d then stripStart? start text else none

/-- The text before and after the first occurrence of a mark; the mark goes to the first part. -/
def splitPast? (mark : List Char) : List Char → Option (List Char × List Char)
  | [] => none
  | c :: rest =>
      match stripStart? mark (c :: rest) with
      | some after => some (mark, after)
      | none =>
          match splitPast? mark rest with
          | some (before, after) => some (c :: before, after)
          | none => none

/-- The comment at the start of a text, if there is one, and the text after it. -/
def commentAt? (text : List Char) : Option (List Char × List Char) :=
  match text with
  | '/' :: '/' :: rest =>
      let isInside := fun c => !isLineEnd c && c != '\r'
      some ('/' :: '/' :: rest.takeWhile isInside, rest.dropWhile isInside)
  | '/' :: '*' :: rest =>
      match splitPast? ['*', '/'] rest with
      | some (body, after) => some ('/' :: '*' :: body, after)
      | none => none
  | _ => none

/-- The remark at the start of a text that hides the rest of a line from old browsers, if there is
one, and the text after it. -/
def htmlCommentAt? (text : List Char) : Option (List Char × List Char) :=
  let isInside := fun c => !isLineEnd c
  match text with
  | '<' :: '!' :: '-' :: '-' :: _ | '-' :: '-' :: '>' :: _ =>
      some (text.takeWhile isInside, text.dropWhile isInside)
  | _ => none

namespace Reader

/-- The next character without reading it. -/
def peek : Reader (Option Char) := do
  return (← get).rest.head?

/-- The unread text. -/
def unread : Reader (List Char) := do
  return (← get).rest

/-- Succeeds if the condition holds. -/
def ensure (condition : Bool) : Reader Unit :=
  if condition then pure () else failure

/-- One character of a class. -/
def char (accepts : Char → Bool) : Reader Char := fun input =>
  match input.rest with
  | c :: rest => if accepts c then some (c, input.consume [c] rest) else none
  | [] => none

/-- As many characters of a class as there are. -/
def chars (accepts : Char → Bool) : Reader (List Char) := fun input =>
  let taken := input.rest.takeWhile accepts
  some (taken, input.consume taken (input.rest.dropWhile accepts))

/-- Exactly the given characters. -/
def exactly (text : List Char) : Reader Unit := fun input =>
  match stripStart? text input.rest with
  | some rest => some ((), input.consume text rest)
  | none => none

/-- The answer of a reader, or `none` with nothing read. -/
def maybe {α : Type} (reader : Reader α) : Reader (Option α) := fun input =>
  match reader input with
  | some (value, next) => some (some value, next)
  | none => some (none, input)

/-- Whether a reader would succeed; nothing is read. -/
def looks {α : Type} (reader : Reader α) : Reader Bool := fun input =>
  some ((reader input).isSome, input)

/-- Applies a step until it fails, at most `limit` times. -/
def iterateUpTo {α : Type} (step : α → Reader α) : (limit : Nat) → α → Reader α
  | 0, value => pure value
  | limit + 1, value => fun input =>
      match step value input with
      | some (changed, next) => iterateUpTo step limit changed next
      | none => some (value, input)

/-- Applies a step until it fails. Every step reads something, so the number of unread characters
bounds the number of steps. -/
def iterate {α : Type} (step : α → Reader α) (value : α) : Reader α := fun input =>
  iterateUpTo step input.rest.length value input

/-- The answers of a reader that is applied until it fails. -/
def many {α : Type} (reader : Reader α) : Reader (List α) := do
  let reversed ← iterate (fun values => return (← reader) :: values) []
  return reversed.reverse

/-- Passes over separators. -/
def passSeparators : Reader Unit := fun input =>
  let passed := input.rest.takeWhile isSeparator
  some ((), input.pass passed (input.rest.dropWhile isSeparator))

/-- Passes over one comment and keeps it. -/
def passComment : Reader Unit := fun input =>
  match commentAt? input.rest with
  | some (text, rest) =>
      let next := input.pass text rest
      let comment := Node.mk .comment none ⟨input.offset, next.offset⟩ []
      some ((), { next with comments := comment :: next.comments })
  | none => none

/-- Passes over one remark that hides the rest of a line from old browsers, and keeps it. -/
def passHtmlComment : Reader Unit := fun input =>
  match htmlCommentAt? input.rest with
  | some (text, rest) =>
      let next := input.pass text rest
      let comment := Node.mk .htmlComment none ⟨input.offset, next.offset⟩ []
      some ((), { next with comments := comment :: next.comments })
  | none => none

/-- Passes over everything that may stand between two tokens after an operand. -/
def skip : Reader Unit := do
  passSeparators
  iterate (fun _ => do passComment; passSeparators) ()

/-- Passes over everything that may stand between two tokens before an operand or a statement. -/
def skipBefore : Reader Unit := do
  passSeparators
  iterate (fun _ => do (passComment <|> passHtmlComment); passSeparators) ()

/-- The byte offset at which the next token starts. -/
def position : Reader Nat := do
  skip
  return (← get).offset

/-- A node from a byte offset to the end of the last token. -/
def finish (kind : Kind) (start : Nat) (children : List Node) : Reader Node := do
  return .mk kind none ⟨start, (← get).stop⟩ children

end Reader

end PatternScript.Script
