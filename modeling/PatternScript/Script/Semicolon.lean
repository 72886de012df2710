import PatternScript.Script.Input

/-!
Contract: where a semicolon may be left out.

A semicolon may be left out at the end of the program, before a closing brace, and at a line end
unless the next token continues the statement. Whether a token continues the statement is decided
by its first characters alone. A comment on the way is first passed over and the question asked
again behind it; only where no operand stands before (`commentEnds`) does a comment that reaches a
line end count as that line end.

Owns: the decision on a text, and the reader for a semicolon that is written or left out.
Does not own: which statements end with a semicolon.
-/

namespace PatternScript.Script

/-- The end of the program reads as the null character. -/
def ahead (text : List Char) : Char :=
  text.headD '\x00'

/-- What separates two tokens. -/
inductive Gap where
  /-- A slash that starts no comment. -/
  | slash
  /-- Nothing but comments that end on the line they started on. -/
  | sameLine
  /-- Everything up to the next token. -/
  | passed
deriving DecidableEq

/-- The text behind the end of a block comment, and whether a line ended inside it. A comment that
is never closed reaches to the end. -/
def blockCommentEnd (sawLine : Bool) : List Char → Bool × List Char × Bool
  | [] => (false, [], sawLine)
  | '*' :: '/' :: rest => (true, rest, sawLine)
  | c :: rest =>
      if c = '\x00' then (false, c :: rest, sawLine)
      else blockCommentEnd (sawLine || isLineEnd c) rest

/-- Passes over blanks and comments. Unless `throughBlocks`, the first block comment that no slash
follows ends the search. -/
def passGap (throughBlocks : Bool) : (limit : Nat) → (sawLine : Bool) → List Char → Gap × List Char
  | 0, _, text => (.passed, text)
  | limit + 1, sawLine, text =>
      match text.dropWhile isPlainBlank with
      | '/' :: '/' :: rest =>
          passGap throughBlocks limit sawLine
            (rest.dropWhile fun c => !isLineEnd c && c != '\x00')
      | '/' :: '*' :: rest =>
          let (closed, after, sawLine) := blockCommentEnd sawLine rest
          if closed && ahead after != '/' && !throughBlocks then
            (if sawLine then .passed else .sameLine, after)
          else passGap throughBlocks limit sawLine after
      | '/' :: rest => (.slash, rest)
      | other => (.passed, other)

/-- The word `in` or `instanceof` at the start of a text, which continues an expression. -/
def startsRelation (text : List Char) : Bool :=
  match text with
  | 'i' :: 'n' :: rest =>
      if !(ahead rest).isAlpha then true
      else
        match stripStart? "stanceof".toList rest with
        | some after => !(ahead after).isAlpha
        | none => false
  | _ => false

/-- The next token, which stands on a later line, continues the statement. -/
def continuesStatement (text : List Char) : Bool :=
  match text with
  | '.' :: rest => !(ahead rest).isDigit
  | '+' :: rest => ahead rest != '+'
  | '-' :: rest => ahead rest != '-'
  | '!' :: rest => ahead rest == '='
  | c :: _ => "`,:;*%><=[(?^|&/".toList.contains c || startsRelation text
  | [] => false

/-- The decision behind a line end. -/
def endsAtLine (text : List Char) : Bool :=
  match passGap true (text.length + 1) false text with
  | (.slash, _) => false
  | (_, next) => !continuesStatement next

/-- A semicolon may be left out right at the start of a text. -/
def omitsSemicolonUpTo (commentEnds : Bool) : (limit : Nat) → List Char → Bool
  | 0, _ => false
  | limit + 1, text =>
      if ahead text = '\x00' then true
      else
        let (gap, here) :=
          if ahead text = '/' then passGap false (text.length + 1) false text
          else (.sameLine, text)
        match gap with
        | .slash => false
        | gap =>
            if gap = .passed && commentEnds && ahead here != ',' && ahead here != '=' then true
            else
              match here with
              | '}' :: _ => true
              | c :: rest =>
                  if isLineEnd c then endsAtLine rest
                  else if isPlainBlank c then omitsSemicolonUpTo commentEnds limit rest
                  else false
              | [] => false

/-- A semicolon may be left out right at the start of a text. -/
def omitsSemicolon (commentEnds : Bool) (text : List Char) : Bool :=
  omitsSemicolonUpTo commentEnds (text.length + 1) text

namespace Reader

/-- Fails if a semicolon may be left out right here. -/
def notOmitted (commentEnds : Bool) : Reader Unit := do
  ensure (!omitsSemicolon commentEnds (← unread))

/-- Passes over the comments behind which a semicolon may be left out, if there are such. -/
def passToOmitted (commentEnds : Bool) : Reader Unit :=
  iterate (fun _ => do notOmitted commentEnds; passSeparators; passComment) ()

/-- A semicolon may be left out here or behind comments. -/
def atOmitted (commentEnds : Bool) : Reader Bool := do
  looks do
    passToOmitted commentEnds
    ensure (omitsSemicolon commentEnds (← unread))

/-- The end of a statement: a semicolon, written or left out. One that is left out makes the
statement reach to the comments passed over. -/
def semicolon (commentEnds : Bool) : Reader Unit := do
  passToOmitted commentEnds
  if omitsSemicolon commentEnds (← unread) then
    modify fun input => { input with stop := input.offset }
  else
    skip
    exactly [';']

end Reader

end PatternScript.Script
