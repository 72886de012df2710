import PatternScript.Script.Grammar.Goal

/-!
Contract: markup elements inside a program.

Owns: elements with their tags, attributes and contents. The names of an opening and a closing tag
are not compared.
Does not own: the expressions in braces.
-/

namespace PatternScript.Script.Grammar

open Reader

/-- Letters, digits, underscores and dollar signs. -/
def isTagPart (c : Char) : Bool :=
  c.isAlpha || c.isDigit || c == '_' || c == '$'

/-- A name with at least one dash. -/
def dashedName : Reader Unit := do
  let _ ← char fun c => isTagPart c && !c.isDigit
  let _ ← chars isTagPart
  exactly ['-']
  let _ ← chars fun c => isTagPart c || c == '-'

/-- The name of a tag or an attribute, without a colon or a dot. -/
def tagWord (kind : Kind) : Reader Node := do
  let start ← position
  dashedName <|> do let _ ← nameHere
  finish kind start []

/-- Two names joined by a colon. -/
def namespacedName : Reader Node := do
  let start ← position
  let space ← tagWord .identifier
  punct ":"
  let name ← tagWord .identifier
  finish .jsxNamespaceName start [space, name]

/-- Names joined by dots. -/
def dottedName : Reader Node := do
  let first ← wordNode .identifier
  ensure (← atPunct ".")
  iterate (fun object => do
    punct "."
    let property ← wordNode .propertyIdentifier
    finish .memberExpression object.start [object, property.withRole .property]) first

/-- The name of a tag. -/
def tagName : Reader Node :=
  namespacedName <|> dottedName <|> tagWord .identifier

/-- A reference to a character by its name or number. -/
def characterReference : Reader Node := do
  let start := (← get).offset
  exactly ['&']
  let named : Reader Unit := do
    let name ← chars Char.isAlpha
    ensure (!name.isEmpty && name.length ≤ 30)
  let hexadecimal : Reader Unit := do
    exactly ['#']
    let _ ← char fun c => c == 'x' || c == 'X'
    let code ← chars isHexDigit
    ensure (!code.isEmpty && code.length ≤ 6)
  let decimal : Reader Unit := do
    exactly ['#']
    let code ← chars Char.isDigit
    ensure (!code.isEmpty && code.length ≤ 5)
  hexadecimal <|> decimal <|> named
  exactly [';']
  finish .htmlCharacterReference start []

/-- One piece of an attribute string. An ampersand is plain unless a reference could start there. -/
def attributeStringPiece (quote : Char) : Reader Unit :=
  (do
    let _ ← char fun c => c != quote && c != '&') <|>
  (do
    exactly ['&']
    let _ ← char fun c => c != '#' && !c.isAlpha) <|>
  (do let _ ← characterReference)

/-- The string value of an attribute. It has no escapes. -/
def attributeString : Reader Node := do
  let start ← position
  let quote ← char fun c => c == '"' || c == '\''
  let _ ← many (attributeStringPiece quote)
  exactly [quote]
  finish .string start []

/-- An expression in braces, which may be absent. -/
def embedded (self : Recursor) : Reader Node := do
  let start ← position
  punct "\x7b"
  let inner ← maybe (spread self .expression <|> expressions self)
  skip
  punct "\x7d"
  finish .jsxExpression start inner.toList

/-- An attribute with or without a value. -/
def markupAttribute (self : Recursor) : Reader Node := do
  let start ← position
  let name ← namespacedName <|> tagWord .propertyIdentifier
  let value ← maybe do
    skip
    exactly ['=']
    attributeString <|> embedded self <|> self .markup
  finish .jsxAttribute start (name :: value.toList)

/-- Text between tags. White space counts as text unless it starts with a line end. -/
def markupText : Reader Node := do
  let start := (← get).offset
  let text ← chars fun c => !"<>\x7b\x7d&".toList.contains c
  let lines := (String.ofList text).splitOn "\n"
  match lines with
  | [] => failure
  | first :: more =>
      ensure (!first.isEmpty || more.any fun line => line.toList.any fun c => !isPlainBlank c)
      finish .jsxText start []

/-- A piece of the contents of an element. -/
def markupChild (self : Recursor) : Reader Node :=
  markupText <|> characterReference <|>
  (do
    skip
    embedded self <|> characterReference <|> self .markup)

/-- A closing tag. -/
def closingTag : Reader Node := do
  let start ← position
  exactly ['<', '/']
  let name ← maybe tagName
  skip
  exactly ['>']
  finish .jsxClosingElement start name.toList

/-- A markup element. -/
def markupElement (self : Recursor) : Reader Node := do
  let start ← position
  exactly ['<']
  let name ← maybe tagName
  let attributes ←
    if name.isSome then many (markupAttribute self <|> embedded self) else pure []
  let parts := name.toList ++ attributes
  skip
  if name.isSome && (← looks (exactly ['/', '>'])) then
    exactly ['/', '>']
    finish .jsxSelfClosingElement start parts
  else
    exactly ['>']
    let opening ← finish .jsxOpeningElement start parts
    let contents ← many (markupChild self)
    let closing ← closingTag
    finish .jsxElement start (opening :: contents ++ [closing])

end PatternScript.Script.Grammar
