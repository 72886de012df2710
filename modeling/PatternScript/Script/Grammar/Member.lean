import PatternScript.Script.Grammar.Goal

/-!
Contract: literals, functions and classes.

Owns: property names, parameters, methods, object and array literals, functions, classes and
decorators.
Does not own: arrow functions, which can only be told from parenthesized expressions.
-/

namespace PatternScript.Script.Grammar

open Reader

/-- A property name in brackets. -/
def computedName (self : Recursor) : Reader Node := do
  let start ← position
  punct "["
  let inner ← self .expression
  punct "]"
  finish .computedPropertyName start [inner]

/-- The name of a property. -/
def propertyName (self : Recursor) : Reader Node :=
  wordNode .propertyIdentifier <|> string <|> number <|> computedName self <|> privateName

/-! ## Parameters -/

/-- Tokens that can follow a parameter that starts with a name. -/
def followsParameterName (c : Char) : Bool :=
  ",)=.[?".toList.contains c

/-- The next tokens can start a parameter: an opening bracket, dots, or a name that is neither
called nor the parameter of an arrow function. -/
def atParameter : Reader Bool :=
  looks ((do
    skip
    let _ ← char fun c => c == '[' || c == '{') <|> punct "..." <|> do
      let _ ← word
      skip
      ensure (!(← atPunct "=>"))
      let _ ← char followsParameterName)

/-- One parameter. -/
def parameter (self : Recursor) : Reader Node := do
  ensure (← atParameter)
  let item ← spread self .element <|> self .element
  item.toElement?

/-- The parameters of a function. -/
def parameters (self : Recursor) : Reader Node := do
  let start ← position
  punct "("
  let items ← commaItems (parameter self)
  punct ")"
  let children ← (withoutHoles? items : Option (List Node))
  finish .formalParameters start children

/-! ## Decorators -/

/-- A decorator: a name with members, which may be called. -/
def decorator (self : Recursor) : Reader Node := do
  let start ← position
  punct "@"
  let first ← wordNode .identifier
  let path ← iterate (fun object => do
    punct "."
    let property ← wordNode .propertyIdentifier
    finish .memberExpression object.start [object, property.withRole .property]) first
  let applied ← maybe do
    let given ← argumentList self
    finish .callExpression path.start [path.withRole .function, given.withRole .arguments]
  finish .decorator start [applied.getD path]

/-! ## Methods and members -/

/-- A word that changes the meaning of the member name after it. It is a name itself if nothing
follows it that can be a member name. -/
def modifier (names : List String) : Reader String := do
  let found ← word
  ensure (names.contains found)
  match ← nextToken with
  | some c =>
      ensure (!"(:,=;\x7d".toList.contains c)
      return found
  | none => failure

/-- The parameters and the body of a method or function. -/
def functionRest (self : Recursor) : Reader (List Node) := do
  let given ← parameters self
  let body ← block self
  return [given, body]

/-- What stands before a member: decorators, and whether words changed its meaning. -/
structure MemberHead where
  decorators : List Node
  isStatic : Bool
  isMethod : Bool

/-- The head of a member. -/
def memberHead (self : Recursor) : Reader MemberHead := do
  let decorators ← many (decorator self)
  let isStatic ← maybe (modifier ["static"])
  let isAsync ← maybe (modifier ["async"])
  let accessor ← maybe ((do let _ ← modifier ["get", "set"]) <|> punct "*")
  return ⟨decorators, isStatic.isSome, isAsync.isSome || accessor.isSome⟩

/-- A member of an object literal. -/
def objectMember (self : Recursor) : Reader Node := do
  let start ← position
  let head ← memberHead self
  let name ← propertyName self
  if ← atPunct "(" then
    let rest ← functionRest self
    finish .methodDefinition start (head.decorators ++ (name :: rest))
  else
    ensure (head.decorators.isEmpty && !head.isStatic && !head.isMethod)
    if ← atPunct ":" then
      punct ":"
      let value ← self .element
      finish .pair start [name, value]
    else
      ensure (name.kind == .propertyIdentifier)
      if ← atPunct "=" then
        punct "="
        let value ← self .expression
        finish .objectAssignmentPattern start
          [name.withKind .shorthandPropertyIdentifierPattern, value]
      else return name.withKind .shorthandPropertyIdentifier

/-- An object literal. -/
def objectLiteral (self : Recursor) : Reader Node := do
  let start ← position
  punct "\x7b"
  let items ← commaItems (spread self .element <|> objectMember self)
  punct "\x7d"
  finish .object start (items.filterMap id)

/-- An array literal. -/
def arrayLiteral (self : Recursor) : Reader Node := do
  let start ← position
  punct "["
  let items ← commaItems (spread self .element <|> self .element)
  punct "]"
  finish .array start (items.filterMap id)

/-- A name or a destructuring pattern. -/
def bindingTarget (self : Recursor) : Reader Node :=
  wordNode .identifier <|> do
    let literal ← arrayLiteral self <|> objectLiteral self
    literal.toPattern?

/-- An equals sign and a value. -/
def initialValue (self : Recursor) : Reader Node := do
  punct "="
  self .expression

/-! ## Functions -/

/-- A function read at `start`, of which only the name may be missing. -/
def functionFrom (self : Recursor) (start : Nat) (isDeclaration : Bool) : Reader Node := do
  keyword "function"
  let star ← maybe (punct "*")
  let name ← maybe (wordNode .identifier)
  ensure (!isDeclaration || name.isSome)
  let rest ← functionRest self
  let kind : Kind :=
    match isDeclaration, star.isSome with
    | true, true => .generatorFunctionDeclaration
    | true, false => .functionDeclaration
    | false, true => .generatorFunction
    | false, false => .functionExpression
  finish kind start (name.toList ++ rest)

/-- The word `async`, if what follows it is on the same line. -/
def asyncHere : Reader Unit := do
  keyword "async"
  ensure (!(← atOmitted false))

/-- A function with or without `async`. -/
def functionNode (self : Recursor) (isDeclaration : Bool) : Reader Node := do
  let start ← position
  let _ ← maybe do
    asyncHere
    ensure (← atKeyword "function")
  functionFrom self start isDeclaration

/-! ## Classes -/

/-- A member of a class. -/
def classMember (self : Recursor) : Reader (List Node) := do
  if ← atPunct ";" then
    punct ";"
    return []
  let start ← position
  let head ← memberHead self
  if head.isStatic && !head.isMethod && (← atPunct "\x7b") then
    let body ← block self
    return [← finish .classStaticBlock start [body]]
  let name ← propertyName self
  if ← atPunct "(" then
    let rest ← functionRest self
    return [← finish .methodDefinition start (head.decorators ++ (name :: rest))]
  else
    ensure (!head.isMethod)
    let value ← maybe (initialValue self)
    let field ← finish .fieldDefinition start (head.decorators ++ (name :: value.toList))
    semicolon value.isNone
    return [field]

/-- The members of a class in braces. -/
def classBody (self : Recursor) : Reader Node := do
  let start ← position
  punct "\x7b"
  let members ← many (classMember self)
  punct "\x7d"
  finish .classBody start members.flatten

/-- The class after `extends`. -/
def classHeritage (self : Recursor) : Reader Node := do
  let start ← position
  keyword "extends"
  let base ← self .expression
  finish .classHeritage start [base]

/-- A class, of which only the name may be missing. -/
def classNode (self : Recursor) (isDeclaration : Bool) : Reader Node := do
  let start ← position
  let decorators ← many (decorator self)
  keyword "class"
  let name ← maybe do
    ensure (!(← atKeyword "extends"))
    wordNode .identifier
  ensure (!isDeclaration || name.isSome)
  let heritage ← maybe (classHeritage self)
  let body ← classBody self
  let kind : Kind := if isDeclaration then .classDeclaration else .classExpression
  finish kind start (decorators ++ name.toList ++ heritage.toList ++ [body])

end PatternScript.Script.Grammar
