import PatternScript.Script.Grammar.Member
import PatternScript.Script.Grammar.Markup

/-!
Contract: expressions.

An operand is a primary expression with the accesses and calls that follow it, or something that a
prefix operator starts. Arrow functions, assignments and `yield` reach as far to the right as they
can, and may stand as operands of any operator. Binary operators are read by precedence climbing.

Owns: primary expressions, chains of accesses and calls, operators, and the choice between an
object literal and a block.
Does not own: statements.
-/

namespace PatternScript.Script.Grammar

open Reader

/-! ## Words with a meaning of their own -/

/-- Words that start an expression and are never names there. -/
def expressionKeywords : List String :=
  ["await", "class", "delete", "false", "function", "import", "new", "null", "super", "this",
    "true", "typeof", "undefined", "void", "yield"]

/-- Words that start a statement and are never names there. -/
def statementKeywords : List String :=
  expressionKeywords ++
    ["break", "const", "continue", "debugger", "do", "for", "if", "return", "switch", "throw",
      "try", "var", "while", "with"]

/-- The kind of a word that is an expression on its own. -/
def leafKind? : String → Option Kind
  | "this" => some .thisExpression
  | "super" => some .superExpression
  | "true" => some .trueLiteral
  | "false" => some .falseLiteral
  | "null" => some .nullLiteral
  | "undefined" => some .undefined
  | _ => none

/-! ## Braces -/

/-- The next token can start a property name. -/
def atPropertyName : Reader Bool := do
  match ← nextToken with
  | some c => return isNameStart c || c.isDigit || "\"'[#*\\".toList.contains c
  | none => return false

/-- The next brace opens what may be an object literal where a block may stand too. It is certainly
a block if it is empty or starts with a statement, and also if it starts with a name that could be
a property but stands alone. -/
def opensObject : Reader Bool :=
  looks do
    skip
    exactly ['{']
    match ← nextWord with
    | some name =>
        ensure (!statementKeywords.contains name)
        let _ ← word
        if ["get", "set", "async", "static"].contains name && (← atPropertyName) then pure ()
        else ensure ((← atPunct ":") || (← atPunct "(") || (← atPunct "="))
    | none =>
        match ← nextToken with
        | some c => ensure ("\"'0123456789.[*#,@".toList.contains c)
        | none => failure

/-- The body of an arrow function. -/
def arrowBody (self : Recursor) : Reader Node := do
  punct "=>"
  skipBefore
  if (← peek) == some '{' then
    if ← opensObject then self .expression <|> block self else block self
  else self .expression

/-- An arrow function whose parameters have been read. -/
def arrowFrom (self : Recursor) (start : Nat) (given : Node) : Reader Node := do
  let body ← arrowBody self
  finish .arrowFunction start [given, body]

/-! ## Primary expressions -/

/-- Parameters in parentheses, as read for expressions. -/
def asParameters? (start stop : Nat) (items : List (Option Node)) : Option Node := do
  let given ← withoutHoles? items
  let children ← Node.toElements? given
  return .mk .formalParameters none ⟨start, stop⟩ children

/-- Expressions in parentheses, or an arrow function. -/
def group (self : Recursor) : Reader Node := do
  let start ← position
  punct "("
  let items ← commaItems (spread self .element <|> self .element)
  punct ")"
  if ← atPunct "=>" then
    let given ← asParameters? start (← get).stop items
    arrowFrom self start given
  else
    match items with
    | some first :: more =>
        let more ← (more.mapM id : Option (List Node))
        let all := first :: more
        ensure (all.all fun item => item.kind != .spreadElement && !item.isPending)
        let stop := (all.getLast?.getD first).stop
        let inner :=
          if more.isEmpty then first
          else Node.mk .sequenceExpression none ⟨first.start, stop⟩ all
        finish .parenthesizedExpression start [inner]
    | _ => failure

/-- A name, or an arrow function with one parameter. -/
def nameOrArrow (self : Recursor) : Reader Node := do
  let name ← wordNode .identifier
  if ← atPunct "=>" then arrowFrom self name.start name else return name

/-- The word `async` with parentheses behind it: an arrow function, or a call of that name. -/
def asyncCall (self : Recursor) : Reader Node := do
  let name ← wordNode .identifier
  let opening ← position
  punct "("
  let items ← commaItems (spread self .element <|> self .element)
  punct ")"
  let close := (← get).stop
  if ← atPunct "=>" then
    let given ← asParameters? opening close items
    arrowFrom self name.start given
  else
    let children := items.filterMap id
    ensure (children.all fun item => !item.isPending)
    let given := Node.mk .arguments none ⟨opening, close⟩ children
    finish .callExpression name.start [name.withRole .function, given.withRole .arguments]

/-- What starts with the word `async`: a function, an arrow function, a call, or a name. -/
def asyncForms (self : Recursor) : Reader Node := do
  if ← looks (do asyncHere; keyword "function") then functionNode self false
  else if ← looks (do keyword "async"; punct "(") then asyncCall self
  else
    (do
      let start ← position
      asyncHere
      let given ← wordNode .identifier
      arrowFrom self start given) <|> nameOrArrow self

/-- The word `import` where an expression may stand: the meta property, or the callee or object
that the word itself is. -/
def importForms : Reader Node := do
  let start ← position
  keyword "import"
  (do
    punct "."
    keyword "meta"
    finish .metaProperty start []) <|>
  (do
    let node ← finish .importKeyword start []
    ensure ((← atPunct "(") || (← atPunct "."))
    return node)

/-- A private name, which is an expression only before `in`. -/
def privateOperand : Reader Node := do
  let name ← privateName
  ensure (← atKeyword "in")
  return name

/-- A primary expression that starts with a word. -/
def wordExpression (self : Recursor) (name : String) : Reader Node :=
  match leafKind? name with
  | some kind => wordNode kind
  | none =>
      match name with
      | "function" => functionNode self false
      | "class" => classNode self false
      | "new" => self .construction
      | "import" => importForms
      | "async" => asyncForms self
      | _ => if expressionKeywords.contains name then failure else nameOrArrow self

/-- A primary expression, without the accesses and calls that follow it. -/
def primary (self : Recursor) : Reader Node := do
  skipBefore
  match ← peek with
  | some '(' => group self
  | some '[' => arrayLiteral self
  | some '{' => objectLiteral self
  | some '"' | some '\'' => string
  | some '`' => template self
  | some '/' => regex
  | some '<' => self .markup
  | some '@' => classNode self false
  | some '#' => privateOperand
  | some '.' => number
  | some c =>
      if c.isDigit then number
      else
        match ← nextWord with
        | some name => wordExpression self name
        | none => failure
  | none => failure

/-! ## Accesses and calls -/

/-- Expressions that a template or an optional call may follow directly. -/
def isChainBase (node : Node) : Bool :=
  match node.kind with
  | .jsxElement | .jsxSelfClosingElement | .updateExpression => false
  | _ => true

/-- A member after its dot. -/
def memberOf (object : Node) : Reader Node := do
  let property ← privateName <|> wordNode .propertyIdentifier
  finish .memberExpression object.start [object, property.withRole .property]

/-- An index in brackets. -/
def indexOf (self : Recursor) (object : Node) : Reader Node := do
  punct "["
  let index ← expressions self
  punct "]"
  finish .subscriptExpression object.start [object, index]

/-- A call with arguments in parentheses. -/
def callOf (self : Recursor) (function : Node) : Reader Node := do
  let given ← argumentList self
  finish .callExpression function.start [function.withRole .function, given.withRole .arguments]

/-- A call with a template literal. -/
def templateCallOf (self : Recursor) (function : Node) : Reader Node := do
  ensure (isChainBase function)
  let given ← template self
  finish .callExpression function.start [function.withRole .function, given.withRole .arguments]

/-- One access that does not call: these bind the constructor of `new`. -/
def access (self : Recursor) (object : Node) : Reader Node :=
  (do
    punct "."
    memberOf object) <|>
  indexOf self object <|>
  templateCallOf self object <|>
  (do
    punct "?."
    indexOf self object <|>
      (do
        ensure (isChainBase object && object.kind != .newExpression)
        callOf self object) <|>
      memberOf object)

/-- An increment or decrement behind its operand, on the same line. -/
def postfixOf (operand : Node) : Reader Node := do
  ensure (!(← atOmitted false))
  let operator ← punctuator
  ensure (operator == "++" || operator == "--")
  finish .updateExpression operand.start [operand]

/-- One access or call. -/
def link (self : Recursor) (base : Node) : Reader Node :=
  access self base <|> callOf self base <|> postfixOf base

/-- All accesses and calls that follow. An opening parenthesis or bracket behind an expression is
always one of them. -/
def links (self : Recursor) (base : Node) : Reader Node := do
  let node ← iterate (link self) base
  ensure (!(← atPunct "(") && !(← atPunct "["))
  return node

/-- An expression that starts with `new`. -/
def construction (self : Recursor) : Reader Node := do
  let start ← position
  keyword "new"
  (do
    punct "."
    keyword "target"
    finish .metaProperty start []) <|>
  (do
    let first ← primary self
    ensure (!first.isPending)
    let called ← iterate (access self) first
    if ← atPunct "(" then
      let given ← argumentList self
      finish .newExpression start [called, given.withRole .arguments]
    else finish .newExpression start [called])

/-! ## Operands -/

/-- The operators that assign after computing. -/
def augmentedOperators : List String :=
  ["+=", "-=", "*=", "/=", "%=", "^=", "&=", "|=", ">>=", ">>>=", "<<=", "**=", "&&=", "||=",
    "??="]

/-- The expression as the left side of an assignment. -/
def asTarget? (node : Node) : Option Node :=
  if node.kind = .parenthesizedExpression then some node else node.toPattern?

/-- The expression can stand on the left of an operator that assigns after computing. -/
def isAugmentedTarget (node : Node) : Bool :=
  match node.kind with
  | .identifier | .memberExpression | .subscriptExpression | .parenthesizedExpression => true
  | _ => false

/-- An assignment to an expression that has been read. -/
def assignmentTo (self : Recursor) (node : Node) : Reader Node := do
  let operator ← punctuator
  if operator == "=" then
    let target ← asTarget? node
    let value ← self .expression
    finish .assignmentExpression node.start [target, value]
  else
    ensure (augmentedOperators.contains operator && isAugmentedTarget node)
    let value ← self .expression
    finish .augmentedAssignmentExpression node.start [node, value]

/-- The next token is an operator that assigns. -/
def atAssignment : Reader Bool :=
  looks do
    let operator ← punctuator
    ensure (operator == "=" || augmentedOperators.contains operator)

/-- An expression that can be assigned to, and the assignment if there is one. -/
def assignable (self : Recursor) : Reader Node := do
  let first ← primary self
  let node ← if first.isPending then pure first else links self first
  if ← atAssignment then assignmentTo self node <|> pure node else return node

/-- The operand of a prefix operator. -/
def plainOperand (self : Recursor) : Reader Node := do
  let inner ← self .operand
  ensure (!inner.isPending)
  return inner

/-- What starts with the word `yield`. -/
def yieldExpression (self : Recursor) : Reader Node := do
  let start ← position
  keyword "yield"
  let inner ←
    (do
      punct "*"
      return some (← self .expression)) <|>
    maybe do
      ensure (!(← atOmitted false))
      self .expression
  finish .yieldExpression start inner.toList

/-- An operator before its operand. -/
def prefixed (self : Recursor) : Reader Node := do
  let start ← position
  let operator ← punctuator
  let kind : Kind := if operator == "++" || operator == "--" then .updateExpression
    else .unaryExpression
  ensure (["++", "--", "+", "-", "!", "~"].contains operator)
  let inner ← plainOperand self
  finish kind start [inner]

/-- An operand that starts with a word. -/
def wordOperand (self : Recursor) (name : String) : Reader Node := do
  let start ← position
  match name with
  | "typeof" | "void" | "delete" =>
      let _ ← word
      let inner ← plainOperand self
      finish .unaryExpression start [inner]
  | "await" =>
      let _ ← word
      let inner ← plainOperand self
      finish .awaitExpression start [inner]
  | "yield" => yieldExpression self
  | _ => assignable self

/-- An expression without a binary or ternary operator at its top. -/
def operand (self : Recursor) : Reader Node := do
  skipBefore
  match ← peek with
  | some '+' | some '-' | some '!' | some '~' => prefixed self
  | _ =>
      match ← nextWord with
      | some name => wordOperand self name
      | none => assignable self

/-! ## Operators -/

/-- How tightly a binary operator binds. -/
def bindingLevel? : String → Option Nat
  | "??" => some 1
  | "||" => some 2
  | "&&" => some 3
  | "|" => some 4
  | "^" => some 5
  | "&" => some 6
  | "==" | "===" | "!=" | "!==" => some 7
  | "<" | "<=" | ">" | ">=" | "in" | "instanceof" => some 8
  | "<<" | ">>" | ">>>" => some 9
  | "+" | "-" => some 10
  | "*" | "/" | "%" => some 11
  | "**" => some 12
  | _ => none

/-- The level of the right operand: operators group to the left, except for powers. -/
def rightLevel (operator : String) (level : Nat) : Nat :=
  if operator == "**" then level else level + 1

/-- A binary operator and its right operand. -/
def binaryTail (self : Recursor) (level : Nat) (left : Node) : Reader Node := do
  let operator ← punctuator <|> word
  let bound ← bindingLevel? operator
  ensure (level ≤ bound)
  let right ← self (.binary (rightLevel operator bound))
  ensure (!right.isPending)
  finish .binaryExpression left.start [left, right]

/-- Operands joined by operators that bind at least as tightly as the level. -/
def binary (self : Recursor) (level : Nat) : Reader Node := do
  let left ← operand self
  if left.isPending then return left else iterate (binaryTail self level) left

/-- The rest of a choice between two expressions. -/
def choiceTail (self : Recursor) (condition : Node) : Reader Node := do
  punct "?"
  let consequence ← self .expression
  punct ":"
  let alternative ← self .expression
  finish .ternaryExpression condition.start [condition, consequence, alternative]

/-- An expression without a comma at its top, or a literal that is only legal as a pattern. -/
def element (self : Recursor) : Reader Node := do
  let first ← binary self 1
  if first.isPending then return first else choiceTail self first <|> pure first

/-- An expression without a comma at its top. -/
def expression (self : Recursor) : Reader Node := do
  let node ← element self
  ensure (!node.isPending)
  return node

end PatternScript.Script.Grammar
