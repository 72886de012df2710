import PatternScript.Script.Grammar.Expression

/-!
Contract: statements.

Owns: every statement of the language, and imports and exports, which may stand wherever a
statement may.
Does not own: the program as a whole.
-/

namespace PatternScript.Script.Grammar

open Reader

/-! ## Declarations -/

/-- One declared variable, and whether it has a value. -/
def declarator (self : Recursor) : Reader (Node × Bool) := do
  let start ← position
  let target ← bindingTarget self
  let value ← maybe (initialValue self)
  return (← finish .variableDeclarator start (target :: value.toList), value.isSome)

/-- A declaration of variables. -/
def bindings (self : Recursor) (kind : Kind) : Reader Node := do
  let start ← position
  let _ ← word
  let first ← declarator self
  let more ← many do
    punct ","
    declarator self
  let all := first :: more
  let endsInValue := (all.getLast?.getD first).2
  semicolon (!endsInValue)
  finish kind start (all.map (·.1))

/-- A declaration with `let`. The word is a name if the statement can end right behind it. -/
def letDeclaration (self : Recursor) : Reader Node := do
  ensure (!(← looks do
    keyword "let"
    ensure (← atOmitted false)))
  bindings self .lexicalDeclaration

/-! ## Expression statements -/

/-- An expression as a statement. -/
def expressionStatement (self : Recursor) : Reader Node := do
  let start ← position
  let inner ← expressions self
  semicolon false
  finish .expressionStatement start [inner]

/-- Operators and other tokens that can follow an expression and cannot start a statement. -/
def continuations : List String :=
  [".", "?.", ",", "?", "*", "%", "**", "&&", "||", "??", "==", "===", "!=", "!==", ">", ">=",
    "<=", "<<", ">>", ">>>", "&", "|", "^", "in", "instanceof"]

/-- The next token can only continue an expression. A point before a digit starts a number. -/
def atContinuation : Reader Bool :=
  looks do
    let token ← punctuator <|> word
    ensure (continuations.contains token)
    ensure (!(token == "." && (← peek).any Char.isDigit))

/-- A statement that is a declaration if its head gives a name, unless the next token shows that it
is an expression. -/
def namedOrExpression (self : Recursor) (head : Reader Unit) (reader : Reader Node) :
    Reader Node := do
  let before ← get
  if ← looks head then
    let node ← reader
    if ← atContinuation then
      set before
      expressionStatement self
    else return node
  else expressionStatement self

/-- The words of a function up to its name. -/
def functionHead : Reader Unit := do
  let _ ← maybe asyncHere
  keyword "function"
  let _ ← maybe (punct "*")
  let _ ← word

/-- The words of a class up to its name. -/
def classHead (self : Recursor) : Reader Unit := do
  let _ ← many (decorator self)
  keyword "class"
  ensure (!(← atKeyword "extends"))
  let _ ← word

/-- A function that is declared, or an expression that starts with one. -/
def functionStatement (self : Recursor) : Reader Node :=
  namedOrExpression self functionHead (functionNode self true)

/-- A class that is declared, or an expression that starts with one. -/
def classStatement (self : Recursor) : Reader Node :=
  namedOrExpression self (classHead self) (classNode self true)

/-- The next braces are empty and the token behind them continues an expression. -/
def atEmptyObject : Reader Bool :=
  looks do
    punct "\x7b"
    punct "\x7d"
    ensure (← atContinuation)

/-- A statement that starts with a brace. -/
def braced (self : Recursor) : Reader Node := do
  if ← atEmptyObject then expressionStatement self
  else if ← opensObject then expressionStatement self <|> block self
  else block self

/-- A statement with a label. -/
def labeled (self : Recursor) : Reader Node := do
  let start ← position
  let label ← wordNode .statementIdentifier
  punct ":"
  let body ← self .statement
  finish .labeledStatement start [label.withRole .label, body.withRole .body]

/-! ## Control flow -/

/-- A clause that its first word announces: behind that word nothing else can be meant. -/
def clause (name : String) (reader : Reader Node) : Reader (Option Node) := do
  if ← atKeyword name then
    let node ← reader
    return some node
  else return none

/-- The other branch of a condition. -/
def elseClause (self : Recursor) : Reader Node := do
  let start ← position
  keyword "else"
  let body ← self .statement
  finish .elseClause start [body]

/-- A condition with one or two branches. -/
def ifStatement (self : Recursor) : Reader Node := do
  let start ← position
  keyword "if"
  let condition ← parenthesized self
  let consequence ← self .statement
  let alternative ← clause "else" (elseClause self)
  finish .ifStatement start ([condition, consequence] ++ alternative.toList)

/-- The statements of a case, up to the next case. -/
def caseBody (self : Recursor) : Reader (List Node) :=
  many do
    ensure (!(← atKeyword "case") && !(← atKeyword "default"))
    self .statement

/-- One case of a selection. -/
def switchCase (self : Recursor) : Reader Node := do
  skipBefore
  let start ← position
  (do
    keyword "case"
    let value ← expressions self
    punct ":"
    let body ← caseBody self
    finish .switchCase start (value :: body)) <|>
  (do
    keyword "default"
    punct ":"
    let body ← caseBody self
    finish .switchDefault start body)

/-- A selection between cases. -/
def switchStatement (self : Recursor) : Reader Node := do
  let start ← position
  keyword "switch"
  let value ← parenthesized self
  let bodyStart ← position
  punct "\x7b"
  let cases ← many (switchCase self)
  skipBefore
  punct "\x7d"
  let body ← finish .switchBody bodyStart cases
  finish .switchStatement start [value, body]

/-- The left side of a loop over members, declared or not. -/
def loopTarget (self : Recursor) : Reader (List Node) :=
  (do
    let kind ← word
    ensure (["var", "let", "const"].contains kind)
    let target ← bindingTarget self
    let value ← if kind == "var" then maybe (initialValue self) else pure none
    ensure ((← atKeyword "in") || (← atKeyword "of"))
    return target :: value.toList) <|>
  (do
    ensure (!(← atKeyword "var") && !(← atKeyword "const"))
    let first ← primary self
    let node ← if first.isPending then pure first else links self first
    let target ← asTarget? node
    return [target])

/-- The head of a loop over members. -/
def forInHead (self : Recursor) : Reader (List Node) := do
  punct "("
  let target ← loopTarget self
  keyword "in" <|> keyword "of"
  let right ← expressions self
  punct ")"
  return target ++ [right]

/-- A part of a loop head that ends with a semicolon and may be empty. -/
def forPart (self : Recursor) : Reader Node :=
  (do
    let start ← position
    punct ";"
    finish .emptyStatement start []) <|>
  (do
    let inner ← expressions self
    punct ";"
    return inner)

/-- The first part of a loop head. -/
def forStart (self : Recursor) : Reader Node := do
  match ← nextWord with
  | some "var" => bindings self .variableDeclaration
  | some "const" => bindings self .lexicalDeclaration
  | some "let" => bindings self .lexicalDeclaration <|> forPart self
  | _ => forPart self

/-- The head of a counting loop. -/
def forHead (self : Recursor) : Reader (List Node) := do
  punct "("
  let first ← forStart self
  let condition ← forPart self
  let increment ← maybe (expressions self)
  punct ")"
  return [first, condition] ++ increment.toList

/-- A loop with `for`. -/
def forStatement (self : Recursor) : Reader Node := do
  let start ← position
  keyword "for"
  let await ← maybe (keyword "await")
  match ← maybe (forInHead self) with
  | some head =>
      let body ← self .statement
      finish .forInStatement start (head ++ [body])
  | none =>
      ensure await.isNone
      let head ← forHead self
      let body ← self .statement
      finish .forStatement start (head ++ [body])

/-- A statement that a word, a condition in parentheses and a statement make up. -/
def guarded (self : Recursor) (kind : Kind) : Reader Node := do
  let start ← position
  let _ ← word
  let condition ← parenthesized self
  let body ← self .statement
  finish kind start [condition, body]

/-- A loop whose condition comes last. The semicolon behind it is optional. -/
def doStatement (self : Recursor) : Reader Node := do
  let start ← position
  keyword "do"
  let body ← self .statement
  keyword "while"
  let condition ← parenthesized self
  let _ ← maybe (semicolon true)
  finish .doStatement start [body, condition]

/-- The handler of a `try` statement. -/
def catchClause (self : Recursor) : Reader Node := do
  let start ← position
  keyword "catch"
  let caught ← maybe do
    punct "("
    let target ← bindingTarget self
    punct ")"
    return target
  let body ← block self
  finish .catchClause start (caught.toList ++ [body])

/-- The last part of a `try` statement. -/
def finallyClause (self : Recursor) : Reader Node := do
  let start ← position
  keyword "finally"
  let body ← block self
  finish .finallyClause start [body]

/-- A statement with handlers. -/
def tryStatement (self : Recursor) : Reader Node := do
  let start ← position
  keyword "try"
  let body ← block self
  let handler ← clause "catch" (catchClause self)
  let last ← clause "finally" (finallyClause self)
  finish .tryStatement start (body :: handler.toList ++ last.toList)

/-- A jump, with or without a label. -/
def jump (kind : Kind) : Reader Node := do
  let start ← position
  let _ ← word
  let label ← maybe do
    ensure (!(← atOmitted true))
    wordNode .statementIdentifier
  semicolon true
  finish kind start label.toList

/-- A word and an optional value. -/
def returnStatement (self : Recursor) : Reader Node := do
  let start ← position
  keyword "return"
  let value ← maybe do
    ensure (!(← atOmitted true))
    expressions self
  semicolon value.isNone
  finish .returnStatement start value.toList

/-- A word and a value. -/
def throwStatement (self : Recursor) : Reader Node := do
  let start ← position
  keyword "throw"
  let value ← expressions self
  semicolon false
  finish .throwStatement start [value]

/-- The statement that stops in a debugger. -/
def debuggerStatement : Reader Node := do
  let start ← position
  keyword "debugger"
  semicolon true
  finish .debuggerStatement start []

/-! ## Imports and exports -/

/-- The word `from` and the name of a module. -/
def fromClause : Reader Node := do
  keyword "from"
  string

/-- A name or a string that names an export. -/
def exportName : Reader Node :=
  string <|> wordNode .identifier

/-- An imported name, possibly under another name. -/
def importSpecifier : Reader Node := do
  let start ← position
  let isDefault ← atKeyword "default"
  let name ← exportName
  let other ← maybe do
    keyword "as"
    wordNode .identifier
  ensure ((name.kind == .identifier && !isDefault) || other.isSome)
  finish .importSpecifier start (name :: other.toList)

/-- Everything a module exports, under one name. -/
def namespaceImport : Reader Node := do
  let start ← position
  punct "*"
  keyword "as"
  let name ← wordNode .identifier
  finish .namespaceImport start [name]

/-- Imported names in braces. -/
def namedImports : Reader Node := do
  let start ← position
  punct "\x7b"
  let items ← commaItems importSpecifier
  punct "\x7d"
  let names ← (withoutHoles? items : Option (List Node))
  finish .namedImports start names

/-- What an import names. -/
def importClause : Reader Node := do
  let start ← position
  let parts ←
    (do return [← namespaceImport <|> namedImports]) <|>
    (do
      let name ← wordNode .identifier
      let more ← maybe do
        punct ","
        namespaceImport <|> namedImports
      return name :: more.toList)
  finish .importClause start parts

/-- What is said about an imported module. -/
def importAttribute (self : Recursor) : Reader Node := do
  let start ← position
  keyword "with"
  let given ← objectLiteral self
  ensure (!given.isPending)
  finish .importAttribute start [given]

/-- An import. -/
def importStatement (self : Recursor) : Reader Node := do
  let start ← position
  keyword "import"
  let parts ←
    (do
      let clause ← importClause
      return [clause, ← fromClause]) <|>
    (do return [← string])
  let about ← maybe (importAttribute self)
  semicolon true
  finish .importStatement start (parts ++ about.toList)

/-- An exported name, possibly under another name. -/
def exportSpecifier : Reader Node := do
  let start ← position
  let name ← exportName
  let other ← maybe do
    keyword "as"
    exportName
  finish .exportSpecifier start (name :: other.toList)

/-- Exported names in braces. -/
def exportClause : Reader Node := do
  let start ← position
  punct "\x7b"
  let items ← commaItems exportSpecifier
  punct "\x7d"
  let names ← (withoutHoles? items : Option (List Node))
  finish .exportClause start names

/-- Everything another module exports, under one name. -/
def namespaceExport : Reader Node := do
  let start ← position
  punct "*"
  keyword "as"
  let name ← exportName
  finish .namespaceExport start [name]

/-- A declaration, which may be exported. -/
def declaration (self : Recursor) : Reader Node := do
  match ← nextWord with
  | some "var" => bindings self .variableDeclaration
  | some "const" | some "let" => bindings self .lexicalDeclaration
  | some "class" | none => classNode self true
  | _ => functionNode self true

/-- The names an export passes on. -/
def exportedNames : Reader (List Node) := do
  let parts ←
    (do
      let names ← namespaceExport
      return [names, ← fromClause]) <|>
    (do
      punct "*"
      return [← fromClause]) <|>
    (do
      let names ← exportClause
      let source ← maybe fromClause
      return names :: source.toList)
  semicolon true
  return parts

/-- A default export. -/
def exportedDefault (self : Recursor) : Reader (List Node) := do
  keyword "default"
  (do
    let node ← if ← atKeyword "let" then letDeclaration self else declaration self
    ensure (!(← atContinuation))
    return [node]) <|>
  (do
    ensure (!(← atKeyword "var") && !(← atKeyword "const"))
    let value ← self .expression
    semicolon false
    return [value])

/-- An export. -/
def exportStatement (self : Recursor) : Reader Node := do
  let start ← position
  let decorators ← many (decorator self)
  keyword "export"
  let parts ← exportedNames <|> exportedDefault self <|> (do return [← declaration self])
  finish .exportStatement start (decorators ++ parts)

/-! ## Statements -/

/-- An import statement, or an expression that starts with the word. -/
def importOrExpression (self : Recursor) : Reader Node :=
  importStatement self <|> expressionStatement self

/-- An export, or an expression that starts with the word as a name. It is a name if the statement
can end right behind it; an asterisk behind it belongs to an export. -/
def exportOrExpression (self : Recursor) : Reader Node := do
  let isName ← looks do
    keyword "export"
    ensure (← atOmitted false)
  let isExport ← looks do
    keyword "export"
    punct "*"
  if isName then expressionStatement self
  else if isExport then exportStatement self
  else exportStatement self <|> expressionStatement self

/-- A statement that starts with a word and is not one with a label. -/
def wordStatement (self : Recursor) (name : String) : Reader Node :=
  match name with
  | "var" => bindings self .variableDeclaration
  | "const" => bindings self .lexicalDeclaration
  | "let" => letDeclaration self <|> expressionStatement self
  | "function" | "async" => functionStatement self
  | "class" => classStatement self
  | "if" => ifStatement self
  | "switch" => switchStatement self
  | "for" => forStatement self
  | "while" => guarded self .whileStatement
  | "with" => guarded self .withStatement
  | "do" => doStatement self
  | "try" => tryStatement self
  | "break" => jump .breakStatement
  | "continue" => jump .continueStatement
  | "debugger" => debuggerStatement
  | "return" => returnStatement self
  | "throw" => throwStatement self
  | "import" => importOrExpression self
  | "export" => exportOrExpression self
  | _ => expressionStatement self

/-- The next tokens are a label. -/
def atLabel (name : String) : Reader Bool := do
  if statementKeywords.contains name then return false
  else
    looks do
      let _ ← word
      punct ":"

/-- A statement. -/
def statement (self : Recursor) : Reader Node := do
  skipBefore
  match ← peek with
  | some '{' => braced self
  | some ';' =>
      let start ← position
      punct ";"
      finish .emptyStatement start []
  | some '@' => exportStatement self <|> classStatement self
  | _ =>
      match ← nextWord with
      | some name => if ← atLabel name then labeled self else wordStatement self name
      | none => expressionStatement self

end PatternScript.Script.Grammar
