/-!
Contract: the kinds of nodes in the syntax tree of a JavaScript program.

Owns: the kinds, their names as they appear in reports, and the classes of kinds that other parts
of the library ask for.
Does not own: how a program is read.
-/

namespace PatternScript.Script

/-- The kind of a syntax node. `missing` stands where a token had to be supplied and holds that
token, `error` covers text that could not be read. -/
inductive Kind where
  | program
  | hashBangLine
  | comment
  | htmlComment
  | error
  | missing (token : String)
  -- statements
  | expressionStatement
  | labeledStatement
  | lexicalDeclaration
  | variableDeclaration
  | variableDeclarator
  | functionDeclaration
  | generatorFunctionDeclaration
  | classDeclaration
  | statementBlock
  | ifStatement
  | elseClause
  | switchStatement
  | switchBody
  | switchCase
  | switchDefault
  | forStatement
  | forInStatement
  | whileStatement
  | doStatement
  | tryStatement
  | catchClause
  | finallyClause
  | withStatement
  | breakStatement
  | continueStatement
  | debuggerStatement
  | returnStatement
  | throwStatement
  | emptyStatement
  | importStatement
  | importClause
  | namespaceImport
  | namedImports
  | importSpecifier
  | importAttribute
  | exportStatement
  | exportClause
  | exportSpecifier
  | namespaceExport
  -- expressions
  | identifier
  | undefined
  | thisExpression
  | superExpression
  | number
  | string
  | templateString
  | templateSubstitution
  | regex
  | trueLiteral
  | falseLiteral
  | nullLiteral
  | importKeyword
  | object
  | array
  | pair
  | spreadElement
  | methodDefinition
  | computedPropertyName
  | functionExpression
  | generatorFunction
  | arrowFunction
  | formalParameters
  | classExpression
  | classHeritage
  | classBody
  | fieldDefinition
  | classStaticBlock
  | decorator
  | metaProperty
  | callExpression
  | arguments
  | memberExpression
  | subscriptExpression
  | newExpression
  | parenthesizedExpression
  | sequenceExpression
  | assignmentExpression
  | augmentedAssignmentExpression
  | awaitExpression
  | yieldExpression
  | unaryExpression
  | updateExpression
  | binaryExpression
  | ternaryExpression
  -- names in special places
  | propertyIdentifier
  | privatePropertyIdentifier
  | shorthandPropertyIdentifier
  | shorthandPropertyIdentifierPattern
  | statementIdentifier
  -- patterns
  | objectPattern
  | arrayPattern
  | pairPattern
  | restPattern
  | assignmentPattern
  | objectAssignmentPattern
  -- markup
  | jsxElement
  | jsxSelfClosingElement
  | jsxOpeningElement
  | jsxClosingElement
  | jsxExpression
  | jsxAttribute
  | jsxNamespaceName
  | jsxText
  | htmlCharacterReference
deriving DecidableEq, Repr, Inhabited

namespace Kind

/-- The name of a kind in reports. -/
def name : Kind → String
  | .program => "program"
  | .hashBangLine => "hash_bang_line"
  | .comment => "comment"
  | .htmlComment => "html_comment"
  | .error => "ERROR"
  | .missing token => token
  | .expressionStatement => "expression_statement"
  | .labeledStatement => "labeled_statement"
  | .lexicalDeclaration => "lexical_declaration"
  | .variableDeclaration => "variable_declaration"
  | .variableDeclarator => "variable_declarator"
  | .functionDeclaration => "function_declaration"
  | .generatorFunctionDeclaration => "generator_function_declaration"
  | .classDeclaration => "class_declaration"
  | .statementBlock => "statement_block"
  | .ifStatement => "if_statement"
  | .elseClause => "else_clause"
  | .switchStatement => "switch_statement"
  | .switchBody => "switch_body"
  | .switchCase => "switch_case"
  | .switchDefault => "switch_default"
  | .forStatement => "for_statement"
  | .forInStatement => "for_in_statement"
  | .whileStatement => "while_statement"
  | .doStatement => "do_statement"
  | .tryStatement => "try_statement"
  | .catchClause => "catch_clause"
  | .finallyClause => "finally_clause"
  | .withStatement => "with_statement"
  | .breakStatement => "break_statement"
  | .continueStatement => "continue_statement"
  | .debuggerStatement => "debugger_statement"
  | .returnStatement => "return_statement"
  | .throwStatement => "throw_statement"
  | .emptyStatement => "empty_statement"
  | .importStatement => "import_statement"
  | .importClause => "import_clause"
  | .namespaceImport => "namespace_import"
  | .namedImports => "named_imports"
  | .importSpecifier => "import_specifier"
  | .importAttribute => "import_attribute"
  | .exportStatement => "export_statement"
  | .exportClause => "export_clause"
  | .exportSpecifier => "export_specifier"
  | .namespaceExport => "namespace_export"
  | .identifier => "identifier"
  | .undefined => "undefined"
  | .thisExpression => "this"
  | .superExpression => "super"
  | .number => "number"
  | .string => "string"
  | .templateString => "template_string"
  | .templateSubstitution => "template_substitution"
  | .regex => "regex"
  | .trueLiteral => "true"
  | .falseLiteral => "false"
  | .nullLiteral => "null"
  | .importKeyword => "import"
  | .object => "object"
  | .array => "array"
  | .pair => "pair"
  | .spreadElement => "spread_element"
  | .methodDefinition => "method_definition"
  | .computedPropertyName => "computed_property_name"
  | .functionExpression => "function_expression"
  | .generatorFunction => "generator_function"
  | .arrowFunction => "arrow_function"
  | .formalParameters => "formal_parameters"
  | .classExpression => "class"
  | .classHeritage => "class_heritage"
  | .classBody => "class_body"
  | .fieldDefinition => "field_definition"
  | .classStaticBlock => "class_static_block"
  | .decorator => "decorator"
  | .metaProperty => "meta_property"
  | .callExpression => "call_expression"
  | .arguments => "arguments"
  | .memberExpression => "member_expression"
  | .subscriptExpression => "subscript_expression"
  | .newExpression => "new_expression"
  | .parenthesizedExpression => "parenthesized_expression"
  | .sequenceExpression => "sequence_expression"
  | .assignmentExpression => "assignment_expression"
  | .augmentedAssignmentExpression => "augmented_assignment_expression"
  | .awaitExpression => "await_expression"
  | .yieldExpression => "yield_expression"
  | .unaryExpression => "unary_expression"
  | .updateExpression => "update_expression"
  | .binaryExpression => "binary_expression"
  | .ternaryExpression => "ternary_expression"
  | .propertyIdentifier => "property_identifier"
  | .privatePropertyIdentifier => "private_property_identifier"
  | .shorthandPropertyIdentifier => "shorthand_property_identifier"
  | .shorthandPropertyIdentifierPattern => "shorthand_property_identifier_pattern"
  | .statementIdentifier => "statement_identifier"
  | .objectPattern => "object_pattern"
  | .arrayPattern => "array_pattern"
  | .pairPattern => "pair_pattern"
  | .restPattern => "rest_pattern"
  | .assignmentPattern => "assignment_pattern"
  | .objectAssignmentPattern => "object_assignment_pattern"
  | .jsxElement => "jsx_element"
  | .jsxSelfClosingElement => "jsx_self_closing_element"
  | .jsxOpeningElement => "jsx_opening_element"
  | .jsxClosingElement => "jsx_closing_element"
  | .jsxExpression => "jsx_expression"
  | .jsxAttribute => "jsx_attribute"
  | .jsxNamespaceName => "jsx_namespace_name"
  | .jsxText => "jsx_text"
  | .htmlCharacterReference => "html_character_reference"

/-- Nodes that may stand anywhere between two tokens and never count as values. -/
def isExtra : Kind → Bool
  | .comment | .htmlComment => true
  | _ => false

/-- Nodes that mark a fault of the program text. -/
def isFault : Kind → Bool
  | .error | .missing _ => true
  | _ => false

/-- Expressions that can be the object of a member access without parentheses. -/
def isMemberSafe : Kind → Bool
  | .callExpression | .memberExpression | .subscriptExpression | .identifier
  | .parenthesizedExpression | .string | .templateString | .array | .thisExpression
  | .trueLiteral | .falseLiteral | .nullLiteral | .regex => true
  | _ => false

end Kind

end PatternScript.Script
