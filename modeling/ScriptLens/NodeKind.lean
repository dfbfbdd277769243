/-! # Kinds of syntax nodes

Every node of a syntax tree has one kind, and every kind has the name under which
it is shown and looked up.
-/
namespace ScriptLens

inductive NodeKind where
  | program | expressionStatement | variableDeclaration | variableDeclarator
  | functionDeclaration | functionExpression | arrowFunction | classDeclaration
  | classExpression | methodDefinition | fieldDefinition | staticBlock | blockStatement
  | ifStatement | forStatement | forInStatement | forOfStatement | whileStatement
  | doWhileStatement | tryStatement | catchClause | returnStatement | throwStatement
  | switchStatement | switchCase | labeledStatement | breakStatement | continueStatement
  | emptyStatement | debuggerStatement | withStatement | importDeclaration
  | exportDeclaration | identifier | label | privateName | numberLiteral | stringLiteral
  | booleanLiteral | nullLiteral | regExpLiteral | templateLiteral | taggedTemplate
  | thisExpression | superExpression | metaProperty | arrayLiteral | objectLiteral
  | property | spreadElement | unaryExpression | updateExpression | awaitExpression
  | yieldExpression | binaryExpression | assignExpression | conditionalExpression
  | callExpression | newExpression | memberExpression | indexExpression
  | sequenceExpression | parenthesizedExpression | objectPattern | arrayPattern
  | propertyPattern | restElement | assignPattern | badStatement | badExpression
deriving DecidableEq, Hashable, Inhabited

namespace NodeKind

/-- The name of a kind, as shown to the user. -/
def name : NodeKind → String
  | .program => "Program"
  | .expressionStatement => "ExpressionStatement"
  | .variableDeclaration => "VariableDeclaration"
  | .variableDeclarator => "VariableDeclarator"
  | .functionDeclaration => "FunctionDeclaration"
  | .functionExpression => "FunctionExpression"
  | .arrowFunction => "ArrowFunction"
  | .classDeclaration => "ClassDeclaration"
  | .classExpression => "ClassExpression"
  | .methodDefinition => "MethodDefinition"
  | .fieldDefinition => "FieldDefinition"
  | .staticBlock => "StaticBlock"
  | .blockStatement => "BlockStatement"
  | .ifStatement => "IfStatement"
  | .forStatement => "ForStatement"
  | .forInStatement => "ForInStatement"
  | .forOfStatement => "ForOfStatement"
  | .whileStatement => "WhileStatement"
  | .doWhileStatement => "DoWhileStatement"
  | .tryStatement => "TryStatement"
  | .catchClause => "CatchClause"
  | .returnStatement => "ReturnStatement"
  | .throwStatement => "ThrowStatement"
  | .switchStatement => "SwitchStatement"
  | .switchCase => "SwitchCase"
  | .labeledStatement => "LabeledStatement"
  | .breakStatement => "BreakStatement"
  | .continueStatement => "ContinueStatement"
  | .emptyStatement => "EmptyStatement"
  | .debuggerStatement => "DebuggerStatement"
  | .withStatement => "WithStatement"
  | .importDeclaration => "ImportDeclaration"
  | .exportDeclaration => "ExportDeclaration"
  | .identifier => "Identifier"
  | .label => "Label"
  | .privateName => "PrivateName"
  | .numberLiteral => "NumberLiteral"
  | .stringLiteral => "StringLiteral"
  | .booleanLiteral => "BooleanLiteral"
  | .nullLiteral => "NullLiteral"
  | .regExpLiteral => "RegExpLiteral"
  | .templateLiteral => "TemplateLiteral"
  | .taggedTemplate => "TaggedTemplate"
  | .thisExpression => "ThisExpression"
  | .superExpression => "SuperExpression"
  | .metaProperty => "MetaProperty"
  | .arrayLiteral => "ArrayLiteral"
  | .objectLiteral => "ObjectLiteral"
  | .property => "Property"
  | .spreadElement => "SpreadElement"
  | .unaryExpression => "UnaryExpression"
  | .updateExpression => "UpdateExpression"
  | .awaitExpression => "AwaitExpression"
  | .yieldExpression => "YieldExpression"
  | .binaryExpression => "BinaryExpression"
  | .assignExpression => "AssignExpression"
  | .conditionalExpression => "ConditionalExpression"
  | .callExpression => "CallExpression"
  | .newExpression => "NewExpression"
  | .memberExpression => "MemberExpression"
  | .indexExpression => "IndexExpression"
  | .sequenceExpression => "SequenceExpression"
  | .parenthesizedExpression => "ParenthesizedExpression"
  | .objectPattern => "ObjectPattern"
  | .arrayPattern => "ArrayPattern"
  | .propertyPattern => "PropertyPattern"
  | .restElement => "RestElement"
  | .assignPattern => "AssignPattern"
  | .badStatement => "BadStatement"
  | .badExpression => "BadExpression"

def all : List NodeKind :=
  [.program, .expressionStatement, .variableDeclaration, .variableDeclarator,
    .functionDeclaration, .functionExpression, .arrowFunction, .classDeclaration,
    .classExpression, .methodDefinition, .fieldDefinition, .staticBlock, .blockStatement,
    .ifStatement, .forStatement, .forInStatement, .forOfStatement, .whileStatement,
    .doWhileStatement, .tryStatement, .catchClause, .returnStatement, .throwStatement,
    .switchStatement, .switchCase, .labeledStatement, .breakStatement, .continueStatement,
    .emptyStatement, .debuggerStatement, .withStatement, .importDeclaration,
    .exportDeclaration, .identifier, .label, .privateName, .numberLiteral, .stringLiteral,
    .booleanLiteral, .nullLiteral, .regExpLiteral, .templateLiteral, .taggedTemplate,
    .thisExpression, .superExpression, .metaProperty, .arrayLiteral, .objectLiteral,
    .property, .spreadElement, .unaryExpression, .updateExpression, .awaitExpression,
    .yieldExpression, .binaryExpression, .assignExpression, .conditionalExpression,
    .callExpression, .newExpression, .memberExpression, .indexExpression,
    .sequenceExpression, .parenthesizedExpression, .objectPattern, .arrayPattern,
    .propertyPattern, .restElement, .assignPattern, .badStatement, .badExpression]

def ofName? (s : String) : Option NodeKind := all.find? (·.name == s)

end NodeKind

end ScriptLens
