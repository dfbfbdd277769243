/-! # Forms of concrete syntax

The grammar names its constructs by text. A form is what the library makes of
such a name: names that are treated alike everywhere share a form, and a name
without a treatment of its own has the form `other`.
-/
namespace ScriptLens.Cst

inductive Form where
  | expressionStatement | variableDeclaration | lexicalDeclaration | functionDeclaration
  | classDeclaration | statementBlock | ifStatement | switchStatement | forStatement
  | forInStatement | whileStatement | doStatement | tryStatement | withStatement
  | breakStatement | continueStatement | returnStatement | throwStatement | emptyStatement
  | debuggerStatement | labeledStatement | importStatement | exportStatement
  | error | comment | htmlComment | hashBang
  | identifier | undefined | shorthandProperty | number | string | regex | boolean | null
  | templateString | this | super | metaProperty | array | object | functionExpression
  | arrowFunction | classExpression | unaryExpression | updateExpression | awaitExpression
  | yieldExpression | spreadElement | binaryExpression | assignment | augmentedAssignment
  | ternaryExpression | callExpression | newExpression | memberExpression
  | subscriptExpression | sequenceExpression | parenthesizedExpression
  | shorthandPattern | objectPattern | arrayPattern | assignmentPattern
  | objectAssignmentPattern | restPattern | pairPattern
  | variableDeclarator | elseClause | switchCase | classHeritage | methodDefinition
  | fieldDefinition | classStaticBlock | importClause | namespaceImport | namedImports
  | exportClause | propertyIdentifier | privateProperty | statementIdentifier
  | computedProperty | templateSubstitution | pair | optionalChain
  | other
deriving DecidableEq

namespace Form

def table : List (String × Form) :=
  [ ("expression_statement", .expressionStatement),
    ("variable_declaration", .variableDeclaration),
    ("lexical_declaration", .lexicalDeclaration),
    ("function_declaration", .functionDeclaration),
    ("generator_function_declaration", .functionDeclaration),
    ("class_declaration", .classDeclaration),
    ("statement_block", .statementBlock),
    ("if_statement", .ifStatement),
    ("switch_statement", .switchStatement),
    ("for_statement", .forStatement),
    ("for_in_statement", .forInStatement),
    ("while_statement", .whileStatement),
    ("do_statement", .doStatement),
    ("try_statement", .tryStatement),
    ("with_statement", .withStatement),
    ("break_statement", .breakStatement),
    ("continue_statement", .continueStatement),
    ("return_statement", .returnStatement),
    ("throw_statement", .throwStatement),
    ("empty_statement", .emptyStatement),
    ("debugger_statement", .debuggerStatement),
    ("labeled_statement", .labeledStatement),
    ("import_statement", .importStatement),
    ("export_statement", .exportStatement),
    ("ERROR", .error),
    ("comment", .comment),
    ("html_comment", .htmlComment),
    ("hash_bang_line", .hashBang),
    ("identifier", .identifier),
    ("undefined", .undefined),
    ("shorthand_property_identifier", .shorthandProperty),
    ("number", .number),
    ("string", .string),
    ("regex", .regex),
    ("true", .boolean),
    ("false", .boolean),
    ("null", .null),
    ("template_string", .templateString),
    ("this", .this),
    ("super", .super),
    ("meta_property", .metaProperty),
    ("import", .metaProperty),
    ("array", .array),
    ("object", .object),
    ("function_expression", .functionExpression),
    ("function", .functionExpression),
    ("generator_function", .functionExpression),
    ("arrow_function", .arrowFunction),
    ("class", .classExpression),
    ("unary_expression", .unaryExpression),
    ("update_expression", .updateExpression),
    ("await_expression", .awaitExpression),
    ("yield_expression", .yieldExpression),
    ("spread_element", .spreadElement),
    ("binary_expression", .binaryExpression),
    ("assignment_expression", .assignment),
    ("augmented_assignment_expression", .augmentedAssignment),
    ("ternary_expression", .ternaryExpression),
    ("call_expression", .callExpression),
    ("new_expression", .newExpression),
    ("member_expression", .memberExpression),
    ("subscript_expression", .subscriptExpression),
    ("sequence_expression", .sequenceExpression),
    ("parenthesized_expression", .parenthesizedExpression),
    ("shorthand_property_identifier_pattern", .shorthandPattern),
    ("object_pattern", .objectPattern),
    ("array_pattern", .arrayPattern),
    ("assignment_pattern", .assignmentPattern),
    ("object_assignment_pattern", .objectAssignmentPattern),
    ("rest_pattern", .restPattern),
    ("pair_pattern", .pairPattern),
    ("variable_declarator", .variableDeclarator),
    ("else_clause", .elseClause),
    ("switch_case", .switchCase),
    ("switch_default", .switchCase),
    ("class_heritage", .classHeritage),
    ("method_definition", .methodDefinition),
    ("field_definition", .fieldDefinition),
    ("class_static_block", .classStaticBlock),
    ("import_clause", .importClause),
    ("namespace_import", .namespaceImport),
    ("named_imports", .namedImports),
    ("export_clause", .exportClause),
    ("property_identifier", .propertyIdentifier),
    ("private_property_identifier", .privateProperty),
    ("statement_identifier", .statementIdentifier),
    ("computed_property_name", .computedProperty),
    ("template_substitution", .templateSubstitution),
    ("pair", .pair),
    ("optional_chain", .optionalChain) ]

def ofKind (kind : String) : Form := (table.lookup kind).getD .other

def isComment : Form → Bool
  | .comment | .htmlComment => true
  | _ => false

/-- Forms that are statements wherever they stand. -/
def isStatement : Form → Bool
  | .expressionStatement | .variableDeclaration | .lexicalDeclaration | .functionDeclaration
  | .classDeclaration | .statementBlock | .ifStatement | .switchStatement | .forStatement
  | .forInStatement | .whileStatement | .doStatement | .tryStatement | .withStatement
  | .breakStatement | .continueStatement | .returnStatement | .throwStatement
  | .emptyStatement | .debuggerStatement | .labeledStatement | .importStatement
  | .exportStatement => true
  | _ => false

/-- Names that are no expressions even where expressions are collected. -/
def isBareName : Form → Bool
  | .propertyIdentifier | .privateProperty | .statementIdentifier => true
  | _ => false

end Form

end ScriptLens.Cst
