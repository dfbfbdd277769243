import ScriptLens.Ast.Basic
import ScriptLens.Tree

/-! # The uniform tree of a program

Every construct is shown as the list of nodes it adds to its parent: one node for
most constructs, none for an absent part, and the nodes of all parts for a list.
Children stand in source order.
-/
namespace ScriptLens

def labelLimit : Nat := 24

def quotedName (name : String) : String := "\"" ++ name ++ "\""

/-- A text cut to the label limit, with dots in place of the rest. -/
def truncated (text : String) : String :=
  if text.toList.length ≤ labelLimit then text
  else String.ofList (text.toList.take labelLimit) ++ "..."

def Ident.label (id : Ident) : String := quotedName id.name

def Literal.label (l : Literal) : String := truncated l.raw

def Ident.toTree (id : Ident) : Tree :=
  .leaf .identifier id.span id.label (some id.name)

def Label.toTree (l : Label) : Tree :=
  .leaf .label l.span (quotedName l.name) (some l.name)

def PrivateName.toTree (p : PrivateName) : Tree :=
  .leaf .privateName p.span (quotedName p.name) (some p.name)

def Literal.toTree (l : Literal) : Tree :=
  .leaf l.kind.nodeKind l.span l.label l.name?

def DeclKind.word : DeclKind → String
  | .varDecl => "var"
  | .letDecl => "let"
  | .constDecl => "const"

def Keyword.nodeKind : Keyword → NodeKind
  | .thisWord => .thisExpression
  | .superWord => .superExpression
  | .metaWord => .metaProperty

def UnaryKind.nodeKind : UnaryKind → NodeKind
  | .unary => .unaryExpression
  | .update => .updateExpression
  | .await => .awaitExpression
  | .yield => .yieldExpression
  | .spread => .spreadElement

def MethodKind.label : MethodKind → String
  | .method => ""
  | .getter => "get"
  | .setter => "set"

def ExitKind.nodeKind : ExitKind → NodeKind
  | .returns => .returnStatement
  | .throws => .throwStatement

def JumpKind.nodeKind : JumpKind → NodeKind
  | .breaks => .breakStatement
  | .continues => .continueStatement

def spreadMark : String := "..."

namespace Ast

def accessKind : Ast .access → NodeKind
  | .computed _ => .indexExpression
  | _ => .memberExpression

def accessLabel (isOptional : Bool) : Ast .access → String
  | .computed _ => "[]"
  | _ => if isOptional then "?." else "."

def nameLabel (name : Option Ident) : String := (name.map Ident.label).getD ""

def caseLabel : Ast (.opt .expr) → String
  | .absent => "default"
  | .present _ => "case"

def trees : {c : Category} → Ast c → List Tree
  | _, .nil => []
  | _, .cons first rest => first.trees ++ rest.trees
  | _, .absent => []
  | _, .present part => part.trees
  | _, .ident id => [id.toTree]
  | _, .literal lit => [lit.toTree]
  | _, .template span parts => [.inner .templateLiteral span "" parts.trees]
  | _, .tagged span tag quasi parts =>
    [.inner .taggedTemplate span "" (tag.trees ++ [.inner .templateLiteral quasi "" parts.trees])]
  | _, .keyword span word => [.inner word.nodeKind span "" []]
  | _, .array span elements => [.inner .arrayLiteral span "" elements.trees]
  | _, .object span props => [.inner .objectLiteral span "" props.trees]
  | _, .function code name params bodySpan body =>
    [.inner .functionExpression code.span (nameLabel name)
      (name.toList.map Ident.toTree ++
        (params.trees ++ [.inner .blockStatement bodySpan "" body.trees]))]
  | _, .arrow span _ params body =>
    [.inner .arrowFunction span "=>" (params.trees ++ body.trees)]
  | _, .classExpr span name base members =>
    [.inner .classExpression span (nameLabel name)
      (name.toList.map Ident.toTree ++ (base.trees ++ members.trees))]
  | _, .unary span kind op _ arg => [.inner kind.nodeKind span op arg.trees]
  | _, .binary span op left right =>
    [.inner .binaryExpression span op (left.trees ++ right.trees)]
  | _, .assign span op left right =>
    [.inner .assignExpression span op (left.trees ++ right.trees)]
  | _, .conditional span test consequent alternate =>
    [.inner .conditionalExpression span "?:"
      (test.trees ++ (consequent.trees ++ alternate.trees))]
  | _, .call span isNew _ callee args =>
    [.inner (if isNew then .newExpression else .callExpression) span ""
      (callee.trees ++ args.trees)]
  | _, .get span isOptional base property =>
    [.inner property.accessKind span (property.accessLabel isOptional)
      (base.trees ++ property.trees)]
  | _, .sequence span exprs => [.inner .sequenceExpression span "" exprs.trees]
  | _, .paren span value => [.inner .parenthesizedExpression span "" value.trees]
  | _, .badExpr span items => [.inner .badExpression span "" items.trees]
  | _, .arrowBlock span body => [.inner .blockStatement span "" body.trees]
  | _, .arrowExpr value => value.trees
  | _, .named id => [id.toTree]
  | _, .hidden name => [name.toTree]
  | _, .computed index => index.trees
  | _, .keyIdent id => [id.toTree]
  | _, .keyString span raw => [Literal.toTree ⟨span, .string, raw⟩]
  | _, .keyNumber span raw => [Literal.toTree ⟨span, .number, raw⟩]
  | _, .keyPrivate name => [name.toTree]
  | _, .keyComputed value => value.trees
  | _, .pair span key value => [.inner .property span "" (key.trees ++ value.trees)]
  | _, .shorthand id => [id.toTree]
  | _, .methodProp method => method.trees
  | _, .spreadProp span arg => [.inner .spreadElement span spreadMark arg.trees]
  | _, .methodDef span kind _ key code params bodySpan body =>
    [.inner .methodDefinition span kind.label
      (key.trees ++ [.inner .functionExpression code.span ""
        (params.trees ++ [.inner .blockStatement bodySpan "" body.trees])])]
  | _, .methodMember method => method.trees
  | _, .fieldMember span _ key value =>
    [.inner .fieldDefinition span "" (key.trees ++ value.trees)]
  | _, .staticBlock span bodySpan body =>
    [.inner .staticBlock span "" [.inner .blockStatement bodySpan "" body.trees]]
  | _, .target id => [id.toTree]
  | _, .objectPattern span fields => [.inner .objectPattern span "" fields.trees]
  | _, .arrayPattern span elements => [.inner .arrayPattern span "" elements.trees]
  | _, .restPattern span arg => [.inner .restElement span spreadMark arg.trees]
  | _, .defaultPattern span left right =>
    [.inner .assignPattern span "=" (left.trees ++ right.trees)]
  | _, .exprPattern value => value.trees
  | _, .fieldPair span key value =>
    [.inner .propertyPattern span "" (key.trees ++ value.trees)]
  | _, .fieldShorthand value => value.trees
  | _, .fieldRest span arg => [.inner .restElement span spreadMark arg.trees]
  | _, .exprStmt span value => [.inner .expressionStatement span "" value.trees]
  | _, .varStmt decl => decl.trees
  | _, .functionDecl code name params bodySpan body =>
    [.inner .functionDeclaration code.span (nameLabel name)
      (name.toList.map Ident.toTree ++
        (params.trees ++ [.inner .blockStatement bodySpan "" body.trees]))]
  | _, .classDecl span name base members =>
    [.inner .classDeclaration span (nameLabel name)
      (name.toList.map Ident.toTree ++ (base.trees ++ members.trees))]
  | _, .blockStmt block => block.trees
  | _, .ifStmt span test consequent alternate =>
    [.inner .ifStatement span "" (test.trees ++ (consequent.trees ++ alternate.trees))]
  | _, .forStmt span init test update body =>
    [.inner .forStatement span ""
      (init.trees ++ (test.trees ++ (update.trees ++ body.trees)))]
  | _, .forInStmt span isOf left right body =>
    [.inner (if isOf then .forOfStatement else .forInStatement) span ""
      (left.trees ++ (right.trees ++ body.trees))]
  | _, .whileStmt span test body => [.inner .whileStatement span "" (test.trees ++ body.trees)]
  | _, .doWhileStmt span body test =>
    [.inner .doWhileStatement span "" (body.trees ++ test.trees)]
  | _, .tryStmt span block handler finalizer =>
    [.inner .tryStatement span "" (block.trees ++ (handler.trees ++ finalizer.trees))]
  | _, .exitStmt span kind arg => [.inner kind.nodeKind span "" arg.trees]
  | _, .switchStmt span discriminant cases =>
    [.inner .switchStatement span "" (discriminant.trees ++ cases.trees)]
  | _, .labeledStmt span label body =>
    [.inner .labeledStatement span "" (label.toTree :: body.trees)]
  | _, .jumpStmt span kind label =>
    [.inner kind.nodeKind span "" (label.toList.map Label.toTree)]
  | _, .withStmt span base body =>
    [.inner .withStatement span "" (base.trees ++ body.trees)]
  | _, .importDecl span names source =>
    [.inner .importDeclaration span ""
      (names.map Ident.toTree ++ source.toList.map Literal.toTree)]
  | _, .exportDecl span names source =>
    [.inner .exportDeclaration span ""
      (names.map Ident.toTree ++ source.toList.map Literal.toTree)]
  | _, .emptyStmt span => [.inner .emptyStatement span "" []]
  | _, .debuggerStmt span => [.inner .debuggerStatement span "" []]
  | _, .badStmt span items => [.inner .badStatement span "" items.trees]
  | _, .blockOf span body => [.inner .blockStatement span "" body.trees]
  | _, .declarationOf span kind declarators =>
    [.inner .variableDeclaration span kind.word declarators.trees]
  | _, .declaratorOf span name init =>
    [.inner .variableDeclarator span "" (name.trees ++ init.trees)]
  | _, .initDecl decl => decl.trees
  | _, .initExpr value => value.trees
  | _, .headDecl decl => decl.trees
  | _, .headPattern pattern => pattern.trees
  | _, .handlerOf span param body =>
    [.inner .catchClause span "" (param.trees ++ body.trees)]
  | _, .caseOf span test body =>
    [.inner .switchCase span test.caseLabel (test.trees ++ body.trees)]

end Ast

def Program.toTree (p : Program) : Tree := .inner .program p.span "" p.body.trees

end ScriptLens
