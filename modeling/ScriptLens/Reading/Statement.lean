import ScriptLens.Reading.Expression

/-! # Reading statements -/
namespace ScriptLens

/-- The declaration that a word starts; words that start none count as `var`. -/
def DeclKind.ofWord : String → DeclKind
  | "const" => .constDecl
  | "let" => .letDecl
  | _ => .varDecl

def Reading.declarator? (r : Reading) : Option (Ast .declarator) :=
  match r.form with
  | .variableDeclarator =>
    some (.declaratorOf r.span (r.site.fieldPattern "name") (r.site.fieldExpr? "value"))
  | _ => none

namespace Site

/-- A lexical declaration says by a word which kind it is. -/
def declKind (source : ByteArray) (s : Site) : DeclKind :=
  match s.form with
  | .variableDeclaration => .varDecl
  | _ =>
    (((s.field? "kind").or (s.token? ["let", "const"])).map
      fun r => .ofWord (r.head.text source)).getD .letDecl

def declaration (source : ByteArray) (s : Site) : Ast .declaration :=
  .declarationOf s.span (s.declKind source) (.ofList (s.parts.filterMap Reading.declarator?))

end Site

/-- A clause in the head of a loop, which may be empty. -/
def Reading.clause? (r : Reading) : Option Expr :=
  match r.form with
  | .expressionStatement => r.site.first?.map Reading.expr
  | .emptyStatement | .comment => none
  | _ => if r.head.isNamed then some r.expr else none

def Reading.forInit? (source : ByteArray) (r : Reading) : Option (Ast .forInit) :=
  match r.form with
  | .lexicalDeclaration | .variableDeclaration => some (.initDecl (r.site.declaration source))
  | _ => r.clause?.map .initExpr

/-- A case of a switch: the last value in it is tested. -/
def Reading.case? (r : Reading) : Option (Ast .case) :=
  match r.form with
  | .switchCase =>
    some (.caseOf r.span (.ofOption ((r.site.fields "value").getLast?.map Reading.expr))
      (.ofList ((r.site.fields "body").filterMap Reading.stmt)))
  | _ => none

def Reading.importedNames (source : ByteArray) (r : Reading) : List Ident :=
  match r.form with
  | .identifier => [r.head.ident source]
  | .namespaceImport => (r.site.first?.map (·.head.ident source)).toList
  | .namedImports =>
    r.site.parts.filterMap fun spec =>
      ((spec.site.field? "alias").or (spec.site.field? "name")).bind fun name =>
        if name.form = .identifier then some (name.head.ident source) else none
  | _ => []

def Reading.exportedName? (source : ByteArray) (r : Reading) : Option Ident :=
  (r.site.field? "name").bind fun name =>
    if name.form = .identifier then some (name.head.ident source) else none

/-- A part of a region that fits nowhere, as a statement. -/
def Reading.recoveredStmt? (r : Reading) : Option Stmt :=
  if r.form.isStatement || r.form == .error then r.stmt else some (.exprStmt r.span r.expr)

/-- A branch behind `else` stands inside its clause. -/
def Reading.branch? (r : Reading) : Option Stmt :=
  match r.form with
  | .elseClause => r.site.first?.bind Reading.stmt
  | _ => r.stmt

/-- The clause that catches; its parameter may be left out. -/
def Reading.handler (r : Reading) : Ast .handler :=
  .handlerOf r.span (.ofOption ((r.site.field? "parameter").map Reading.pattern))
    (r.site.block "body")

namespace Site

/-- The clauses of a loop head: in each role the last one that is not empty. -/
def forStmt (source : ByteArray) (s : Site) : Stmt :=
  .forStmt s.span
    (.ofOption ((s.fields "initializer").filterMap (·.forInit? source)).getLast?)
    (.ofOption ((s.fields "condition").filterMap Reading.clause?).getLast?)
    (.ofOption ((s.fields "increment").filterMap Reading.clause?).getLast?)
    (((s.fields "body").getLast?.bind Reading.stmt).getD .missingStmt)

/-- The head of a loop over members declares a name if a word says so. -/
def forHead (source : ByteArray) (s : Site) : Ast .forHead :=
  match (s.field? "kind").or (s.token? ["var", "let", "const"]), s.field? "left" with
  | some word, some left =>
    .headDecl (.declarationOf (word.span.cover left.span) (.ofWord (word.head.text source))
      (.ofList [.declaratorOf left.span left.pattern .absent]))
  | none, some left => .headPattern left.pattern
  | _, none => .headPattern .missingPattern

def tryStmt (s : Site) : Stmt :=
  .tryStmt s.span (s.block "body") (.ofOption ((s.field? "handler").map Reading.handler))
    (.ofOption ((s.field? "finalizer").map fun r => r.site.block "body"))

def switchStmt (s : Site) : Stmt :=
  .switchStmt s.span (s.condition "value")
    (((s.field? "body").map fun r => .ofList (r.site.parts.filterMap Reading.case?)).getD .nil)

def moduleSource (source : ByteArray) (s : Site) : Option Literal :=
  (s.field? "source").map (·.head.literal source .string)

def importDecl (source : ByteArray) (s : Site) : Stmt :=
  .importDecl s.span
    (((s.partOf? .importClause).map fun r =>
      r.site.parts.flatMap (·.importedNames source)).getD [])
    (s.moduleSource source)

/-- The local names of an export clause; an export from elsewhere has none. -/
def exportedNames (source : ByteArray) (s : Site) : List Ident :=
  match s.moduleSource source with
  | some _ => []
  | none =>
    ((s.partOf? .exportClause).map fun r =>
      r.site.parts.filterMap (·.exportedName? source)).getD []

/-- An exported declaration stands for itself and an exported value for a
statement; only a list of names stays an export. -/
def exportStmt (source : ByteArray) (s : Site) : Stmt :=
  match s.field? "declaration" with
  | some r => r.stmt.getD (.exprStmt r.span r.expr)
  | none =>
    match s.field? "value" with
    | some r => .exprStmt s.span r.expr
    | none => .exportDecl s.span (s.exportedNames source) (s.moduleSource source)

/-- The statement of a site that reads as `expr` if it is no statement. -/
def stmt (source : ByteArray) (s : Site) (expr : Expr) : Option Stmt :=
  match s.form with
  | .expressionStatement => some (.exprStmt s.span s.firstExpr)
  | .variableDeclaration | .lexicalDeclaration => some (.varStmt (s.declaration source))
  | .functionDeclaration =>
    some (.functionDecl (s.callable s.span) (s.fieldIdent? source "name")
      (s.params "parameters") (s.blockSpan "body") (s.blockBody "body"))
  | .classDeclaration =>
    some (.classDecl s.span (s.fieldIdent? source "name") s.baseClass (s.members source))
  | .statementBlock => some (.blockStmt (.blockOf s.span s.statements))
  | .ifStatement =>
    some (.ifStmt s.span (s.condition "condition") (s.fieldStmt "consequence")
      (.ofOption ((s.field? "alternative").bind Reading.branch?)))
  | .forStatement => some (s.forStmt source)
  | .forInStatement =>
    some (.forInStmt s.span (s.hasToken "of") (s.forHead source) (s.fieldExpr "right")
      (s.fieldStmt "body"))
  | .whileStatement =>
    some (.whileStmt s.span (s.condition "condition") (s.fieldStmt "body"))
  | .doStatement =>
    some (.doWhileStmt s.span (s.fieldStmt "body") (s.condition "condition"))
  | .tryStatement => some s.tryStmt
  | .returnStatement => some (.exitStmt s.span .returns s.firstExpr?)
  | .throwStatement => some (.exitStmt s.span .throws s.firstExpr?)
  | .breakStatement =>
    some (.jumpStmt s.span .breaks ((s.field? "label").map (·.head.label source)))
  | .continueStatement =>
    some (.jumpStmt s.span .continues ((s.field? "label").map (·.head.label source)))
  | .labeledStatement =>
    some (.labeledStmt s.span
      (((s.field? "label").map (·.head.label source)).getD ⟨.nowhere, ""⟩)
      (s.fieldStmt "body"))
  | .switchStatement => some s.switchStmt
  | .withStatement => some (.withStmt s.span (s.condition "object") (s.fieldStmt "body"))
  | .emptyStatement => some (.emptyStmt s.span)
  | .debuggerStatement => some (.debuggerStmt s.span)
  | .importStatement => some (s.importDecl source)
  | .exportStatement => some (s.exportStmt source)
  | .error => some (.badStmt s.span (.ofList (s.parts.filterMap Reading.recoveredStmt?)))
  | .comment | .htmlComment | .hashBang => none
  | _ => some (.exprStmt s.span expr)

end Site

end ScriptLens
