import ScriptLens.Ast.Leaf

/-! # Programs

One family of trees covers the whole language, indexed by the category of the
construct, so that a construct can only stand where its category is asked for.
Lists and optional parts are categories of their own: a statement list is a tree
like a statement, and a function over programs is one recursion over one family.
-/
namespace ScriptLens

inductive Category where
  | expr | stmt | pattern | block | declaration | declarator | forInit | forHead
  | handler | case | arrowBody | method | member | key | property | access | field
  | list (c : Category)
  | opt (c : Category)
deriving DecidableEq

inductive DeclKind where
  | varDecl | letDecl | constDecl
deriving DecidableEq

/-- Words that are expressions by themselves. -/
inductive Keyword where
  | thisWord | superWord | metaWord
deriving DecidableEq

inductive UnaryKind where
  | unary | update | await | yield | spread
deriving DecidableEq

inductive MethodKind where
  | method | getter | setter
deriving DecidableEq

/-- Statements that leave a function with an optional value. -/
inductive ExitKind where
  | returns | throws
deriving DecidableEq

/-- Statements that leave or restart a labelled statement. -/
inductive JumpKind where
  | breaks | continues
deriving DecidableEq

/-- What functions of every form share besides parameters and body. -/
structure Callable where
  span : Span
  isAsync : Bool
  isGenerator : Bool
deriving DecidableEq

inductive Ast : Category → Type where
  | nil {c : Category} : Ast (.list c)
  | cons {c : Category} (first : Ast c) (rest : Ast (.list c)) : Ast (.list c)
  | absent {c : Category} : Ast (.opt c)
  | present {c : Category} (part : Ast c) : Ast (.opt c)
  -- expressions
  | ident (id : Ident) : Ast .expr
  | literal (lit : Literal) : Ast .expr
  | template (span : Span) (parts : Ast (.list .expr)) : Ast .expr
  | tagged (span : Span) (tag : Ast .expr) (quasi : Span) (parts : Ast (.list .expr)) : Ast .expr
  | keyword (span : Span) (word : Keyword) : Ast .expr
  | array (span : Span) (elements : Ast (.list .expr)) : Ast .expr
  | object (span : Span) (props : Ast (.list .property)) : Ast .expr
  | function (code : Callable) (name : Option Ident) (params : Ast (.list .pattern))
      (bodySpan : Span) (body : Ast (.list .stmt)) : Ast .expr
  | arrow (span : Span) (isAsync : Bool) (params : Ast (.list .pattern)) (body : Ast .arrowBody) :
      Ast .expr
  | classExpr (span : Span) (name : Option Ident) (base : Ast (.opt .expr))
      (members : Ast (.list .member)) : Ast .expr
  | unary (span : Span) (kind : UnaryKind) (op : String) (isLeading : Bool)
      (arg : Ast (.opt .expr)) : Ast .expr
  | binary (span : Span) (op : String) (left right : Ast .expr) : Ast .expr
  | assign (span : Span) (op : String) (left : Ast .pattern) (right : Ast .expr) : Ast .expr
  | conditional (span : Span) (test consequent alternate : Ast .expr) : Ast .expr
  | call (span : Span) (isNew isOptional : Bool) (callee : Ast .expr) (args : Ast (.list .expr)) :
      Ast .expr
  | get (span : Span) (isOptional : Bool) (object : Ast .expr) (property : Ast .access) : Ast .expr
  | sequence (span : Span) (exprs : Ast (.list .expr)) : Ast .expr
  | paren (span : Span) (inner : Ast .expr) : Ast .expr
  | badExpr (span : Span) (items : Ast (.list .expr)) : Ast .expr
  -- parts of expressions
  | arrowBlock (span : Span) (body : Ast (.list .stmt)) : Ast .arrowBody
  | arrowExpr (value : Ast .expr) : Ast .arrowBody
  | named (id : Ident) : Ast .access
  | hidden (name : PrivateName) : Ast .access
  | computed (index : Ast .expr) : Ast .access
  | keyIdent (id : Ident) : Ast .key
  | keyString (span : Span) (raw : String) : Ast .key
  | keyNumber (span : Span) (raw : String) : Ast .key
  | keyPrivate (name : PrivateName) : Ast .key
  | keyComputed (value : Ast .expr) : Ast .key
  | pair (span : Span) (key : Ast .key) (value : Ast .expr) : Ast .property
  | shorthand (id : Ident) : Ast .property
  | methodProp (method : Ast .method) : Ast .property
  | spreadProp (span : Span) (arg : Ast (.opt .expr)) : Ast .property
  | methodDef (span : Span) (kind : MethodKind) (isStatic : Bool) (key : Ast .key)
      (code : Callable) (params : Ast (.list .pattern)) (bodySpan : Span)
      (body : Ast (.list .stmt)) : Ast .method
  | methodMember (method : Ast .method) : Ast .member
  | fieldMember (span : Span) (isStatic : Bool) (key : Ast .key) (value : Ast (.opt .expr)) :
      Ast .member
  | staticBlock (span bodySpan : Span) (body : Ast (.list .stmt)) : Ast .member
  -- patterns
  | target (id : Ident) : Ast .pattern
  | objectPattern (span : Span) (fields : Ast (.list .field)) : Ast .pattern
  | arrayPattern (span : Span) (elements : Ast (.list .pattern)) : Ast .pattern
  | restPattern (span : Span) (arg : Ast .pattern) : Ast .pattern
  | defaultPattern (span : Span) (left : Ast .pattern) (right : Ast .expr) : Ast .pattern
  | exprPattern (value : Ast .expr) : Ast .pattern
  | fieldPair (span : Span) (key : Ast .key) (value : Ast .pattern) : Ast .field
  | fieldShorthand (value : Ast .pattern) : Ast .field
  | fieldRest (span : Span) (arg : Ast .pattern) : Ast .field
  -- statements
  | exprStmt (span : Span) (value : Ast .expr) : Ast .stmt
  | varStmt (decl : Ast .declaration) : Ast .stmt
  | functionDecl (code : Callable) (name : Option Ident) (params : Ast (.list .pattern))
      (bodySpan : Span) (body : Ast (.list .stmt)) : Ast .stmt
  | classDecl (span : Span) (name : Option Ident) (base : Ast (.opt .expr))
      (members : Ast (.list .member)) : Ast .stmt
  | blockStmt (block : Ast .block) : Ast .stmt
  | ifStmt (span : Span) (test : Ast .expr) (consequent : Ast .stmt)
      (alternate : Ast (.opt .stmt)) : Ast .stmt
  | forStmt (span : Span) (init : Ast (.opt .forInit)) (test update : Ast (.opt .expr))
      (body : Ast .stmt) : Ast .stmt
  | forInStmt (span : Span) (isOf : Bool) (left : Ast .forHead) (right : Ast .expr)
      (body : Ast .stmt) : Ast .stmt
  | whileStmt (span : Span) (test : Ast .expr) (body : Ast .stmt) : Ast .stmt
  | doWhileStmt (span : Span) (body : Ast .stmt) (test : Ast .expr) : Ast .stmt
  | tryStmt (span : Span) (block : Ast .block) (handler : Ast (.opt .handler))
      (finalizer : Ast (.opt .block)) : Ast .stmt
  | exitStmt (span : Span) (kind : ExitKind) (arg : Ast (.opt .expr)) : Ast .stmt
  | switchStmt (span : Span) (discriminant : Ast .expr) (cases : Ast (.list .case)) : Ast .stmt
  | labeledStmt (span : Span) (label : Label) (body : Ast .stmt) : Ast .stmt
  | jumpStmt (span : Span) (kind : JumpKind) (label : Option Label) : Ast .stmt
  | withStmt (span : Span) (object : Ast .expr) (body : Ast .stmt) : Ast .stmt
  | importDecl (span : Span) (names : List Ident) (source : Option Literal) : Ast .stmt
  | exportDecl (span : Span) (names : List Ident) (source : Option Literal) : Ast .stmt
  | emptyStmt (span : Span) : Ast .stmt
  | debuggerStmt (span : Span) : Ast .stmt
  | badStmt (span : Span) (items : Ast (.list .stmt)) : Ast .stmt
  -- parts of statements
  | blockOf (span : Span) (body : Ast (.list .stmt)) : Ast .block
  | declarationOf (span : Span) (kind : DeclKind) (declarators : Ast (.list .declarator)) :
      Ast .declaration
  | declaratorOf (span : Span) (name : Ast .pattern) (init : Ast (.opt .expr)) : Ast .declarator
  | initDecl (decl : Ast .declaration) : Ast .forInit
  | initExpr (value : Ast .expr) : Ast .forInit
  | headDecl (decl : Ast .declaration) : Ast .forHead
  | headPattern (pattern : Ast .pattern) : Ast .forHead
  | handlerOf (span : Span) (param : Ast (.opt .pattern)) (body : Ast .block) : Ast .handler
  | caseOf (span : Span) (test : Ast (.opt .expr)) (body : Ast (.list .stmt)) : Ast .case

abbrev Expr := Ast .expr
abbrev Stmt := Ast .stmt
abbrev Pattern := Ast .pattern

structure Program where
  span : Span
  body : Ast (.list .stmt)

namespace Ast

def ofList {c : Category} : List (Ast c) → Ast (.list c)
  | [] => .nil
  | a :: rest => .cons a (ofList rest)

def ofOption {c : Category} : Option (Ast c) → Ast (.opt c)
  | none => .absent
  | some a => .present a

variable {c : Category} {β : Type}

/-- What is listed of a list part by part is listed of each of its parts. -/
theorem flatMap_ofList {f : Ast (.list c) → List β} {g : Ast c → List β} (nil : f .nil = [])
    (cons : ∀ a rest, f (.cons a rest) = g a ++ f rest) (parts : List (Ast c)) :
    f (ofList parts) = parts.flatMap g := by
  induction parts with
  | nil => exact nil
  | cons a rest ih => rw [ofList, cons, ih, List.flatMap_cons]

theorem flatMap_ofOption {f : Ast (.opt c) → List β} {g : Ast c → List β} (absent : f .absent = [])
    (present : ∀ a, f (.present a) = g a) (part : Option (Ast c)) :
    f (ofOption part) = part.toList.flatMap g := by
  cases part with
  | none => exact absent
  | some a => rw [ofOption, present, Option.toList_some, List.flatMap_singleton]

def missingExpr : Expr := .badExpr .nowhere .nil

def missingPattern : Pattern := .exprPattern missingExpr

def missingStmt : Stmt := .emptyStmt .nowhere

def missingKey : Ast .key := .keyComputed missingExpr

/-- Declares a name with `let`, `const` or `class` on its own level, not inside a
nested construct. A list or an optional part does so if some part of it does. -/
def isLexical : {c : Category} → Ast c → Bool
  | _, .cons first rest => first.isLexical || rest.isLexical
  | _, .present part => part.isLexical
  | _, .varStmt decl => decl.isLexical
  | _, .classDecl .. => true
  | _, .declarationOf _ kind _ => kind != .varDecl
  | _, .initDecl decl => decl.isLexical
  | _, .headDecl decl => decl.isLexical
  | _, .caseOf _ _ body => body.isLexical
  | _, _ => false

/-- The identifiers that a pattern binds, in source order. Defaults, computed keys
and assignment targets that are expressions bind none. -/
def boundIdents : {c : Category} → Ast c → List Ident
  | _, .cons first rest => first.boundIdents ++ rest.boundIdents
  | _, .target id => [id]
  | _, .objectPattern _ fields => fields.boundIdents
  | _, .arrayPattern _ elements => elements.boundIdents
  | _, .restPattern _ arg => arg.boundIdents
  | _, .defaultPattern _ left _ => left.boundIdents
  | _, .fieldPair _ _ value => value.boundIdents
  | _, .fieldShorthand value => value.boundIdents
  | _, .fieldRest _ arg => arg.boundIdents
  | _, _ => []

/-- The name under which a key stores its value, unless it is computed. -/
def staticName? : Ast .key → Option String
  | .keyIdent id => some id.name
  | .keyString span raw => some (Literal.value ⟨span, .string, raw⟩)
  | .keyNumber _ raw => some raw
  | .keyPrivate name => some name.name
  | .keyComputed _ => none

end Ast

end ScriptLens
