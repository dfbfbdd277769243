import ScriptLens.Ast.Basic
import ScriptLens.Cst.Basic

/-! # Readings of concrete syntax

What a concrete node stands for depends on where it is used: the same node may be
asked for an expression, a statement or a pattern. A reading of a tree holds all
three answers at every node, so a construct is read from the readings of its parts
and no part is read twice.

A site is a node whose parts have been read. Comments are no parts, whatever the
place.
-/
namespace ScriptLens

structure Reading where
  head : CstHead
  expr : Expr
  /-- The expressions that the node adds to a sequence around it. -/
  items : List Expr
  /-- The node as a statement; comments and the first line of a script are none. -/
  stmt : Option Stmt
  /-- The node as the target of a declaration or an assignment. -/
  pattern : Pattern
  children : List Reading

structure Site where
  head : CstHead
  children : List Reading

namespace CstHead

def ident (source : ByteArray) (h : CstHead) : Ident := ⟨h.span, h.text source⟩

def privateName (source : ByteArray) (h : CstHead) : PrivateName := ⟨h.span, h.text source⟩

def label (source : ByteArray) (h : CstHead) : Label := ⟨h.span, h.text source⟩

def literal (source : ByteArray) (h : CstHead) (kind : LiteralKind) : Literal :=
  ⟨h.span, kind, h.text source⟩

end CstHead

namespace Reading

def site (r : Reading) : Site := ⟨r.head, r.children⟩

def form (r : Reading) : Cst.Form := r.head.form

def span (r : Reading) : Span := r.head.span

/-- A child that can be a part of a construct. -/
def isPart (r : Reading) : Bool := r.head.isNamed && !r.form.isComment

end Reading

namespace Site

def form (s : Site) : Cst.Form := s.head.form

def span (s : Site) : Span := s.head.span

def parts (s : Site) : List Reading := s.children.filter Reading.isPart

def first? (s : Site) : Option Reading := s.children.find? Reading.isPart

def partOf? (s : Site) (form : Cst.Form) : Option Reading := s.parts.find? (·.form == form)

def field? (s : Site) (field : String) : Option Reading :=
  s.children.find? (·.head.field == some field)

/-- All children in a given role. Punctuation can share the role of a part. -/
def fields (s : Site) (field : String) : List Reading :=
  s.children.filter (·.head.field == some field)

def token? (s : Site) (words : List String) : Option Reading :=
  s.children.find? fun r => !r.head.isNamed && words.contains r.head.kind

def hasToken (s : Site) (word : String) : Bool := (s.token? [word]).isSome

def firstExpr (s : Site) : Expr := (s.first?.map Reading.expr).getD .missingExpr

def exprs (s : Site) : Ast (.list .expr) := .ofList (s.parts.map Reading.expr)

def patterns (s : Site) : Ast (.list .pattern) := .ofList (s.parts.map Reading.pattern)

def statements (s : Site) : Ast (.list .stmt) := .ofList (s.parts.filterMap Reading.stmt)

def fieldExpr? (s : Site) (field : String) : Ast (.opt .expr) :=
  .ofOption ((s.field? field).map Reading.expr)

def fieldExpr (s : Site) (field : String) : Expr :=
  ((s.field? field).map Reading.expr).getD .missingExpr

def fieldPattern (s : Site) (field : String) : Pattern :=
  ((s.field? field).map Reading.pattern).getD .missingPattern

def fieldStmt (s : Site) (field : String) : Stmt :=
  ((s.field? field).bind Reading.stmt).getD .missingStmt

def fieldText (source : ByteArray) (s : Site) (field : String) : String :=
  ((s.field? field).map (·.head.text source)).getD ""

def fieldIdent? (source : ByteArray) (s : Site) (field : String) : Option Ident :=
  (s.field? field).map (·.head.ident source)

/-- A condition in parentheses is read without them. -/
def condition (s : Site) (field : String) : Expr :=
  match s.field? field with
  | none => .missingExpr
  | some r => if r.form = .parenthesizedExpression then r.site.firstExpr else r.expr

def blockSpan (s : Site) (field : String) : Span :=
  ((s.field? field).map Reading.span).getD .nowhere

def blockBody (s : Site) (field : String) : Ast (.list .stmt) :=
  ((s.field? field).map fun r => r.site.statements).getD .nil

def block (s : Site) (field : String) : Ast .block :=
  .blockOf (s.blockSpan field) (s.blockBody field)

end Site

end ScriptLens
