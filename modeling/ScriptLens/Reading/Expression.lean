import ScriptLens.Ast.View
import ScriptLens.Reading.Code

/-! # Reading expressions

A construct without a reading of its own, and a region that fits nowhere, keep the
expressions found in them.
-/
namespace ScriptLens

def Reading.property? (source : ByteArray) (r : Reading) : Option (Ast .property) :=
  match r.form with
  | .pair => some (.pair r.span (r.site.fieldKey source "key") (r.site.fieldExpr "value"))
  | .shorthandProperty => some (.shorthand (r.head.ident source))
  | .methodDefinition => some (.methodProp (r.site.method source))
  | .spreadElement => some (.spreadProp r.span (.present r.site.firstExpr))
  | _ => none

def Reading.access (source : ByteArray) (r : Reading) : Ast .access :=
  match r.form with
  | .privateProperty => .hidden (r.head.privateName source)
  | _ => .named (r.head.ident source)

def Reading.arrowBody (r : Reading) : Ast .arrowBody :=
  match r.form with
  | .statementBlock => .arrowBlock r.span r.site.statements
  | _ => .arrowExpr r.expr

namespace Site

def firstExpr? (s : Site) : Ast (.opt .expr) := .ofOption (s.first?.map Reading.expr)

def templateParts (s : Site) : Ast (.list .expr) :=
  .ofList (((s.parts.filter (·.form == .templateSubstitution)).filterMap
    fun r => r.site.first?).map Reading.expr)

/-- An access is optional if it is marked so by a role, a part or a token. -/
def isOptional (s : Site) : Bool :=
  (s.field? "optional_chain").isSome || (s.partOf? .optionalChain).isSome || s.hasToken "?."

def arguments (s : Site) : Ast (.list .expr) :=
  ((s.field? "arguments").map fun r => r.site.exprs).getD .nil

/-- An update is leading unless its operator stands behind its operand. -/
def isLeadingUpdate (s : Site) : Bool :=
  match s.field? "operator", s.field? "argument" with
  | some op, some arg => op.head.start < arg.head.start
  | _, _ => true

/-- A call whose arguments are a template is a tagged template. -/
def call (s : Site) : Expr :=
  let callee := s.fieldExpr "function"
  match s.field? "arguments" with
  | some args =>
    if args.form = .templateString then
      .tagged s.span callee args.span args.site.templateParts
    else .call s.span false s.isOptional callee args.site.exprs
  | none => .call s.span false s.isOptional callee .nil

def accessOf (source : ByteArray) (s : Site) : Ast .access :=
  ((s.field? "property").map (·.access source)).getD (.named ⟨.nowhere, ""⟩)

def arrowParams (s : Site) : Ast (.list .pattern) :=
  match s.field? "parameter" with
  | some r => .ofList [r.pattern]
  | none => s.params "parameters"

def arrowBody (s : Site) : Ast .arrowBody :=
  ((s.field? "body").map Reading.arrowBody).getD (.arrowBlock .nowhere .nil)

/-- The expressions that a sequence consists of, nested sequences included. -/
def sequenceItems (s : Site) : List Expr := s.parts.flatMap Reading.items

/-- Whatever expressions a region holds. -/
def recovered (s : Site) : Ast (.list .expr) :=
  .ofList ((s.parts.filter (!·.form.isBareName)).map Reading.expr)

def expr (source : ByteArray) (s : Site) : Expr :=
  match s.form with
  | .identifier | .undefined | .shorthandProperty => .ident (s.head.ident source)
  | .number => .literal (s.head.literal source .number)
  | .string => .literal (s.head.literal source .string)
  | .regex => .literal (s.head.literal source .regExp)
  | .boolean => .literal (s.head.literal source .boolean)
  | .null => .literal (s.head.literal source .null)
  | .templateString => .template s.span s.templateParts
  | .this => .keyword s.span .thisWord
  | .super => .keyword s.span .superWord
  | .metaProperty => .keyword s.span .metaWord
  | .array => .array s.span s.exprs
  | .object => .object s.span (.ofList (s.parts.filterMap (·.property? source)))
  | .functionExpression =>
    .function (s.callable s.span) (s.fieldIdent? source "name") (s.params "parameters")
      (s.blockSpan "body") (s.blockBody "body")
  | .arrowFunction => .arrow s.span (s.hasToken "async") s.arrowParams s.arrowBody
  | .classExpression =>
    .classExpr s.span (s.fieldIdent? source "name") s.baseClass (s.members source)
  | .unaryExpression =>
    .unary s.span .unary (s.fieldText source "operator") true (s.fieldExpr? "argument")
  | .updateExpression =>
    .unary s.span .update (s.fieldText source "operator") s.isLeadingUpdate
      (s.fieldExpr? "argument")
  | .awaitExpression => .unary s.span .await "await" true s.firstExpr?
  | .yieldExpression =>
    .unary s.span .yield (if s.hasToken "*" then "yield*" else "yield") true s.firstExpr?
  | .spreadElement => .unary s.span .spread spreadMark true (.present s.firstExpr)
  | .binaryExpression =>
    .binary s.span (s.fieldText source "operator") (s.fieldExpr "left") (s.fieldExpr "right")
  | .assignment => .assign s.span "=" (s.fieldPattern "left") (s.fieldExpr "right")
  | .augmentedAssignment =>
    .assign s.span (s.fieldText source "operator") (s.fieldPattern "left") (s.fieldExpr "right")
  | .ternaryExpression =>
    .conditional s.span (s.fieldExpr "condition") (s.fieldExpr "consequence")
      (s.fieldExpr "alternative")
  | .callExpression => s.call
  | .newExpression => .call s.span true false (s.fieldExpr "constructor") s.arguments
  | .memberExpression =>
    .get s.span s.isOptional (s.fieldExpr "object") (s.accessOf source)
  | .subscriptExpression =>
    .get s.span s.isOptional (s.fieldExpr "object") (.computed (s.fieldExpr "index"))
  | .sequenceExpression => .sequence s.span (.ofList s.sequenceItems)
  | .parenthesizedExpression => .paren s.span s.firstExpr
  | _ => .badExpr s.span s.recovered

def items (s : Site) (expr : Expr) : List Expr :=
  match s.form with
  | .sequenceExpression => s.sequenceItems
  | _ => [expr]

end Site

end ScriptLens
