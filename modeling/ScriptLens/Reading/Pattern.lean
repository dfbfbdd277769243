import ScriptLens.Reading.Basic

/-! # Reading patterns and property keys

Targets of declarations and assignments. What is no pattern of its own is an
expression that stands as a target.
-/
namespace ScriptLens

def Reading.key (source : ByteArray) (r : Reading) : Ast .key :=
  match r.form with
  | .privateProperty => .keyPrivate (r.head.privateName source)
  | .string => .keyString r.span (r.head.text source)
  | .number => .keyNumber r.span (r.head.text source)
  | .computedProperty => .keyComputed r.site.firstExpr
  | _ => .keyIdent (r.head.ident source)

namespace Site

def fieldKey (source : ByteArray) (s : Site) (field : String) : Ast .key :=
  ((s.field? field).map (·.key source)).getD .missingKey

def firstPattern (s : Site) : Pattern := (s.first?.map Reading.pattern).getD .missingPattern

end Site

def Reading.field? (source : ByteArray) (r : Reading) : Option (Ast .field) :=
  match r.form with
  | .pairPattern =>
    some (.fieldPair r.span (r.site.fieldKey source "key") (r.site.fieldPattern "value"))
  | .shorthandPattern | .objectAssignmentPattern => some (.fieldShorthand r.pattern)
  | .restPattern => some (.fieldRest r.span r.site.firstPattern)
  | _ => none

/-- The pattern of a site that reads as `expr` if it is no pattern. -/
def Site.pattern (source : ByteArray) (s : Site) (expr : Expr) : Pattern :=
  match s.form with
  | .identifier | .shorthandPattern | .undefined => .target (s.head.ident source)
  | .objectPattern => .objectPattern s.span (.ofList (s.parts.filterMap (·.field? source)))
  | .arrayPattern => .arrayPattern s.span s.patterns
  | .assignmentPattern | .objectAssignmentPattern =>
    .defaultPattern s.span (s.fieldPattern "left") (s.fieldExpr "right")
  | .restPattern => .restPattern s.span s.firstPattern
  | _ => .exprPattern expr

end ScriptLens
