import ScriptLens.Reading.Pattern

/-! # Reading functions and classes -/
namespace ScriptLens

namespace Site

def params (s : Site) (field : String) : Ast (.list .pattern) :=
  ((s.field? field).map fun r => r.site.patterns).getD .nil

def callable (s : Site) (span : Span) : Callable :=
  ⟨span, s.hasToken "async", s.hasToken "*"⟩

/-- The function of a method spans the parameters and the body, not the key. -/
def methodSpan (s : Site) : Span :=
  match s.field? "parameters" with
  | some r => r.span.cover (s.blockSpan "body")
  | none => s.blockSpan "body"

def methodKind (s : Site) : MethodKind :=
  match (s.token? ["get", "set"]).map (·.head.kind) with
  | some "get" => .getter
  | some "set" => .setter
  | _ => .method

def method (source : ByteArray) (s : Site) : Ast .method :=
  .methodDef s.span s.methodKind (s.hasToken "static") (s.fieldKey source "name")
    (s.callable s.methodSpan) (s.params "parameters") (s.blockSpan "body") (s.blockBody "body")

def baseClass (s : Site) : Ast (.opt .expr) :=
  .ofOption (((s.partOf? .classHeritage).bind fun r => r.site.first?).map Reading.expr)

end Site

/-- A member of a class body; a field without a key is none. -/
def Reading.member? (source : ByteArray) (r : Reading) : Option (Ast .member) :=
  match r.form with
  | .methodDefinition => some (.methodMember (r.site.method source))
  | .fieldDefinition =>
    (r.site.field? "property").map fun key =>
      .fieldMember r.span (r.site.hasToken "static") (key.key source) (r.site.fieldExpr? "value")
  | .classStaticBlock =>
    some (.staticBlock r.span (r.site.blockSpan "body") (r.site.blockBody "body"))
  | _ => none

def Site.members (source : ByteArray) (s : Site) : Ast (.list .member) :=
  ((s.field? "body").map fun r => .ofList (r.site.parts.filterMap (·.member? source))).getD .nil

end ScriptLens
