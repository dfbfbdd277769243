import ScriptLens.Completion.Builtin
import ScriptLens.Completion.Context
import ScriptLens.Index.Query
import ScriptLens.Scope.Basic
import ScriptLens.Text.Blank
import ScriptLens.Text.Lowercase

/-! # Offering candidates

For a property the members of its object are offered, as far as a table or the
initial value of a global tells them, and what every object has. Elsewhere global
names are offered. A buffer that is being edited adds the names it declares. Of
several candidates with one label the first counts, and only those are offered that
continue what was typed, in either case.
-/
namespace ScriptLens

structure Indexed where
  index : Index
  resolution : Option Resolution

def NodeKind.isFunction : NodeKind → Bool
  | .functionExpression | .arrowFunction => true
  | _ => false

namespace Indexed

/-- The value that a binding is declared with, next to the declaring identifier. -/
def initializer? (x : Indexed) (b : BindingRecord) : Option NodeRecord :=
  (x.index.parent? b.decl).bind fun declarator =>
    if declarator.kind = .variableDeclarator && declarator.children[0]? == some b.decl then
      declarator.children[1]?.bind x.index.node?
    else none

def globalBinding? (x : Indexed) (name : String) : Option BindingRecord :=
  x.resolution.bind fun r =>
    r.global?.bind fun scope => (scope.binding? name).bind r.binding?

/-- A key in brackets is an expression and no name. -/
def isComputedKey (x : Indexed) (member key : NodeRecord) : Bool :=
  member.id ≠ key.id &&
    (x.index.textOf? member.id).any fun text =>
      (Text.slice? text.toUTF8 0 (key.span.start - member.span.start)).any fun front =>
        (Text.trimEnd front.toList).getLast? == some '['

def keyOf? (x : Indexed) (member : NodeRecord) : Option NodeRecord :=
  match member.kind with
  | .identifier => some member
  | .property | .methodDefinition => (x.index.children member.id).head?
  | _ => none

def memberKind (x : Indexed) (member : NodeRecord) : CandidateKind :=
  match member.kind with
  | .methodDefinition => .method
  | .property =>
    match (x.index.children member.id)[1]? with
    | some value => if value.kind.isFunction then .method else .property
    | none => .property
  | _ => .property

def memberCandidate? (x : Indexed) (member : NodeRecord) : Option Candidate :=
  (x.keyOf? member).bind fun key =>
    if x.isComputedKey member key then none
    else key.name.map (⟨·, x.memberKind member, "property"⟩)

def objectKeys (x : Indexed) (object : NodeRecord) : List Candidate :=
  (x.index.children object.id).filterMap x.memberCandidate?

def shapeMembers (x : Indexed) (value : NodeRecord) : List Candidate :=
  match value.kind with
  | .objectLiteral => x.objectKeys value
  | .arrayLiteral => Builtin.arrayMembers
  | _ => []

def propertyCandidates (x : Indexed) (base : String) : List Candidate :=
  (match Builtin.members? base with
    | some members => members
    | none =>
      (((x.globalBinding? base).bind x.initializer?).map x.shapeMembers).getD []) ++
    Builtin.objectMembers

/-- A global name is a function if it is declared as one or starts out as one. -/
def globalCandidate (x : Indexed) (b : BindingRecord) : Candidate :=
  let isFunction := b.kind == .functionDecl ||
    (x.initializer? b).any fun value => value.kind.isFunction
  ⟨b.name, if isFunction then .function else .variable, b.kind.word⟩

def nameCandidates (x : Indexed) : List Candidate :=
  ((x.resolution.map Resolution.globals).getD []).map x.globalCandidate ++ Builtin.globals

end Indexed

namespace Snapshot

/-- An identifier that is really there. -/
def identifierText? (s : Snapshot) : Option String :=
  if s.head.kind == "identifier" && !s.head.isMissing then s.head.text else none

def declares? (s : Snapshot) : Option CandidateKind :=
  match s.head.kind with
  | "variable_declarator" | "class_declaration" => some .variable
  | "function_declaration" | "generator_function_declaration" => some .function
  | _ => none

/-- The declared name: of a variable the first child, otherwise the first identifier. -/
def declaredName? (s : Snapshot) : Option String :=
  let first := s.children.head?.bind identifierText?
  if s.head.kind == "variable_declarator" then first
  else
    first.or ((s.children.find? fun c =>
      c.head.kind == "identifier" && !c.head.isMissing).bind (·.head.text))

def declared (s : Snapshot) : List Candidate :=
  s.nodes.filterMap fun n : Snapshot =>
    n.declares?.bind fun kind => n.declaredName?.map (⟨·, kind, "buffer"⟩)

end Snapshot

namespace Candidate

/-- Whether a label starts with a text, where case makes no difference. -/
def continues (typed : String) (c : Candidate) : Bool :=
  (Text.lowercase typed.toList).isPrefixOf (Text.lowercase c.label.toList)

/-- One pass over candidates, apart from labels seen before. What is the first with its
label and continues the typed text is kept; a candidate that does not continue it hides
later ones with its label all the same. -/
def sift (typed : String) (seen : List String) : List Candidate → List Candidate
  | [] => []
  | c :: rest =>
    if seen.contains c.label then sift typed seen rest
    else if c.continues typed then c :: sift typed (c.label :: seen) rest
    else sift typed (c.label :: seen) rest

end Candidate

namespace Context

/-- All that fits a context, before anything is left out. -/
def fitting (c : Context) (x : Indexed) : List Candidate :=
  match c.kind with
  | .nothing => []
  | .property => x.propertyCandidates (String.ofList (Text.trim c.base.toList))
  | .identifier | .argument => x.nameCandidates

def candidates (c : Context) (x : Indexed) (buffer : Option Snapshot) : List Candidate :=
  if c.isNothing then []
  else Candidate.sift c.typed [] (c.fitting x ++ (buffer.map Snapshot.declared).getD [])

end Context

end ScriptLens
