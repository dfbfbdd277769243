import ScriptLens.Ast.Basic
import ScriptLens.Scope.Basic

/-! # What a program does to its scopes

A program, seen from its scopes, is a sequence of events in source order: scopes are
entered and left, and identifiers declare a name, use one, name the function they
stand in, or are mere property names. Every identifier of the program gives exactly
one event.
-/
namespace ScriptLens

inductive Event where
  | enter (kind : ScopeKind) (span : Span)
  | leave
  | declare (kind : BindingKind) (id : Ident)
  | refer (id : Ident)
  /-- The name of a function expression, inside the scope of the function. -/
  | nameSelf (id : Ident)
  /-- A name that is looked up in an object and never in a scope. -/
  | property (id : Ident)
deriving DecidableEq

namespace Event

def within (kind : ScopeKind) (span : Span) (body : List Event) : List Event :=
  .enter kind span :: body ++ [.leave]

def withinIf (needed : Bool) (kind : ScopeKind) (span : Span) (body : List Event) : List Event :=
  if needed then within kind span body else body

end Event

def DeclKind.bindingKind : DeclKind → BindingKind
  | .varDecl => .varDecl
  | .letDecl => .letDecl
  | .constDecl => .constDecl

namespace Ast

def isPresent {c : Category} : Ast (.opt c) → Bool
  | .absent => false
  | .present _ => true

/-- The event of an identifier in a pattern, which declares if the pattern does. -/
def targetEvent (binder : Option BindingKind) (id : Ident) : Event :=
  match binder with
  | some kind => .declare kind id
  | none => .refer id

/-- The events of a construct. If a pattern declares, `binder` says as what; all else
has no use for it. -/
def events : {c : Category} → (binder : Option BindingKind) → Ast c → List Event
  | _, _, .nil => []
  | _, b, .cons first rest => first.events b ++ rest.events b
  | _, _, .absent => []
  | _, b, .present part => part.events b
  | _, _, .ident id => [.refer id]
  | _, _, .literal _ => []
  | _, _, .template _ parts => parts.events none
  | _, _, .tagged _ tag _ parts => tag.events none ++ parts.events none
  | _, _, .keyword _ _ => []
  | _, _, .array _ elements => elements.events none
  | _, _, .object _ props => props.events none
  | _, _, .function code name params _ body =>
    Event.within .function code.span
      (name.toList.map .nameSelf ++ (params.events (some .parameter) ++ body.events none))
  | _, _, .arrow span _ params body =>
    Event.within .function span (params.events (some .parameter) ++ body.events none)
  | _, _, .classExpr span name base members =>
    Event.withinIf name.isSome .block span
      (name.toList.map (.declare .classDecl) ++ (base.events none ++ members.events none))
  | _, _, .unary _ _ _ _ arg => arg.events none
  | _, _, .binary _ _ left right => left.events none ++ right.events none
  | _, _, .assign _ _ left right => left.events none ++ right.events none
  | _, _, .conditional _ test consequent alternate =>
    test.events none ++ (consequent.events none ++ alternate.events none)
  | _, _, .call _ _ _ callee args => callee.events none ++ args.events none
  | _, _, .get _ _ base property => base.events none ++ property.events none
  | _, _, .sequence _ exprs => exprs.events none
  | _, _, .paren _ inner => inner.events none
  | _, _, .badExpr _ items => items.events none
  | _, _, .arrowBlock _ body => body.events none
  | _, _, .arrowExpr value => value.events none
  | _, _, .named id => [.property id]
  | _, _, .hidden _ => []
  | _, _, .computed index => index.events none
  | _, _, .keyIdent id => [.property id]
  | _, _, .keyString _ _ => []
  | _, _, .keyNumber _ _ => []
  | _, _, .keyPrivate _ => []
  | _, _, .keyComputed value => value.events none
  | _, _, .pair _ key value => key.events none ++ value.events none
  | _, _, .shorthand id => [.refer id]
  | _, _, .methodProp method => method.events none
  | _, _, .spreadProp _ arg => arg.events none
  | _, _, .methodDef _ _ _ key code params _ body =>
    key.events none ++
      Event.within .function code.span (params.events (some .parameter) ++ body.events none)
  | _, _, .methodMember method => method.events none
  | _, _, .fieldMember span _ key value =>
    key.events none ++ Event.withinIf value.isPresent .function span (value.events none)
  | _, _, .staticBlock span _ body => Event.within .function span (body.events none)
  | _, b, .target id => [targetEvent b id]
  | _, b, .objectPattern _ fields => fields.events b
  | _, b, .arrayPattern _ elements => elements.events b
  | _, b, .restPattern _ arg => arg.events b
  | _, b, .defaultPattern _ left right => left.events b ++ right.events none
  | _, _, .exprPattern value => value.events none
  | _, b, .fieldPair _ key value => key.events none ++ value.events b
  | _, b, .fieldShorthand value => value.events b
  | _, b, .fieldRest _ arg => arg.events b
  | _, _, .exprStmt _ value => value.events none
  | _, _, .varStmt decl => decl.events none
  | _, _, .functionDecl code name params _ body =>
    name.toList.map (.declare .functionDecl) ++
      Event.within .function code.span (params.events (some .parameter) ++ body.events none)
  | _, _, .classDecl _ name base members =>
    name.toList.map (.declare .classDecl) ++ (base.events none ++ members.events none)
  | _, _, .blockStmt block => block.events none
  | _, _, .ifStmt _ test consequent alternate =>
    test.events none ++ (consequent.events none ++ alternate.events none)
  | _, _, .forStmt span init test update body =>
    Event.withinIf init.isLexical .loop span
      (init.events none ++ (test.events none ++ (update.events none ++ body.events none)))
  | _, _, .forInStmt span _ left right body =>
    Event.withinIf left.isLexical .loop span
      (left.events none ++ (right.events none ++ body.events none))
  | _, _, .whileStmt _ test body => test.events none ++ body.events none
  | _, _, .doWhileStmt _ body test => body.events none ++ test.events none
  | _, _, .tryStmt _ block handler finalizer =>
    block.events none ++ (handler.events none ++ finalizer.events none)
  | _, _, .exitStmt _ _ arg => arg.events none
  | _, _, .switchStmt span discriminant cases =>
    discriminant.events none ++
      Event.withinIf cases.isLexical .block span (cases.events none)
  | _, _, .labeledStmt _ _ body => body.events none
  | _, _, .jumpStmt _ _ _ => []
  | _, _, .withStmt _ base body => base.events none ++ body.events none
  | _, _, .importDecl _ names _ => names.map (.declare .constDecl)
  | _, _, .exportDecl _ names _ => names.map .refer
  | _, _, .emptyStmt _ => []
  | _, _, .debuggerStmt _ => []
  | _, _, .badStmt _ items => items.events none
  | _, _, .blockOf span body => Event.withinIf body.isLexical .block span (body.events none)
  | _, _, .declarationOf _ kind declarators => declarators.events (some kind.bindingKind)
  | _, b, .declaratorOf _ name init => name.events b ++ init.events none
  | _, _, .initDecl decl => decl.events none
  | _, _, .initExpr value => value.events none
  | _, _, .headDecl decl => decl.events none
  | _, _, .headPattern pattern => pattern.events none
  | _, _, .handlerOf span param body =>
    Event.withinIf param.isPresent .handler span
      (param.events (some .catchParameter) ++ body.events none)
  | _, _, .caseOf _ test body => test.events none ++ body.events none

end Ast

def Program.events (p : Program) : List Event := p.body.events none

end ScriptLens
