import ScriptLens.Scope.Resolve

/-! # Visiting a program

Both passes visit the constructs of a program in source order. A construct with a scope
of its own is visited inside of that scope, and afterwards the scope around it is the
current one again. Whether a construct has a scope depends on the construct alone.
-/
namespace ScriptLens

namespace Resolver

def inside (pass : Pass) (kind : ScopeKind) (span : Span) (visit : Resolver → Resolver)
    (r : Resolver) : Resolver :=
  { visit (r.enter pass kind span) with current := r.current, outer := r.outer }

def insideIf (needed : Bool) (pass : Pass) (kind : ScopeKind) (span : Span)
    (visit : Resolver → Resolver) (r : Resolver) : Resolver :=
  if needed then r.inside pass kind span visit else visit r

def each (x : Index) (pass : Pass) (make : Ident → Event) (ids : List Ident) (r : Resolver) :
    Resolver :=
  ids.foldl (fun r id => r.step x pass (make id)) r

end Resolver

namespace Ast

variable (x : Index) (pass : Pass)

/-- Visits a construct. If a pattern declares, `binder` says as what; all else has no use
for it. -/
def visit : {c : Category} → (binder : Option BindingKind) → Ast c →
    Resolver → Resolver
  | _, _, .nil, r => r
  | _, b, .cons first rest, r => rest.visit b (first.visit b r)
  | _, _, .absent, r => r
  | _, b, .present part, r => part.visit b r
  | _, _, .ident id, r => r.step x pass (.refer id)
  | _, _, .literal _, r => r
  | _, _, .template _ parts, r => parts.visit none r
  | _, _, .tagged _ tag _ parts, r => parts.visit none (tag.visit none r)
  | _, _, .keyword _ _, r => r
  | _, _, .array _ elements, r => elements.visit none r
  | _, _, .object _ props, r => props.visit none r
  | _, _, .function code name params _ body, r =>
    r.inside pass .function code.span fun r =>
      body.visit none (params.visit (some .parameter)
        (r.each x pass .nameSelf name.toList))
  | _, _, .arrow span _ params body, r =>
    r.inside pass .function span fun r =>
      body.visit none (params.visit (some .parameter) r)
  | _, _, .classExpr span name base members, r =>
    r.insideIf name.isSome pass .block span fun r =>
      members.visit none (base.visit none
        (r.each x pass (.declare .classDecl) name.toList))
  | _, _, .unary _ _ _ _ arg, r => arg.visit none r
  | _, _, .binary _ _ left right, r => right.visit none (left.visit none r)
  | _, _, .assign _ _ left right, r => right.visit none (left.visit none r)
  | _, _, .conditional _ test consequent alternate, r =>
    alternate.visit none (consequent.visit none (test.visit none r))
  | _, _, .call _ _ _ callee args, r => args.visit none (callee.visit none r)
  | _, _, .get _ _ base property, r => property.visit none (base.visit none r)
  | _, _, .sequence _ exprs, r => exprs.visit none r
  | _, _, .paren _ inner, r => inner.visit none r
  | _, _, .badExpr _ items, r => items.visit none r
  | _, _, .arrowBlock _ body, r => body.visit none r
  | _, _, .arrowExpr value, r => value.visit none r
  | _, _, .named _, r => r
  | _, _, .hidden _, r => r
  | _, _, .computed index, r => index.visit none r
  | _, _, .keyIdent _, r => r
  | _, _, .keyString _ _, r => r
  | _, _, .keyNumber _ _, r => r
  | _, _, .keyPrivate _, r => r
  | _, _, .keyComputed value, r => value.visit none r
  | _, _, .pair _ key value, r => value.visit none (key.visit none r)
  | _, _, .shorthand id, r => r.step x pass (.refer id)
  | _, _, .methodProp method, r => method.visit none r
  | _, _, .spreadProp _ arg, r => arg.visit none r
  | _, _, .methodDef _ _ _ key code params _ body, r =>
    (key.visit none r).inside pass .function code.span fun r =>
      body.visit none (params.visit (some .parameter) r)
  | _, _, .methodMember method, r => method.visit none r
  | _, _, .fieldMember span _ key value, r =>
    (key.visit none r).insideIf value.isPresent pass .function span
      (value.visit none)
  | _, _, .staticBlock span _ body, r => r.inside pass .function span (body.visit none)
  | _, b, .target id, r => r.step x pass (targetEvent b id)
  | _, b, .objectPattern _ fields, r => fields.visit b r
  | _, b, .arrayPattern _ elements, r => elements.visit b r
  | _, b, .restPattern _ arg, r => arg.visit b r
  | _, b, .defaultPattern _ left right, r => right.visit none (left.visit b r)
  | _, _, .exprPattern value, r => value.visit none r
  | _, b, .fieldPair _ key value, r => value.visit b (key.visit none r)
  | _, b, .fieldShorthand value, r => value.visit b r
  | _, b, .fieldRest _ arg, r => arg.visit b r
  | _, _, .exprStmt _ value, r => value.visit none r
  | _, _, .varStmt decl, r => decl.visit none r
  | _, _, .functionDecl code name params _ body, r =>
    (r.each x pass (.declare .functionDecl) name.toList).inside pass .function code.span fun r =>
      body.visit none (params.visit (some .parameter) r)
  | _, _, .classDecl _ name base members, r =>
    members.visit none (base.visit none
      (r.each x pass (.declare .classDecl) name.toList))
  | _, _, .blockStmt block, r => block.visit none r
  | _, _, .ifStmt _ test consequent alternate, r =>
    alternate.visit none (consequent.visit none (test.visit none r))
  | _, _, .forStmt span init test update body, r =>
    r.insideIf init.isLexical pass .loop span fun r =>
      body.visit none (update.visit none (test.visit none
        (init.visit none r)))
  | _, _, .forInStmt span _ left right body, r =>
    r.insideIf left.isLexical pass .loop span fun r =>
      body.visit none (right.visit none (left.visit none r))
  | _, _, .whileStmt _ test body, r => body.visit none (test.visit none r)
  | _, _, .doWhileStmt _ body test, r => test.visit none (body.visit none r)
  | _, _, .tryStmt _ block handler finalizer, r =>
    finalizer.visit none (handler.visit none (block.visit none r))
  | _, _, .exitStmt _ _ arg, r => arg.visit none r
  | _, _, .switchStmt span discriminant cases, r =>
    (discriminant.visit none r).insideIf cases.isLexical pass .block span
      (cases.visit none)
  | _, _, .labeledStmt _ _ body, r => body.visit none r
  | _, _, .jumpStmt _ _ _, r => r
  | _, _, .withStmt _ base body, r => body.visit none (base.visit none r)
  | _, _, .importDecl _ names _, r => r.each x pass (.declare .constDecl) names
  | _, _, .exportDecl _ names _, r => r.each x pass .refer names
  | _, _, .emptyStmt _, r => r
  | _, _, .debuggerStmt _, r => r
  | _, _, .badStmt _ items, r => items.visit none r
  | _, _, .blockOf span body, r =>
    r.insideIf body.isLexical pass .block span (body.visit none)
  | _, _, .declarationOf _ kind declarators, r =>
    declarators.visit (some kind.bindingKind) r
  | _, b, .declaratorOf _ name init, r => init.visit none (name.visit b r)
  | _, _, .initDecl decl, r => decl.visit none r
  | _, _, .initExpr value, r => value.visit none r
  | _, _, .headDecl decl, r => decl.visit none r
  | _, _, .headPattern pattern, r => pattern.visit none r
  | _, _, .handlerOf span param body, r =>
    r.insideIf param.isPresent pass .handler span fun r =>
      body.visit none (param.visit (some .catchParameter) r)
  | _, _, .caseOf _ test body, r => body.visit none (test.visit none r)

end Ast

/-- The scopes and bindings of a program, with identifiers numbered by an index. -/
def Program.resolve (p : Program) (x : Index) : Resolution :=
  let declared := p.body.visit x .declare none (.start p.span)
  (p.body.visit x .resolve none declared.rewind).finish

end ScriptLens
