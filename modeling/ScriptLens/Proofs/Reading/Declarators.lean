import ScriptLens.Ast.View
import ScriptLens.Proofs.Index.Ways

/-! # Declarators of a program

The declarators of a program, wherever they stand. Each of them has its node in the uniform tree.
-/
namespace ScriptLens

namespace Ast

def declarators : {c : Category} → Ast c → List (Ast .declarator)
  | _, .nil => []
  | _, .cons first rest => first.declarators ++ rest.declarators
  | _, .absent => []
  | _, .present part => part.declarators
  | _, .ident _ => []
  | _, .literal _ => []
  | _, .template _ parts => parts.declarators
  | _, .tagged _ tag _ parts => tag.declarators ++ parts.declarators
  | _, .keyword _ _ => []
  | _, .array _ elements => elements.declarators
  | _, .object _ props => props.declarators
  | _, .function _ _ params _ body => params.declarators ++ body.declarators
  | _, .arrow _ _ params body => params.declarators ++ body.declarators
  | _, .classExpr _ _ base members => base.declarators ++ members.declarators
  | _, .unary _ _ _ _ arg => arg.declarators
  | _, .binary _ _ left right => left.declarators ++ right.declarators
  | _, .assign _ _ left right => left.declarators ++ right.declarators
  | _, .conditional _ test consequent alternate =>
    test.declarators ++ (consequent.declarators ++ alternate.declarators)
  | _, .call _ _ _ callee args => callee.declarators ++ args.declarators
  | _, .get _ _ base property => base.declarators ++ property.declarators
  | _, .sequence _ exprs => exprs.declarators
  | _, .paren _ inner => inner.declarators
  | _, .badExpr _ items => items.declarators
  | _, .arrowBlock _ body => body.declarators
  | _, .arrowExpr value => value.declarators
  | _, .named _ => []
  | _, .hidden _ => []
  | _, .computed index => index.declarators
  | _, .keyIdent _ => []
  | _, .keyString _ _ => []
  | _, .keyNumber _ _ => []
  | _, .keyPrivate _ => []
  | _, .keyComputed value => value.declarators
  | _, .pair _ key value => key.declarators ++ value.declarators
  | _, .shorthand _ => []
  | _, .methodProp method => method.declarators
  | _, .spreadProp _ arg => arg.declarators
  | _, .methodDef _ _ _ key _ params _ body =>
    key.declarators ++ (params.declarators ++ body.declarators)
  | _, .methodMember method => method.declarators
  | _, .fieldMember _ _ key value => key.declarators ++ value.declarators
  | _, .staticBlock _ _ body => body.declarators
  | _, .target _ => []
  | _, .objectPattern _ fields => fields.declarators
  | _, .arrayPattern _ elements => elements.declarators
  | _, .restPattern _ arg => arg.declarators
  | _, .defaultPattern _ left right => left.declarators ++ right.declarators
  | _, .exprPattern value => value.declarators
  | _, .fieldPair _ key value => key.declarators ++ value.declarators
  | _, .fieldShorthand value => value.declarators
  | _, .fieldRest _ arg => arg.declarators
  | _, .exprStmt _ value => value.declarators
  | _, .varStmt decl => decl.declarators
  | _, .functionDecl _ _ params _ body => params.declarators ++ body.declarators
  | _, .classDecl _ _ base members => base.declarators ++ members.declarators
  | _, .blockStmt block => block.declarators
  | _, .ifStmt _ test consequent alternate =>
    test.declarators ++ (consequent.declarators ++ alternate.declarators)
  | _, .forStmt _ init test update body =>
    init.declarators ++ (test.declarators ++ (update.declarators ++ body.declarators))
  | _, .forInStmt _ _ left right body =>
    left.declarators ++ (right.declarators ++ body.declarators)
  | _, .whileStmt _ test body => test.declarators ++ body.declarators
  | _, .doWhileStmt _ body test => body.declarators ++ test.declarators
  | _, .tryStmt _ block handler finalizer =>
    block.declarators ++ (handler.declarators ++ finalizer.declarators)
  | _, .exitStmt _ _ arg => arg.declarators
  | _, .switchStmt _ discriminant cases => discriminant.declarators ++ cases.declarators
  | _, .labeledStmt _ _ body => body.declarators
  | _, .jumpStmt _ _ _ => []
  | _, .withStmt _ base body => base.declarators ++ body.declarators
  | _, .importDecl _ _ _ => []
  | _, .exportDecl _ _ _ => []
  | _, .emptyStmt _ => []
  | _, .debuggerStmt _ => []
  | _, .badStmt _ items => items.declarators
  | _, .blockOf _ body => body.declarators
  | _, .declarationOf _ _ declarators => declarators.declarators
  | _, .declaratorOf span name init =>
    .declaratorOf span name init :: (name.declarators ++ init.declarators)
  | _, .initDecl decl => decl.declarators
  | _, .initExpr value => value.declarators
  | _, .headDecl decl => decl.declarators
  | _, .headPattern pattern => pattern.declarators
  | _, .handlerOf _ param body => param.declarators ++ body.declarators
  | _, .caseOf _ test body => test.declarators ++ body.declarators

theorem declarators_ofList {c : Category} (parts : List (Ast c)) :
    (ofList parts).declarators = parts.flatMap declarators :=
  flatMap_ofList rfl (fun _ _ => rfl) parts

theorem declarators_ofOption {c : Category} (part : Option (Ast c)) :
    (ofOption part).declarators = part.toList.flatMap declarators :=
  flatMap_ofOption rfl (fun _ => rfl) part

end Ast

/-- The node is one of some trees or below one of them. -/
def Tree.Among (u : Tree) (ts : List Tree) : Prop := ∃ t ∈ ts, ∃ way, t.at? way = some u

/-- Trees in which some declarators have their nodes. -/
def Declare (ts : List Tree) (ds : List (Ast .declarator)) : Prop :=
  ∀ d ∈ ds, ∀ u ∈ d.trees, u.Among ts

namespace Declare

variable {ts us : List Tree} {ds es : List (Ast .declarator)}

theorem nil : Declare ts [] := fun _ hd => by cases hd

theorem append (ht : Declare ts ds) (hu : Declare us es) : Declare (ts ++ us) (ds ++ es) := by
  intro d hd u hud
  rcases List.mem_append.mp hd with hd | hd
  · obtain ⟨t, htree, hway⟩ := ht d hd u hud
    exact ⟨t, List.mem_append_left _ htree, hway⟩
  · obtain ⟨t, htree, hway⟩ := hu d hd u hud
    exact ⟨t, List.mem_append_right _ htree, hway⟩

theorem inner (h : Declare ts ds) (kind : NodeKind) (span : Span) (label : String) :
    Declare [.inner kind span label ts] ds := by
  intro d hd u hud
  obtain ⟨t, htree, way, hway⟩ := h d hd u hud
  obtain ⟨i, hi⟩ := List.mem_iff_getElem?.mp htree
  refine ⟨_, List.mem_singleton_self _, i :: way, ?_⟩
  have hchild : (Tree.inner kind span label ts).offspring[i]? = some t := hi
  rw [Tree.at?, hchild, Option.bind_some, hway]

theorem self (h : Declare ts ds) {d : Ast .declarator} (hd : d.trees = ts) :
    Declare ts (d :: ds) := by
  intro e he u hu
  rcases List.mem_cons.mp he with rfl | he
  · exact ⟨u, hd ▸ hu, [], rfl⟩
  · exact h e he u hu

end Declare

/-- The declarators in a construct have their nodes among those of the construct. -/
theorem Ast.declare_trees {c : Category} (a : Ast c) : Declare a.trees a.declarators := by
  induction a with
  | nil | absent | ident | shorthand | target | named | keyIdent => exact .nil
  | literal | keyString | keyNumber | hidden | keyPrivate | keyword => exact .nil
  | emptyStmt | debuggerStmt | jumpStmt | importDecl | exportDecl => exact .nil
  | cons _ _ ihf ihr => exact ihf.append ihr
  | present _ ih | arrowExpr _ ih | computed _ ih | keyComputed _ ih | methodProp _ ih => exact ih
  | methodMember _ ih | exprPattern _ ih | fieldShorthand _ ih | varStmt _ ih => exact ih
  | blockStmt _ ih | initDecl _ ih | initExpr _ ih | headDecl _ ih | headPattern _ ih => exact ih
  | template _ _ ih | array _ _ ih | object _ _ ih | sequence _ _ ih => exact ih.inner _ _ _
  | paren _ _ ih | badExpr _ _ ih | arrowBlock _ _ ih | spreadProp _ _ ih => exact ih.inner _ _ _
  | objectPattern _ _ ih | arrayPattern _ _ ih | restPattern _ _ ih => exact ih.inner _ _ _
  | fieldRest _ _ ih | exprStmt _ _ ih | badStmt _ _ ih | blockOf _ _ ih => exact ih.inner _ _ _
  | declarationOf _ _ _ ih | exitStmt _ _ _ ih | unary _ _ _ _ _ ih => exact ih.inner _ _ _
  | binary _ _ _ _ ihl ihr | assign _ _ _ _ ihl ihr => exact (ihl.append ihr).inner _ _ _
  | arrow _ _ _ _ ihl ihr | fieldMember _ _ _ _ ihl ihr => exact (ihl.append ihr).inner _ _ _
  | pair _ _ _ ihl ihr | fieldPair _ _ _ ihl ihr => exact (ihl.append ihr).inner _ _ _
  | defaultPattern _ _ _ ihl ihr | whileStmt _ _ _ ihl ihr => exact (ihl.append ihr).inner _ _ _
  | doWhileStmt _ _ _ ihl ihr | switchStmt _ _ _ ihl ihr => exact (ihl.append ihr).inner _ _ _
  | withStmt _ _ _ ihl ihr | handlerOf _ _ _ ihl ihr => exact (ihl.append ihr).inner _ _ _
  | caseOf _ _ _ ihl ihr | call _ _ _ _ _ ihl ihr => exact (ihl.append ihr).inner _ _ _
  | get _ _ _ _ ihl ihr => exact (ihl.append ihr).inner _ _ _
  | declaratorOf _ _ _ ihl ihr => exact ((ihl.append ihr).inner _ _ _).self rfl
  | conditional _ _ _ _ iht ihc iha | ifStmt _ _ _ _ iht ihc iha | tryStmt _ _ _ _ iht ihc iha =>
    exact (iht.append (ihc.append iha)).inner _ _ _
  | forInStmt _ _ _ _ _ ihl ihr ihb => exact (ihl.append (ihr.append ihb)).inner _ _ _
  | forStmt _ _ _ _ _ ihi iht ihu ihb =>
    exact (ihi.append (iht.append (ihu.append ihb))).inner _ _ _
  | tagged _ _ _ _ ihl ihr => exact (ihl.append (ihr.inner _ _ _)).inner _ _ _
  | classExpr _ _ _ _ ihb ihm | classDecl _ _ _ _ ihb ihm =>
    exact (Declare.nil.append (ihb.append ihm)).inner _ _ _
  | function _ _ _ _ _ ihp ihb | functionDecl _ _ _ _ _ ihp ihb =>
    exact (Declare.nil.append (ihp.append (ihb.inner _ _ _))).inner _ _ _
  | methodDef _ _ _ _ _ _ _ _ ihk ihp ihb =>
    exact (ihk.append ((ihp.append (ihb.inner _ _ _)).inner _ _ _)).inner _ _ _
  | staticBlock _ _ _ ih => exact (ih.inner _ _ _).inner _ _ _
  | labeledStmt _ label _ ih =>
    have hall : Declare ([label.toTree] ++ _) ([] ++ _) := Declare.nil.append ih
    exact hall.inner _ _ _

theorem Program.declare_toTree (p : Program) : Declare [p.toTree] p.body.declarators :=
  p.body.declare_trees.inner _ _ _

end ScriptLens
