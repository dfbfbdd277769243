import ScriptLens.Ast.View
import ScriptLens.Proofs.Index.Preorder
import ScriptLens.Scope.Event

/-! # Where identifiers occur

Every identifier of a program stands in one place, which is either that of a property
name or one where scopes matter. The uniform tree and the events of a program both go
through these places, each once and in the same order.
-/
namespace ScriptLens

/-- A place of an identifier. Keys and the names after a dot are property names; what
all others mean is for the scopes to say. -/
inductive Occurrence where
  | property (id : Ident)
  | inScope (id : Ident)

def Occurrence.ident : Occurrence → Ident
  | .property id => id
  | .inScope id => id

namespace Ast

def occurrences : {c : Category} → Ast c → List Occurrence
  | _, .nil => []
  | _, .cons first rest => first.occurrences ++ rest.occurrences
  | _, .absent => []
  | _, .present part => part.occurrences
  | _, .ident id => [.inScope id]
  | _, .literal _ => []
  | _, .template _ parts => parts.occurrences
  | _, .tagged _ tag _ parts => tag.occurrences ++ parts.occurrences
  | _, .keyword _ _ => []
  | _, .array _ elements => elements.occurrences
  | _, .object _ props => props.occurrences
  | _, .function _ name params _ body =>
    name.toList.map .inScope ++ (params.occurrences ++ body.occurrences)
  | _, .arrow _ _ params body => params.occurrences ++ body.occurrences
  | _, .classExpr _ name base members =>
    name.toList.map .inScope ++ (base.occurrences ++ members.occurrences)
  | _, .unary _ _ _ _ arg => arg.occurrences
  | _, .binary _ _ left right => left.occurrences ++ right.occurrences
  | _, .assign _ _ left right => left.occurrences ++ right.occurrences
  | _, .conditional _ test consequent alternate =>
    test.occurrences ++ (consequent.occurrences ++ alternate.occurrences)
  | _, .call _ _ _ callee args => callee.occurrences ++ args.occurrences
  | _, .get _ _ base property => base.occurrences ++ property.occurrences
  | _, .sequence _ exprs => exprs.occurrences
  | _, .paren _ inner => inner.occurrences
  | _, .badExpr _ items => items.occurrences
  | _, .arrowBlock _ body => body.occurrences
  | _, .arrowExpr value => value.occurrences
  | _, .named id => [.property id]
  | _, .hidden _ => []
  | _, .computed index => index.occurrences
  | _, .keyIdent id => [.property id]
  | _, .keyString _ _ => []
  | _, .keyNumber _ _ => []
  | _, .keyPrivate _ => []
  | _, .keyComputed value => value.occurrences
  | _, .pair _ key value => key.occurrences ++ value.occurrences
  | _, .shorthand id => [.inScope id]
  | _, .methodProp method => method.occurrences
  | _, .spreadProp _ arg => arg.occurrences
  | _, .methodDef _ _ _ key _ params _ body =>
    key.occurrences ++ (params.occurrences ++ body.occurrences)
  | _, .methodMember method => method.occurrences
  | _, .fieldMember _ _ key value => key.occurrences ++ value.occurrences
  | _, .staticBlock _ _ body => body.occurrences
  | _, .target id => [.inScope id]
  | _, .objectPattern _ fields => fields.occurrences
  | _, .arrayPattern _ elements => elements.occurrences
  | _, .restPattern _ arg => arg.occurrences
  | _, .defaultPattern _ left right => left.occurrences ++ right.occurrences
  | _, .exprPattern value => value.occurrences
  | _, .fieldPair _ key value => key.occurrences ++ value.occurrences
  | _, .fieldShorthand value => value.occurrences
  | _, .fieldRest _ arg => arg.occurrences
  | _, .exprStmt _ value => value.occurrences
  | _, .varStmt decl => decl.occurrences
  | _, .functionDecl _ name params _ body =>
    name.toList.map .inScope ++ (params.occurrences ++ body.occurrences)
  | _, .classDecl _ name base members =>
    name.toList.map .inScope ++ (base.occurrences ++ members.occurrences)
  | _, .blockStmt block => block.occurrences
  | _, .ifStmt _ test consequent alternate =>
    test.occurrences ++ (consequent.occurrences ++ alternate.occurrences)
  | _, .forStmt _ init test update body =>
    init.occurrences ++ (test.occurrences ++ (update.occurrences ++ body.occurrences))
  | _, .forInStmt _ _ left right body =>
    left.occurrences ++ (right.occurrences ++ body.occurrences)
  | _, .whileStmt _ test body => test.occurrences ++ body.occurrences
  | _, .doWhileStmt _ body test => body.occurrences ++ test.occurrences
  | _, .tryStmt _ block handler finalizer =>
    block.occurrences ++ (handler.occurrences ++ finalizer.occurrences)
  | _, .exitStmt _ _ arg => arg.occurrences
  | _, .switchStmt _ discriminant cases => discriminant.occurrences ++ cases.occurrences
  | _, .labeledStmt _ _ body => body.occurrences
  | _, .jumpStmt _ _ _ => []
  | _, .withStmt _ base body => base.occurrences ++ body.occurrences
  | _, .importDecl _ names _ => names.map .inScope
  | _, .exportDecl _ names _ => names.map .inScope
  | _, .emptyStmt _ => []
  | _, .debuggerStmt _ => []
  | _, .badStmt _ items => items.occurrences
  | _, .blockOf _ body => body.occurrences
  | _, .declarationOf _ _ declarators => declarators.occurrences
  | _, .declaratorOf _ name init => name.occurrences ++ init.occurrences
  | _, .initDecl decl => decl.occurrences
  | _, .initExpr value => value.occurrences
  | _, .headDecl decl => decl.occurrences
  | _, .headPattern pattern => pattern.occurrences
  | _, .handlerOf _ param body => param.occurrences ++ body.occurrences
  | _, .caseOf _ test body => test.occurrences ++ body.occurrences

end Ast

def Program.occurrences (p : Program) : List Occurrence := p.body.occurrences

def Event.occurrence? : Event → Option Occurrence
  | .enter _ _ => none
  | .leave => none
  | .declare _ id => some (.inScope id)
  | .refer id => some (.inScope id)
  | .nameSelf id => some (.inScope id)
  | .property id => some (.property id)

namespace Event

def occurrences (es : List Event) : List Occurrence := es.filterMap occurrence?

theorem occurrences_append {es fs : List Event} {os ps : List Occurrence}
    (he : occurrences es = os) (hf : occurrences fs = ps) :
    occurrences (es ++ fs) = os ++ ps := by
  rw [occurrences, List.filterMap_append, ← occurrences, ← occurrences, he, hf]

theorem occurrences_within {body : List Event} {os : List Occurrence} (h : occurrences body = os)
    (kind : ScopeKind) (span : Span) : occurrences (within kind span body) = os := by
  rw [← h]
  simp [occurrences, within, List.filterMap_cons, occurrence?]

theorem occurrences_withinIf {body : List Event} {os : List Occurrence}
    (h : occurrences body = os) (needed : Bool) (kind : ScopeKind) (span : Span) :
    occurrences (withinIf needed kind span body) = os := by
  cases needed with
  | false => exact h
  | true => exact occurrences_within h kind span

theorem occurrences_map {make : Ident → Event}
    (h : ∀ id, (make id).occurrence? = some (.inScope id)) (ids : List Ident) :
    occurrences (ids.map make) = ids.map .inScope := by
  simp [occurrences, List.filterMap_map, h]

end Event

open Event in
/-- Events are about the identifiers of a construct, each once and in source order. -/
theorem Ast.occurrences_events {c : Category} (a : Ast c) (b : Option BindingKind) :
    Event.occurrences (a.events b) = a.occurrences := by
  induction a generalizing b with
  | nil | absent | literal | keyword | hidden | keyString | keyNumber | keyPrivate => rfl
  | jumpStmt | emptyStmt | debuggerStmt | ident | named | keyIdent | shorthand => rfl
  | target id => cases b <;> rfl
  | present _ ih | fieldShorthand _ ih => exact ih b
  | objectPattern _ _ ih | arrayPattern _ _ ih | restPattern _ _ ih | fieldRest _ _ ih => exact ih b
  | arrowExpr _ ih | computed _ ih | keyComputed _ ih | methodProp _ ih => exact ih none
  | methodMember _ ih | exprPattern _ ih | varStmt _ ih | blockStmt _ ih => exact ih none
  | initDecl _ ih | initExpr _ ih | headDecl _ ih | headPattern _ ih => exact ih none
  | template _ _ ih | array _ _ ih | object _ _ ih | sequence _ _ ih => exact ih none
  | paren _ _ ih | badExpr _ _ ih | arrowBlock _ _ ih | spreadProp _ _ ih => exact ih none
  | exprStmt _ _ ih | badStmt _ _ ih => exact ih none
  | exitStmt _ _ _ ih | labeledStmt _ _ _ ih => exact ih none
  | unary _ _ _ _ _ ih => exact ih none
  | declarationOf _ kind _ ih => exact ih (some kind.bindingKind)
  | cons _ _ ihf ihr => exact occurrences_append (ihf b) (ihr b)
  | defaultPattern _ _ _ ihl ihr | declaratorOf _ _ _ ihl ihr =>
    exact occurrences_append (ihl b) (ihr none)
  | fieldPair _ _ _ ihk ihv => exact occurrences_append (ihk none) (ihv b)
  | pair _ _ _ ihl ihr | whileStmt _ _ _ ihl ihr | doWhileStmt _ _ _ ihl ihr =>
    exact occurrences_append (ihl none) (ihr none)
  | withStmt _ _ _ ihl ihr | caseOf _ _ _ ihl ihr => exact occurrences_append (ihl none) (ihr none)
  | tagged _ _ _ _ ihl ihr | binary _ _ _ _ ihl ihr =>
    exact occurrences_append (ihl none) (ihr none)
  | assign _ _ _ _ ihl ihr | get _ _ _ _ ihl ihr => exact occurrences_append (ihl none) (ihr none)
  | call _ _ _ _ _ ihl ihr => exact occurrences_append (ihl none) (ihr none)
  | conditional _ _ _ _ iht ihc iha | ifStmt _ _ _ _ iht ihc iha | tryStmt _ _ _ _ iht ihc iha =>
    exact occurrences_append (iht none) (occurrences_append (ihc none) (iha none))
  | importDecl _ names _ | exportDecl _ names _ => exact occurrences_map (fun _ => rfl) names
  | classDecl _ name _ _ ihb ihm =>
    exact occurrences_append (occurrences_map (fun _ => rfl) name.toList)
      (occurrences_append (ihb none) (ihm none))
  | function _ name _ _ _ ihp ihb =>
    exact occurrences_within (occurrences_append (occurrences_map (fun _ => rfl) name.toList)
      (occurrences_append (ihp _) (ihb none))) _ _
  | arrow _ _ _ _ ihp ihb => exact occurrences_within (occurrences_append (ihp _) (ihb none)) _ _
  | classExpr _ name _ _ ihb ihm =>
    exact occurrences_withinIf (occurrences_append (occurrences_map (fun _ => rfl) name.toList)
      (occurrences_append (ihb none) (ihm none))) _ _ _
  | functionDecl _ name _ _ _ ihp ihb =>
    exact occurrences_append (occurrences_map (fun _ => rfl) name.toList)
      (occurrences_within (occurrences_append (ihp _) (ihb none)) _ _)
  | methodDef _ _ _ _ _ _ _ _ ihk ihp ihb =>
    exact occurrences_append (ihk none)
      (occurrences_within (occurrences_append (ihp _) (ihb none)) _ _)
  | fieldMember _ _ _ _ ihk ihv =>
    exact occurrences_append (ihk none) (occurrences_withinIf (ihv none) _ _ _)
  | staticBlock _ _ _ ih => exact occurrences_within (ih none) _ _
  | forStmt _ _ _ _ _ ihi iht ihu ihb =>
    exact occurrences_withinIf (occurrences_append (ihi none) (occurrences_append (iht none)
      (occurrences_append (ihu none) (ihb none)))) _ _ _
  | forInStmt _ _ _ _ _ ihl ihr ihb =>
    exact occurrences_withinIf (occurrences_append (ihl none)
      (occurrences_append (ihr none) (ihb none))) _ _ _
  | switchStmt _ _ _ ihd ihc =>
    exact occurrences_append (ihd none) (occurrences_withinIf (ihc none) _ _ _)
  | blockOf _ _ ih => exact occurrences_withinIf (ih none) _ _ _
  | handlerOf _ _ _ ihp ihb =>
    exact occurrences_withinIf (occurrences_append (ihp _) (ihb none)) _ _ _

theorem Program.occurrences_events (p : Program) : Event.occurrences p.events = p.occurrences :=
  p.body.occurrences_events none

def Ident.isPlaced (id : Ident) : Bool := !id.span.isNowhere

def Ident.entry (id : Ident) : TreeHead × Span := (id.toTree.head, id.span)

def Tree.identEntries (t : Tree) : List (TreeHead × Span) :=
  t.entries.filter (·.1.kind == .identifier)

namespace Tree

theorem identEntries_inner {kind : NodeKind} (h : kind ≠ .identifier) (span : Span)
    (label : String) (children : List Tree) :
    (inner kind span label children).identEntries = children.flatMap identEntries := by
  rw [identEntries, inner, entries_eq, List.filter_append, List.filter_flatMap]
  cases hplace : span.isNowhere <;>
    simp [placed?, head, Tree.children, Option.filter, hplace, h] <;> rfl

theorem identEntries_leaf {kind : NodeKind} (h : kind ≠ .identifier) (span : Span)
    (label : String) (name : Option String) : (leaf kind span label name).identEntries = [] := by
  rw [identEntries, leaf, entries_eq]
  cases hplace : span.isNowhere <;> simp [placed?, head, Tree.children, Option.filter, hplace, h]

theorem identEntries_ident (id : Ident) :
    id.toTree.identEntries = ([id].filter Ident.isPlaced).map Ident.entry := by
  rw [identEntries, Ident.toTree, leaf, entries_eq]
  cases hplace : id.span.isNowhere <;>
    simp [placed?, head, Tree.children, Option.filter, Ident.isPlaced, Ident.entry, Ident.toTree,
      leaf, hplace]

theorem identEntries_label (l : Label) : l.toTree.identEntries = [] :=
  identEntries_leaf (by decide) _ _ _

theorem identEntries_privateName (name : PrivateName) : name.toTree.identEntries = [] :=
  identEntries_leaf (by decide) _ _ _

theorem identEntries_literal (l : Literal) : l.toTree.identEntries = [] :=
  identEntries_leaf (by cases l.kind <;> decide) _ _ _

end Tree

/-- A list of trees holds the identifiers of a list of occurrences, as far as these have a
place. -/
def Shows (trees : List Tree) (os : List Occurrence) : Prop :=
  trees.flatMap Tree.identEntries =
    ((os.map Occurrence.ident).filter Ident.isPlaced).map Ident.entry

namespace Shows
variable {ts us : List Tree} {os ps : List Occurrence}

theorem nil : Shows [] [] := rfl

theorem append (ht : Shows ts os) (hu : Shows us ps) : Shows (ts ++ us) (os ++ ps) := by
  rw [Shows, List.flatMap_append, List.map_append, List.filter_append, List.map_append, ← ht, ← hu]

theorem append_nil (ht : Shows ts os) (hu : Shows us []) : Shows (ts ++ us) os := by
  simpa using ht.append hu

theorem inner (h : Shows ts os) (span : Span) (label : String) {kind : NodeKind}
    (hkind : kind ≠ .identifier) : Shows [.inner kind span label ts] os := by
  rw [Shows, List.flatMap_singleton, Tree.identEntries_inner hkind]
  exact h

theorem ident (o : Occurrence) : Shows [o.ident.toTree] [o] := by
  rw [Shows, List.flatMap_singleton, Tree.identEntries_ident]
  rfl

theorem names (ids : List Ident) : Shows (ids.map Ident.toTree) (ids.map .inScope) := by
  induction ids with
  | nil => rfl
  | cons id rest ih => exact (ident (.inScope id)).append ih

theorem leaves {α : Type} {toTree : α → Tree} (h : ∀ a, (toTree a).identEntries = [])
    (leaves : List α) :
    Shows (leaves.map toTree) [] := by
  simp [Shows, List.flatMap_map, h]

end Shows

/-- The identifiers among the nodes of a construct are its occurrences, in the same order. -/
theorem Ast.shows_trees {c : Category} (a : Ast c) : Shows a.trees a.occurrences := by
  induction a with
  | nil | absent => exact .nil
  | ident id | shorthand id | target id => exact .ident (.inScope id)
  | named id | keyIdent id => exact .ident (.property id)
  | literal lit => exact .leaves Tree.identEntries_literal [lit]
  | keyString span raw => exact .leaves Tree.identEntries_literal [⟨span, .string, raw⟩]
  | keyNumber span raw => exact .leaves Tree.identEntries_literal [⟨span, .number, raw⟩]
  | hidden name | keyPrivate name => exact .leaves Tree.identEntries_privateName [name]
  | cons _ _ ihf ihr => exact ihf.append ihr
  | present _ ih | arrowExpr _ ih | computed _ ih | keyComputed _ ih | methodProp _ ih => exact ih
  | methodMember _ ih | exprPattern _ ih | fieldShorthand _ ih | varStmt _ ih => exact ih
  | blockStmt _ ih | initDecl _ ih | initExpr _ ih | headDecl _ ih | headPattern _ ih => exact ih
  | keyword span word => exact Shows.nil.inner span "" (by cases word <;> decide)
  | emptyStmt span | debuggerStmt span => exact Shows.nil.inner span "" (by decide)
  | template _ _ ih | array _ _ ih | object _ _ ih | sequence _ _ ih =>
    exact ih.inner _ _ (by decide)
  | paren _ _ ih | badExpr _ _ ih | arrowBlock _ _ ih | spreadProp _ _ ih =>
    exact ih.inner _ _ (by decide)
  | objectPattern _ _ ih | arrayPattern _ _ ih | restPattern _ _ ih =>
    exact ih.inner _ _ (by decide)
  | fieldRest _ _ ih | exprStmt _ _ ih | badStmt _ _ ih | blockOf _ _ ih =>
    exact ih.inner _ _ (by decide)
  | declarationOf _ _ _ ih => exact ih.inner _ _ (by decide)
  | exitStmt _ kind _ ih => exact ih.inner _ _ (by cases kind <;> decide)
  | unary _ kind _ _ _ ih => exact ih.inner _ _ (by cases kind <;> decide)
  | binary _ _ _ _ ihl ihr | assign _ _ _ _ ihl ihr => exact (ihl.append ihr).inner _ _ (by decide)
  | arrow _ _ _ _ ihl ihr | fieldMember _ _ _ _ ihl ihr =>
    exact (ihl.append ihr).inner _ _ (by decide)
  | pair _ _ _ ihl ihr | fieldPair _ _ _ ihl ihr => exact (ihl.append ihr).inner _ _ (by decide)
  | defaultPattern _ _ _ ihl ihr | declaratorOf _ _ _ ihl ihr =>
    exact (ihl.append ihr).inner _ _ (by decide)
  | whileStmt _ _ _ ihl ihr | doWhileStmt _ _ _ ihl ihr =>
    exact (ihl.append ihr).inner _ _ (by decide)
  | switchStmt _ _ _ ihl ihr | withStmt _ _ _ ihl ihr =>
    exact (ihl.append ihr).inner _ _ (by decide)
  | handlerOf _ _ _ ihl ihr | caseOf _ _ _ ihl ihr => exact (ihl.append ihr).inner _ _ (by decide)
  | call _ isNew _ _ _ ihl ihr => exact (ihl.append ihr).inner _ _ (by cases isNew <;> decide)
  | get _ _ _ property ihl ihr =>
    exact (ihl.append ihr).inner _ _ (by cases property <;> exact NodeKind.noConfusion)
  | conditional _ _ _ _ iht ihc iha | ifStmt _ _ _ _ iht ihc iha | tryStmt _ _ _ _ iht ihc iha =>
    exact (iht.append (ihc.append iha)).inner _ _ (by decide)
  | forInStmt _ isOf _ _ _ ihl ihr ihb =>
    exact (ihl.append (ihr.append ihb)).inner _ _ (by cases isOf <;> decide)
  | forStmt _ _ _ _ _ ihi iht ihu ihb =>
    exact (ihi.append (iht.append (ihu.append ihb))).inner _ _ (by decide)
  | tagged _ _ _ _ ihl ihr =>
    exact (ihl.append (ihr.inner _ _ (by decide))).inner _ _ (by decide)
  | classExpr _ name _ _ ihb ihm | classDecl _ name _ _ ihb ihm =>
    exact ((Shows.names name.toList).append (ihb.append ihm)).inner _ _ (by decide)
  | function _ name _ _ _ ihp ihb | functionDecl _ name _ _ _ ihp ihb =>
    exact ((Shows.names name.toList).append (ihp.append (ihb.inner _ _ (by decide)))).inner _ _
      (by decide)
  | methodDef _ _ _ _ _ _ _ _ ihk ihp ihb =>
    exact (ihk.append ((ihp.append (ihb.inner _ _ (by decide))).inner _ _ (by decide))).inner _ _
      (by decide)
  | staticBlock _ _ _ ih => exact (ih.inner _ _ (by decide)).inner _ _ (by decide)
  | labeledStmt _ label _ ih =>
    exact ((Shows.leaves Tree.identEntries_label [label]).append ih).inner _ _ (by decide)
  | jumpStmt _ kind label =>
    exact (Shows.leaves Tree.identEntries_label label.toList).inner _ _ (by cases kind <;> decide)
  | importDecl _ names source | exportDecl _ names source =>
    exact ((Shows.names names).append_nil
      (Shows.leaves Tree.identEntries_literal source.toList)).inner _ _ (by decide)

def Program.idents (p : Program) : List Ident := p.occurrences.map Occurrence.ident

/-- The identifiers that get a record are those with a place, in source order. -/
theorem Program.identEntries_toTree (p : Program) :
    p.toTree.identEntries = (p.idents.filter Ident.isPlaced).map Ident.entry := by
  rw [Program.toTree, Tree.identEntries_inner (by decide)]
  exact p.body.shows_trees

end ScriptLens
