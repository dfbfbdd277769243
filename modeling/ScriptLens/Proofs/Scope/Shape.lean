import Mathlib.Data.List.Chain
import ScriptLens.Scope.Event

/-! # The shape of the events of a construct

Scopes are closed where they are opened, and a function names itself before anything else
happens in its scope. What follows from this shape alone is proved by induction on it and
not over programs again.
-/
namespace ScriptLens.Event

inductive Shape : List Event → Prop where
  | nil : Shape []
  | declare (kind : BindingKind) (id : Ident) : Shape [.declare kind id]
  | refer (id : Ident) : Shape [.refer id]
  | property (id : Ident) : Shape [.property id]
  | append {es fs : List Event} (first : Shape es) (rest : Shape fs) : Shape (es ++ fs)
  | within (kind : ScopeKind) (span : Span) (name : Option Ident) {body : List Event}
      (inside : Shape body) : Shape (within kind span (name.toList.map .nameSelf ++ body))

namespace Shape
variable {es : List Event}

theorem plain (kind : ScopeKind) (span : Span) (h : Shape es) : Shape (Event.within kind span es) :=
  .within kind span none h

theorem withinIf (needed : Bool) (kind : ScopeKind) (span : Span) (h : Shape es) :
    Shape (Event.withinIf needed kind span es) := by
  cases needed with
  | false => exact h
  | true => exact h.plain kind span

theorem names {make : Ident → Event} (h : ∀ id, Shape [make id]) (ids : List Ident) :
    Shape (ids.map make) := by
  induction ids with
  | nil => exact .nil
  | cons id rest ih => exact (h id).append ih

end Shape

theorem shape_targetEvent (b : Option BindingKind) (id : Ident) :
    Shape [Ast.targetEvent b id] := by
  cases b with
  | none => exact .refer id
  | some kind => exact .declare kind id

end ScriptLens.Event

namespace ScriptLens
open Event

theorem Ast.shape_events {c : Category} (a : Ast c) (b : Option BindingKind) :
    Shape (a.events b) := by
  induction a generalizing b with
  | nil | absent | literal | keyword | hidden | keyString | keyNumber | keyPrivate => exact .nil
  | jumpStmt | emptyStmt | debuggerStmt => exact .nil
  | ident id | shorthand id => exact .refer id
  | named id | keyIdent id => exact .property id
  | target id => exact shape_targetEvent b id
  | present _ ih | fieldShorthand _ ih => exact ih b
  | objectPattern _ _ ih | arrayPattern _ _ ih | restPattern _ _ ih | fieldRest _ _ ih => exact ih b
  | arrowExpr _ ih | computed _ ih | keyComputed _ ih | methodProp _ ih => exact ih none
  | methodMember _ ih | exprPattern _ ih | varStmt _ ih | blockStmt _ ih => exact ih none
  | initDecl _ ih | initExpr _ ih | headDecl _ ih | headPattern _ ih => exact ih none
  | template _ _ ih | array _ _ ih | object _ _ ih | sequence _ _ ih => exact ih none
  | paren _ _ ih | badExpr _ _ ih | arrowBlock _ _ ih | spreadProp _ _ ih => exact ih none
  | exprStmt _ _ ih | badStmt _ _ ih => exact ih none
  | exitStmt _ _ _ ih | labeledStmt _ _ _ ih => exact ih none
  | unary _ _ _ _ _ ih => exact ih none
  | declarationOf _ kind _ ih => exact ih (some kind.bindingKind)
  | cons _ _ ihf ihr => exact (ihf b).append (ihr b)
  | defaultPattern _ _ _ ihl ihr | declaratorOf _ _ _ ihl ihr => exact (ihl b).append (ihr none)
  | fieldPair _ _ _ ihk ihv => exact (ihk none).append (ihv b)
  | pair _ _ _ ihl ihr | whileStmt _ _ _ ihl ihr | doWhileStmt _ _ _ ihl ihr =>
    exact (ihl none).append (ihr none)
  | withStmt _ _ _ ihl ihr | caseOf _ _ _ ihl ihr => exact (ihl none).append (ihr none)
  | tagged _ _ _ _ ihl ihr | binary _ _ _ _ ihl ihr => exact (ihl none).append (ihr none)
  | assign _ _ _ _ ihl ihr | get _ _ _ _ ihl ihr => exact (ihl none).append (ihr none)
  | call _ _ _ _ _ ihl ihr => exact (ihl none).append (ihr none)
  | conditional _ _ _ _ iht ihc iha | ifStmt _ _ _ _ iht ihc iha | tryStmt _ _ _ _ iht ihc iha =>
    exact (iht none).append ((ihc none).append (iha none))
  | importDecl _ names _ => exact .names (.declare _) names
  | exportDecl _ names _ => exact .names .refer names
  | classDecl _ name _ _ ihb ihm =>
    exact (Shape.names (.declare _) name.toList).append ((ihb none).append (ihm none))
  | function _ name _ _ _ ihp ihb => exact .within _ _ name ((ihp _).append (ihb none))
  | arrow _ _ _ _ ihp ihb => exact ((ihp _).append (ihb none)).plain _ _
  | classExpr _ name _ _ ihb ihm =>
    exact ((Shape.names (.declare _) name.toList).append
      ((ihb none).append (ihm none))).withinIf _ _ _
  | functionDecl _ name _ _ _ ihp ihb =>
    exact (Shape.names (.declare _) name.toList).append (((ihp _).append (ihb none)).plain _ _)
  | methodDef _ _ _ _ _ _ _ _ ihk ihp ihb =>
    exact (ihk none).append (((ihp _).append (ihb none)).plain _ _)
  | fieldMember _ _ _ _ ihk ihv => exact (ihk none).append ((ihv none).withinIf _ _ _)
  | staticBlock _ _ _ ih => exact (ih none).plain _ _
  | forStmt _ _ _ _ _ ihi iht ihu ihb =>
    exact ((ihi none).append ((iht none).append ((ihu none).append (ihb none)))).withinIf _ _ _
  | forInStmt _ _ _ _ _ ihl ihr ihb =>
    exact ((ihl none).append ((ihr none).append (ihb none))).withinIf _ _ _
  | switchStmt _ _ _ ihd ihc => exact (ihd none).append ((ihc none).withinIf _ _ _)
  | blockOf _ _ ih => exact (ih none).withinIf _ _ _
  | handlerOf _ _ _ ihp ihb => exact ((ihp _).append (ihb none)).withinIf _ _ _

theorem Program.shape_events (p : Program) : Shape p.events := p.body.shape_events none

namespace Event

def isEnter : Event → Bool
  | .enter _ _ => true
  | _ => false

def isNameSelf : Event → Bool
  | .nameSelf _ => true
  | _ => false

/-- A function names itself only on entering its scope. -/
def Follows (e f : Event) : Prop := f.isNameSelf = true → e.isEnter = true

theorem Shape.isChain {es : List Event} (h : Shape es) : List.IsChain Follows (.leave :: es) := by
  induction h with
  | nil => exact .singleton _
  | declare | refer | property =>
    refine List.isChain_pair.mpr ?_
    intro hself
    cases hself
  | append _ _ ihe ihf =>
    obtain ⟨hhead, htail⟩ := List.isChain_cons.mp ihf
    rw [← List.cons_append]
    refine List.isChain_append.mpr ⟨ihe, htail, ?_⟩
    intro e _ f hf hself
    cases hhead f hf hself
  | @within kind span name body _ ih =>
    obtain ⟨hhead, htail⟩ := List.isChain_cons.mp ih
    have hinside :
        List.IsChain Follows (.enter kind span :: (name.toList.map .nameSelf ++ body)) := by
      cases name with
      | none => exact htail.cons fun _ _ _ => rfl
      | some id =>
        have hbody : List.IsChain Follows (.nameSelf id :: body) :=
          htail.cons fun f hf hself => by cases hhead f hf hself
        exact hbody.cons_cons fun _ => rfl
    have hends :
        List.IsChain Follows (Event.within kind span (name.toList.map .nameSelf ++ body)) := by
      refine List.isChain_append.mpr ⟨hinside, .singleton _, ?_⟩
      intro e _ f hf hself
      cases hf
      cases hself
    exact hends.cons_cons fun hself => by cases hself

end Event

end ScriptLens
