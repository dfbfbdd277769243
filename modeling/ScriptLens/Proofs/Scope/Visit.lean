import ScriptLens.Scope.Visit

/-! # Visits are told by events

A visit goes from one state of the resolver to the next and opens scopes by the state that it has
come to. It ends in the scope in which it begins, and so it does in each pass what the list of the
events of the construct does, which is a list of the construct alone.
-/
namespace ScriptLens

open Event

namespace Resolver

variable {x : Index} {pass : Pass} {r : Resolver}

theorem run_cons (x : Index) (pass : Pass) (r : Resolver) (e : Event) (es : List Event) :
    r.run x pass (e :: es) = (r.step x pass e).run x pass es := rfl

theorem run_append (x : Index) (pass : Pass) (r : Resolver) (es fs : List Event) :
    r.run x pass (es ++ fs) = (r.run x pass es).run x pass fs := List.foldl_append

theorem run_within (x : Index) (pass : Pass) (r : Resolver) (kind : ScopeKind) (span : Span)
    (body : List Event) :
    r.run x pass (within kind span body) = ((r.enter pass kind span).run x pass body).leave := by
  rw [within, List.cons_append, run_cons, run_append]
  rfl

/-- The resolver is in the same scope as before, and has neither opened nor entered one. -/
structure Stays (r after : Resolver) : Prop where
  order : after.order = r.order
  replay : after.replay = r.replay
  current : after.current = r.current
  outer : after.outer = r.outer
  size : after.scopes.size = r.scopes.size

theorem Stays.refl (r : Resolver) : r.Stays r := ⟨rfl, rfl, rfl, rfl, rfl⟩

theorem bind_stays (r : Resolver) (scope node : Nat) (name : String) (kind : BindingKind) :
    r.Stays (r.bind scope node name kind) := by
  unfold Resolver.bind
  split
  · exact ⟨rfl, rfl, rfl, rfl, rfl⟩
  · exact ⟨rfl, rfl, rfl, rfl, Array.size_modify⟩

theorem declare_stays (x : Index) (r : Resolver) (kind : BindingKind) (id : Ident) :
    r.Stays (r.declare x kind id) := by
  unfold Resolver.declare
  split
  · exact .refl r
  · exact bind_stays r _ _ _ _

theorem refer_stays (x : Index) (r : Resolver) (id : Ident) : r.Stays (r.refer x id) := by
  unfold Resolver.refer
  split
  · exact .refl r
  · split
    · exact .refl r
    · split <;> exact ⟨rfl, rfl, rfl, rfl, rfl⟩

theorem nameSelf_stays (x : Index) (r : Resolver) (id : Ident) : r.Stays (r.nameSelf x id) := by
  simp only [Resolver.nameSelf]
  split
  · exact .refl r
  · split
    · exact ⟨rfl, rfl, rfl, rfl, rfl⟩
    · exact bind_stays r _ _ _ _

theorem outer_enter (pass : Pass) (r : Resolver) (kind : ScopeKind) (span : Span) :
    (r.enter pass kind span).outer = r.current :: r.outer := by
  cases pass with
  | declare => rfl
  | resolve =>
    rw [enter]
    split
    · rfl
    · rfl

theorem leave_eq {scope : Nat} {rest : List Nat} (h : r.outer = scope :: rest) :
    r.leave = { r with current := scope, outer := rest } := by
  rw [leave, h]

/-- A visit does what these events do, and ends in the scope in which it begins. -/
structure Tells (x : Index) (pass : Pass) (es : List Event) (visit : Resolver → Resolver) :
    Prop where
  run_eq : ∀ r, visit r = r.run x pass es
  current : ∀ r, (visit r).current = r.current
  outer : ∀ r, (visit r).outer = r.outer

namespace Tells

variable {es fs : List Event} {first second : Resolver → Resolver}

theorem nil : Tells x pass [] id := ⟨fun _ => rfl, fun _ => rfl, fun _ => rfl⟩

theorem append (hf : Tells x pass es first) (hs : Tells x pass fs second) :
    Tells x pass (es ++ fs) (fun r => second (first r)) := by
  refine ⟨fun r => ?_, fun r => ?_, fun r => ?_⟩
  · rw [hs.run_eq, hf.run_eq, run_append]
  · exact (hs.current _).trans (hf.current r)
  · exact (hs.outer _).trans (hf.outer r)

theorem of_stays {e : Event} (h : ∀ r : Resolver, r.Stays (r.step x pass e)) :
    Tells x pass [e] fun r => r.step x pass e :=
  ⟨fun _ => rfl, fun r => (h r).current, fun r => (h r).outer⟩

theorem declare (kind : BindingKind) (id : Ident) :
    Tells x pass [.declare kind id] fun r => r.step x pass (.declare kind id) := by
  apply of_stays
  intro r
  cases pass with
  | declare => exact declare_stays x r kind id
  | resolve => exact .refl r

theorem refer (id : Ident) : Tells x pass [.refer id] fun r => r.step x pass (.refer id) := by
  apply of_stays
  intro r
  cases pass with
  | declare => exact .refl r
  | resolve => exact refer_stays x r id

theorem nameSelf (id : Ident) :
    Tells x pass [.nameSelf id] fun r => r.step x pass (.nameSelf id) := by
  apply of_stays
  intro r
  cases pass with
  | declare => exact .refl r
  | resolve => exact nameSelf_stays x r id

theorem property (name : Ident) : Tells x pass [.property name] id := by
  refine ⟨fun r => ?_, fun _ => rfl, fun _ => rfl⟩
  cases pass with
  | declare => rfl
  | resolve => rfl

theorem targetEvent (binder : Option BindingKind) (id : Ident) :
    Tells x pass [Ast.targetEvent binder id]
      fun r => r.step x pass (Ast.targetEvent binder id) := by
  cases binder with
  | none => exact refer id
  | some kind => exact declare kind id

theorem each {make : Ident → Event}
    (h : ∀ id, Tells x pass [make id] fun r => r.step x pass (make id)) (ids : List Ident) :
    Tells x pass (ids.map make) (Resolver.each x pass make ids) := by
  induction ids with
  | nil => exact nil
  | cons id rest ih => exact (h id).append ih

theorem inside (h : Tells x pass es first) (kind : ScopeKind) (span : Span) :
    Tells x pass (within kind span es) (Resolver.inside pass kind span first) := by
  refine ⟨fun r => ?_, fun _ => rfl, fun _ => rfl⟩
  have houter : (first (r.enter pass kind span)).outer = r.current :: r.outer :=
    (h.outer _).trans (outer_enter pass r kind span)
  rw [run_within, ← h.run_eq, leave_eq houter]
  rfl

theorem insideIf (h : Tells x pass es first) (needed : Bool) (kind : ScopeKind) (span : Span) :
    Tells x pass (withinIf needed kind span es)
      (Resolver.insideIf needed pass kind span first) := by
  cases needed with
  | false => exact h
  | true => exact h.inside kind span

end Tells

end Resolver

open Resolver

/-- Visiting a construct is running through its events. -/
theorem Ast.tells_visit {c : Category} (a : Ast c) (x : Index) (pass : Pass)
    (b : Option BindingKind) : Tells x pass (a.events b) (a.visit x pass b) := by
  induction a generalizing b with
  | nil | absent | literal | keyword | hidden | keyString | keyNumber | keyPrivate => exact .nil
  | jumpStmt | emptyStmt | debuggerStmt => exact .nil
  | ident id | shorthand id => exact .refer id
  | named id | keyIdent id => exact .property id
  | target id => exact .targetEvent b id
  | present _ ih | fieldShorthand _ ih => exact ih b
  | objectPattern _ _ ih | arrayPattern _ _ ih | restPattern _ _ ih | fieldRest _ _ ih => exact ih b
  | arrowExpr _ ih | computed _ ih | keyComputed _ ih | methodProp _ ih => exact ih none
  | methodMember _ ih | exprPattern _ ih | varStmt _ ih | blockStmt _ ih => exact ih none
  | initDecl _ ih | initExpr _ ih | headDecl _ ih | headPattern _ ih => exact ih none
  | template _ _ ih | array _ _ ih | object _ _ ih | sequence _ _ ih => exact ih none
  | paren _ _ ih | badExpr _ _ ih | arrowBlock _ _ ih | spreadProp _ _ ih => exact ih none
  | exprStmt _ _ ih | badStmt _ _ ih => exact ih none
  | exitStmt _ _ _ ih | labeledStmt _ _ _ ih => exact ih none
  | unary _ _ _ _ _ ih => exact ih none
  | declarationOf _ kind _ ih => exact ih (some kind.bindingKind)
  | cons _ _ ihf ihr => exact (ihf b).append (ihr b)
  | defaultPattern _ _ _ ihl ihr | declaratorOf _ _ _ ihl ihr => exact (ihl b).append (ihr none)
  | fieldPair _ _ _ ihk ihv => exact (ihk none).append (ihv b)
  | pair _ _ _ ihl ihr | whileStmt _ _ _ ihl ihr | doWhileStmt _ _ _ ihl ihr =>
    exact (ihl none).append (ihr none)
  | withStmt _ _ _ ihl ihr | caseOf _ _ _ ihl ihr => exact (ihl none).append (ihr none)
  | tagged _ _ _ _ ihl ihr | binary _ _ _ _ ihl ihr => exact (ihl none).append (ihr none)
  | assign _ _ _ _ ihl ihr | get _ _ _ _ ihl ihr => exact (ihl none).append (ihr none)
  | call _ _ _ _ _ ihl ihr => exact (ihl none).append (ihr none)
  | conditional _ _ _ _ iht ihc iha | ifStmt _ _ _ _ iht ihc iha | tryStmt _ _ _ _ iht ihc iha =>
    exact (iht none).append ((ihc none).append (iha none))
  | importDecl _ names _ => exact .each (.declare _) names
  | exportDecl _ names _ => exact .each .refer names
  | classDecl _ name _ _ ihb ihm =>
    exact (Tells.each (.declare _) name.toList).append ((ihb none).append (ihm none))
  | function _ name _ _ _ ihp ihb =>
    exact ((Tells.each .nameSelf name.toList).append ((ihp _).append (ihb none))).inside _ _
  | arrow _ _ _ _ ihp ihb => exact ((ihp _).append (ihb none)).inside _ _
  | classExpr _ name _ _ ihb ihm =>
    exact ((Tells.each (.declare _) name.toList).append
      ((ihb none).append (ihm none))).insideIf _ _ _
  | functionDecl _ name _ _ _ ihp ihb =>
    exact (Tells.each (.declare _) name.toList).append (((ihp _).append (ihb none)).inside _ _)
  | methodDef _ _ _ _ _ _ _ _ ihk ihp ihb =>
    exact (ihk none).append (((ihp _).append (ihb none)).inside _ _)
  | fieldMember _ _ _ _ ihk ihv => exact (ihk none).append ((ihv none).insideIf _ _ _)
  | staticBlock _ _ _ ih => exact (ih none).inside _ _
  | forStmt _ _ _ _ _ ihi iht ihu ihb =>
    exact ((ihi none).append ((iht none).append ((ihu none).append (ihb none)))).insideIf _ _ _
  | forInStmt _ _ _ _ _ ihl ihr ihb =>
    exact ((ihl none).append ((ihr none).append (ihb none))).insideIf _ _ _
  | switchStmt _ _ _ ihd ihc => exact (ihd none).append ((ihc none).insideIf _ _ _)
  | blockOf _ _ ih => exact (ih none).insideIf _ _ _
  | handlerOf _ _ _ ihp ihb => exact ((ihp _).append (ihb none)).insideIf _ _ _

/-- Resolving is running through the events of the program twice. -/
theorem Program.resolve_eq_run (p : Program) (x : Index) :
    p.resolve x =
      (((start p.span).run x .declare p.events).rewind.run x .resolve p.events).finish := by
  have hvisit : ∀ pass r, p.body.visit x pass none r = r.run x pass p.events :=
    fun pass => (p.body.tells_visit x pass none).run_eq
  rw [resolve, hvisit, hvisit]

end ScriptLens
