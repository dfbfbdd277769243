import ScriptLens.Proofs.Scope.Positions

/-! # The events of a program that is laid out

The scopes and uses of a construct are among the nodes of its tree: a scope has the span of
the construct that opens it and a use that of its identifier. So where the tree is laid out
with scopes kept apart, the events are placed.
-/
namespace ScriptLens

open Event

/-- Parts of expressions: statements stand in them only inside functions. -/
def Category.isValue : Category → Bool
  | .expr | .pattern | .method | .member | .key | .property | .access | .field => true
  | .list c | .opt c => c.isValue
  | _ => false

/-- Expressions declare nothing outside of functions and classes. -/
theorem Ast.quiet_events {c : Category} (a : Ast c) (hc : c.isValue = true) :
    Quiet (a.events none) := by
  induction a with
  | nil | absent | literal | keyword | hidden | keyString | keyNumber | keyPrivate => exact .nil
  | ident id | shorthand id | target id => exact .refer id
  | named id | keyIdent id => exact .property id
  | present _ ih => exact ih hc
  | arrowExpr | varStmt | blockStmt | initDecl | initExpr | headDecl | headPattern => cases hc
  | exprStmt | badStmt | exitStmt | labeledStmt | jumpStmt | emptyStmt | debuggerStmt => cases hc
  | declarationOf | declaratorOf | whileStmt | doWhileStmt | withStmt | caseOf | ifStmt => cases hc
  | tryStmt | importDecl | exportDecl | classDecl | functionDecl | forStmt | forInStmt => cases hc
  | switchStmt | blockOf | handlerOf | arrowBlock => cases hc
  | fieldShorthand _ ih | computed _ ih | keyComputed _ ih | methodProp _ ih => exact ih rfl
  | methodMember _ ih | exprPattern _ ih => exact ih rfl
  | objectPattern _ _ ih | arrayPattern _ _ ih | restPattern _ _ ih | fieldRest _ _ ih =>
    exact ih rfl
  | template _ _ ih | array _ _ ih | object _ _ ih | sequence _ _ ih => exact ih rfl
  | paren _ _ ih | badExpr _ _ ih | spreadProp _ _ ih => exact ih rfl
  | unary _ _ _ _ _ ih => exact ih rfl
  | cons _ _ ihf ihr => exact (ihf hc).append (ihr hc)
  | defaultPattern _ _ _ ihl ihr | fieldPair _ _ _ ihl ihr => exact (ihl rfl).append (ihr rfl)
  | pair _ _ _ ihl ihr => exact (ihl rfl).append (ihr rfl)
  | tagged _ _ _ _ ihl ihr | binary _ _ _ _ ihl ihr => exact (ihl rfl).append (ihr rfl)
  | assign _ _ _ _ ihl ihr | get _ _ _ _ ihl ihr => exact (ihl rfl).append (ihr rfl)
  | call _ _ _ _ _ ihl ihr => exact (ihl rfl).append (ihr rfl)
  | conditional _ _ _ _ iht ihc iha => exact (iht rfl).append ((ihc rfl).append (iha rfl))
  | function code name params _ body =>
    exact .function code.span name
      ((params.shape_events (some .parameter)).append (body.shape_events none))
  | arrow span _ params body =>
    exact .function span none
      ((params.shape_events (some .parameter)).append (body.shape_events none))
  | methodDef _ _ _ _ code params _ body ihk =>
    exact (ihk rfl).append (.function code.span none
      ((params.shape_events (some .parameter)).append (body.shape_events none)))
  | staticBlock span _ body => exact .function span none (body.shape_events none)
  | fieldMember span _ _ value ihk ihv =>
    refine (ihk rfl).append ?_
    cases value with
    | absent => exact ihv rfl
    | present value => exact .function span none (value.shape_events none)
  | classExpr span name _ _ ihb ihm =>
    have hinside := (ihb rfl).append (ihm rfl)
    cases name with
    | none => exact hinside
    | some id => exact .class span id hinside

theorem Ast.trees_ne_nil {c : Category} (a : Ast c) (h : a.isLexical = true) : a.trees ≠ [] := by
  induction a with
  | cons first rest ihf ihr =>
    intro hnil
    obtain ⟨hfirst, hrest⟩ := List.append_eq_nil_iff.mp hnil
    rcases Bool.or_eq_true_iff.mp h with h | h
    · exact ihf h hfirst
    · exact ihr h hrest
  | present _ ih | varStmt _ ih | initDecl _ ih | headDecl _ ih => exact ih h
  | classDecl | declarationOf | caseOf => exact List.cons_ne_nil _ _
  | _ => cases h

/-- Where trees are laid out and the `switch` statements among them are known, events are placed
and their places are marks. -/
def Traces (g : Grid) (switch : Span → Prop) (ts : List Tree) (es : List Event) : Prop :=
  ∀ region, g.Laid region ts →
    (∀ e ∈ ts.flatMap Tree.entries, e.1.kind = .switchStatement → switch e.2) →
    Placed switch es ∧ ∀ m ∈ marks es, m ∈ g.marks ts

namespace Traces
variable {g : Grid} {switch : Span → Prop} {ts us : List Tree} {es fs body : List Event}

theorem still (h : Placed switch es) (hmarks : marks es = []) : Traces g switch ts es := by
  intro _ _ _
  refine ⟨h, fun m hm => ?_⟩
  rw [hmarks] at hm
  cases hm

theorem nil : Traces g switch ts [] := still .nil rfl

theorem property (id : Ident) : Traces g switch ts [.property id] := still (.property id) rfl

theorem declares (kind : BindingKind) (ids : List Ident) :
    Traces g switch ts (ids.map (.declare kind)) := by
  have hmarks : ∀ ids : List Ident, marks (ids.map (.declare kind)) = [] := marks_map fun _ => rfl
  refine still ?_ (hmarks ids)
  induction ids with
  | nil => exact .nil
  | cons id rest ih =>
    refine .append (.declare kind id) ih ?_
    intro m hm
    cases hm

theorem append (h : Traces g switch ts es) (h' : Traces g switch us fs) :
    Traces g switch (ts ++ us) (es ++ fs) := by
  intro region hlaid hswitch
  obtain ⟨ht, hu, hapart⟩ := Grid.laid_append.mp hlaid
  simp only [List.flatMap_append, List.mem_append] at hswitch
  obtain ⟨hes, hems⟩ := h region ht fun e he => hswitch e (.inl he)
  obtain ⟨hfs, hfms⟩ := h' region hu fun e he => hswitch e (.inr he)
  refine ⟨hes.append hfs fun m hm n hn => hapart m (hems m hm) n (hfms n hn), ?_⟩
  intro m hm
  rw [marks_append, List.mem_append] at hm
  rw [Grid.marks_append, List.mem_append]
  exact hm.imp (hems m) (hfms m)

theorem refer (hs : g.scopes = true) (id : Ident) :
    Traces g switch [id.toTree] [.refer id] := by
  intro region hlaid _
  have hadmits := (Grid.laid_singleton.mp hlaid).1
  have hspan : id.isPlaced = true → id.toTree.placed? = some id.span := by
    intro hplaced
    have hnot : id.span.isNowhere = false := by simpa [Ident.isPlaced] using hplaced
    rw [Ident.toTree, Grid.placed?_leaf, hnot]
    rfl
  refine ⟨.refer id fun hplaced => (hadmits.suits id.span (hspan hplaced)).wide hs, ?_⟩
  intro m hm
  obtain ⟨e, he, hmark⟩ := List.mem_filterMap.mp hm
  rw [List.mem_singleton.mp he, mark?] at hmark
  split at hmark
  · next hplaced =>
    cases hmark
    exact Grid.mem_marks_cons.mpr (.inl (.inl ⟨hspan hplaced, rfl⟩))
  · cases hmark

theorem refers (hs : g.scopes = true) (ids : List Ident) :
    Traces g switch (ids.map Ident.toTree) (ids.map .refer) := by
  induction ids with
  | nil => exact .nil
  | cons id rest ih => exact (refer hs id).append ih

theorem below (h : Traces g switch ts es) {kind : NodeKind} {span region : Span} {label : String}
    (hlaid : g.Laid region [.inner kind span label ts])
    (hswitch : ∀ e ∈ [Tree.inner kind span label ts].flatMap Tree.entries,
      e.1.kind = .switchStatement → switch e.2) :
    Placed switch es ∧ ∀ m ∈ marks es, m ∈ g.marks ts := by
  refine h _ (Grid.laid_singleton.mp hlaid).2 fun e he => hswitch e ?_
  rw [List.flatMap_singleton, Tree.entries_eq]
  exact List.mem_append_right _ he

theorem inner (h : Traces g switch ts es) (kind : NodeKind) (span : Span) (label : String) :
    Traces g switch [.inner kind span label ts] es := by
  intro region hlaid hswitch
  obtain ⟨hes, hmarks⟩ := h.below hlaid hswitch
  exact ⟨hes, fun m hm => Grid.mem_marks_cons.mpr (.inl (.inr (hmarks m hm)))⟩

theorem opener (hs : g.scopes = true) {kind : NodeKind} {span region : Span} {label : String}
    (hopens : kind.opensScope = true) (hblock : kind = .blockStatement → ts ≠ [])
    (hlaid : g.Laid region [.inner kind span label ts]) :
    span.isNowhere = false ∧ g.Laid span ts ∧ span ∈ g.marks [.inner kind span label ts] := by
  obtain ⟨hadmits, hbelow⟩ := Grid.laid_singleton.mp hlaid
  have hspan : (Tree.inner kind span label ts).placed? = _ := Grid.placed?_inner
  cases hplace : span.isNowhere with
  | true =>
    rw [hplace, if_pos rfl] at hspan
    obtain ⟨hkind, hnil⟩ := hadmits.bare hs hspan hopens
    exact absurd hnil (hblock hkind)
  | false =>
    rw [hplace] at hspan
    have hcounts : g.counts kind = true := by simp [Grid.counts, hs, hopens]
    rw [hspan] at hbelow
    exact ⟨rfl, hbelow, Grid.mem_marks_cons.mpr (.inl (.inl ⟨hspan, hcounts⟩))⟩

theorem within (hs : g.scopes = true) (h : Traces g switch ts body) {kind : NodeKind}
    (hopens : kind.opensScope = true) (hblock : kind = .blockStatement → ts ≠ [])
    (scope : ScopeKind) (span : Span) (label : String) (name : Option Ident) :
    Traces g switch [.inner kind span label ts]
      (Event.within scope span (name.toList.map .nameSelf ++ body)) := by
  intro region hlaid hswitch
  obtain ⟨hbody, hmarks⟩ := h.below hlaid hswitch
  obtain ⟨hplaced, hbelow, hmark⟩ := opener hs hopens hblock hlaid
  refine ⟨.within scope name hplaced hbody fun m hm => (hbelow.mark (hmarks m hm)).1, ?_⟩
  intro m hm
  rw [marks_within, marks_append, marks_map fun _ => rfl, List.nil_append] at hm
  rcases List.mem_cons.mp hm with rfl | hm
  · exact hmark
  · exact Grid.mem_marks_cons.mpr (.inl (.inr (hmarks m hm)))

theorem withinIf (hs : g.scopes = true) (h : Traces g switch ts body) {kind : NodeKind}
    (hopens : kind.opensScope = true) {needed : Bool}
    (hblock : needed = true → kind = .blockStatement → ts ≠ []) (scope : ScopeKind) (span : Span)
    (label : String) :
    Traces g switch [.inner kind span label ts] (Event.withinIf needed scope span body) := by
  cases needed with
  | false => exact h.inner kind span label
  | true => exact h.within hs hopens (hblock rfl) scope span label none

/-- A construct that opens its scope after its first part. -/
theorem late (hs : g.scopes = true) (h : Traces g switch ts es) (h' : Traces g switch us body)
    {kind : NodeKind} (hopens : kind.opensScope = true) (hblock : kind ≠ .blockStatement)
    {needed : Bool} {scope : ScopeKind} {span : Span} (label : String)
    (hlate : needed = true → (kind = .switchStatement → switch span) →
      Late switch scope span body) :
    Traces g switch [.inner kind span label (ts ++ us)]
      (es ++ Event.withinIf needed scope span body) := by
  cases needed with
  | false => exact (h.append h').inner kind span label
  | true =>
    intro region hlaid hswitch
    obtain ⟨hplaced, hbelow, hmark⟩ :=
      opener hs hopens (fun hkind => absurd hkind hblock) hlaid
    obtain ⟨ht, hu, hapart⟩ := Grid.laid_append.mp hbelow
    have hparts : ∀ e ∈ (ts ++ us).flatMap Tree.entries,
        e.1.kind = .switchStatement → switch e.2 := by
      intro e he
      apply hswitch
      rw [List.flatMap_singleton, Tree.entries_eq]
      exact List.mem_append_right _ he
    have hself : kind = .switchStatement → switch span := by
      intro hkind
      refine hswitch (⟨kind, some span, label, none⟩, span) ?_ hkind
      rw [List.flatMap_singleton, Tree.entries_eq, Grid.placed?_inner, hplaced]
      exact List.mem_append_left _ (List.mem_singleton.mpr rfl)
    simp only [List.flatMap_append, List.mem_append] at hparts
    obtain ⟨hes, hems⟩ := h span ht fun e he => hparts e (.inl he)
    obtain ⟨hbody, hbms⟩ := h' span hu fun e he => hparts e (.inr he)
    refine ⟨.late hplaced (hlate rfl hself) hes hbody
      (fun m hm n hn => hapart m (hems m hm) n (hbms n hn))
      (fun m hm => (ht.mark (hems m hm)).1) (fun m hm => (hu.mark (hbms m hm)).1), ?_⟩
    have hinner : ∀ m, m ∈ g.marks ts ++ g.marks us →
        m ∈ g.marks [.inner kind span label (ts ++ us)] := by
      intro m hm
      rw [← Grid.marks_append] at hm
      exact Grid.mem_marks_cons.mpr (.inl (.inr hm))
    intro m hm
    rw [Event.withinIf, if_pos rfl, marks_append, marks_within, List.mem_append,
      List.mem_cons] at hm
    rcases hm with hm | rfl | hm
    · exact hinner m (List.mem_append_left _ (hems m hm))
    · exact hmark
    · exact hinner m (List.mem_append_right _ (hbms m hm))

end Traces

theorem Ast.traces {g : Grid} (hs : g.scopes = true) (switch : Span → Prop) {c : Category}
    (a : Ast c) (b : Option BindingKind) : Traces g switch a.trees (a.events b) := by
  induction a generalizing b with
  | nil | absent | literal | keyword | hidden | keyString | keyNumber | keyPrivate => exact .nil
  | jumpStmt | emptyStmt | debuggerStmt => exact .nil
  | ident id | shorthand id => exact .refer hs id
  | named id | keyIdent id => exact .property id
  | target id =>
    cases b with
    | none => exact .refer hs id
    | some kind => exact .declares kind [id]
  | present _ ih | fieldShorthand _ ih => exact ih b
  | arrowExpr _ ih | computed _ ih | keyComputed _ ih | methodProp _ ih => exact ih none
  | methodMember _ ih | exprPattern _ ih | varStmt _ ih | blockStmt _ ih => exact ih none
  | initDecl _ ih | initExpr _ ih | headDecl _ ih | headPattern _ ih => exact ih none
  | cons _ _ ihf ihr => exact (ihf b).append (ihr b)
  | objectPattern _ _ ih | arrayPattern _ _ ih | restPattern _ _ ih | fieldRest _ _ ih =>
    exact (ih b).inner _ _ _
  | template _ _ ih | array _ _ ih | object _ _ ih | sequence _ _ ih => exact (ih none).inner _ _ _
  | paren _ _ ih | badExpr _ _ ih | arrowBlock _ _ ih | spreadProp _ _ ih =>
    exact (ih none).inner _ _ _
  | exprStmt _ _ ih | badStmt _ _ ih => exact (ih none).inner _ _ _
  | exitStmt _ _ _ ih => exact (ih none).inner _ _ _
  | unary _ _ _ _ _ ih => exact (ih none).inner _ _ _
  | declarationOf _ kind _ ih => exact (ih (some kind.bindingKind)).inner _ _ _
  | defaultPattern _ _ _ ihl ihr | declaratorOf _ _ _ ihl ihr =>
    exact ((ihl b).append (ihr none)).inner _ _ _
  | fieldPair _ _ _ ihk ihv => exact ((ihk none).append (ihv b)).inner _ _ _
  | pair _ _ _ ihl ihr | whileStmt _ _ _ ihl ihr | doWhileStmt _ _ _ ihl ihr =>
    exact ((ihl none).append (ihr none)).inner _ _ _
  | withStmt _ _ _ ihl ihr | caseOf _ _ _ ihl ihr =>
    exact ((ihl none).append (ihr none)).inner _ _ _
  | binary _ _ _ _ ihl ihr | assign _ _ _ _ ihl ihr | get _ _ _ _ ihl ihr =>
    exact ((ihl none).append (ihr none)).inner _ _ _
  | call _ _ _ _ _ ihl ihr => exact ((ihl none).append (ihr none)).inner _ _ _
  | tagged _ _ _ _ ihl ihr => exact ((ihl none).append ((ihr none).inner _ _ _)).inner _ _ _
  | conditional _ _ _ _ iht ihc iha | ifStmt _ _ _ _ iht ihc iha | tryStmt _ _ _ _ iht ihc iha =>
    exact ((iht none).append ((ihc none).append (iha none))).inner _ _ _
  | labeledStmt _ label _ ih =>
    have hlabel : Traces g switch [label.toTree] [] := .nil
    exact (hlabel.append (ih none)).inner _ _ _
  | importDecl _ names _ => exact (Traces.declares .constDecl names).inner _ _ _
  | exportDecl _ names source =>
    have hsource : Traces g switch (source.toList.map Literal.toTree) [] := .nil
    have hnames := (Traces.refers hs names).append hsource
    rw [List.append_nil] at hnames
    exact hnames.inner _ _ _
  | classDecl _ name _ _ ihb ihm =>
    have hname : Traces g switch (name.toList.map Ident.toTree) _ :=
      .declares .classDecl name.toList
    exact (hname.append ((ihb none).append (ihm none))).inner _ _ _
  | function _ name _ _ _ ihp ihb =>
    have hname : Traces g switch (name.toList.map Ident.toTree) [] := .nil
    exact (hname.append ((ihp _).append ((ihb none).inner _ _ _))).within hs rfl
      NodeKind.noConfusion _ _ _ name
  | arrow _ _ _ _ ihp ihb =>
    exact ((ihp _).append (ihb none)).within hs rfl NodeKind.noConfusion _ _ _ none
  | functionDecl _ name _ _ _ ihp ihb =>
    -- The name is declared outside of the scope, though its node stands inside.
    have hdeclared : Traces g switch [] _ := .declares .functionDecl name.toList
    have hname : Traces g switch (name.toList.map Ident.toTree) [] := .nil
    exact hdeclared.append ((hname.append ((ihp _).append ((ihb none).inner _ _ _))).within hs rfl
      NodeKind.noConfusion _ _ _ none)
  | methodDef _ _ _ _ _ _ _ _ ihk ihp ihb =>
    exact ((ihk none).append (((ihp _).append ((ihb none).inner _ _ _)).within hs rfl
      NodeKind.noConfusion _ _ _ none)).inner _ _ _
  | staticBlock _ _ _ ih =>
    exact ((ih none).inner _ _ _).within hs rfl NodeKind.noConfusion _ _ _ none
  | classExpr _ name _ _ ihb ihm =>
    have hname : Traces g switch (name.toList.map Ident.toTree) _ :=
      .declares .classDecl name.toList
    exact (hname.append ((ihb none).append (ihm none))).withinIf hs rfl
      (fun _ => NodeKind.noConfusion) _ _ _
  | forStmt _ _ _ _ _ ihi iht ihu ihb =>
    exact ((ihi none).append ((iht none).append ((ihu none).append (ihb none)))).withinIf hs rfl
      (fun _ => NodeKind.noConfusion) _ _ _
  | forInStmt _ isOf _ _ _ ihl ihr ihb =>
    have hparts := (ihl none).append ((ihr none).append (ihb none))
    cases isOf with
    | false => exact hparts.withinIf hs rfl (fun _ => NodeKind.noConfusion) _ _ _
    | true => exact hparts.withinIf hs rfl (fun _ => NodeKind.noConfusion) _ _ _
  | handlerOf _ _ _ ihp ihb =>
    exact ((ihp _).append (ihb none)).withinIf hs rfl (fun _ => NodeKind.noConfusion) _ _ _
  | blockOf _ body ih =>
    exact (ih none).withinIf hs rfl (fun hlexical _ => body.trees_ne_nil hlexical) _ _ _
  | fieldMember _ _ _ value ihk ihv =>
    exact (ihk none).late hs (ihv none) rfl NodeKind.noConfusion _
      fun _ _ => .field (value.quiet_events rfl)
  | switchStmt _ _ _ ihd ihc =>
    exact (ihd none).late hs (ihc none) rfl NodeKind.noConfusion _
      fun _ hself => .switch (hself rfl)

end ScriptLens
