import Mathlib.Data.List.Flatten
import ScriptLens.Proofs.Reading.Declarators
import ScriptLens.Proofs.Reading.Nodes

/-! # Where declarators come from

Every declarator of a program is read from a declarator in the concrete tree, but for those in
the heads of loops, which have no initial value. What is asked of all declarators is shown for
one way to read a site after the other, and for the whole tree by induction.
-/
namespace ScriptLens

def Kept (Q : Ast .declarator → Prop) (ds : List (Ast .declarator)) : Prop := ∀ d ∈ ds, Q d

/-- A reading all of whose answers have such declarators, as do those below it. -/
inductive Reading.Keeps (Q : Ast .declarator → Prop) : Reading → Prop where
  | intro {r : Reading} (own : ∀ d, r.declarator? = some d → Q d)
      (expr : Kept Q r.expr.declarators) (items : Kept Q (r.items.flatMap Ast.declarators))
      (stmt : Kept Q (r.stmt.toList.flatMap Ast.declarators))
      (pattern : Kept Q r.pattern.declarators)
      (children : ∀ c ∈ r.children, Reading.Keeps Q c) : Reading.Keeps Q r

def Site.Keeps (Q : Ast .declarator → Prop) (s : Site) : Prop := ∀ c ∈ s.children, c.Keeps Q

variable {Q : Ast .declarator → Prop}

namespace Kept

variable {ds es : List (Ast .declarator)}

theorem nil : Kept Q [] := fun _ hd => by cases hd

theorem cons {d : Ast .declarator} (hd : Q d) (h : Kept Q ds) : Kept Q (d :: ds) :=
  List.forall_mem_cons.mpr ⟨hd, h⟩

theorem append (hd : Kept Q ds) (he : Kept Q es) : Kept Q (ds ++ es) :=
  List.forall_mem_append.mpr ⟨hd, he⟩

theorem flatMap {α : Type} {rs : List α} {view : α → List (Ast .declarator)}
    (h : ∀ r ∈ rs, Kept Q (view r)) : Kept Q (rs.flatMap view) := by
  intro d hd
  obtain ⟨r, hr, hd⟩ := List.mem_flatMap.mp hd
  exact h r hr d hd

theorem option {c : Category} {a : Ast c} (h : Kept Q a.declarators) :
    Kept Q ((some a).toList.flatMap Ast.declarators) := by
  rw [Option.toList_some, List.flatMap_singleton]
  exact h

theorem getD {c : Category} {o : Option (Ast c)} {default : Ast c}
    (h : Kept Q (o.toList.flatMap Ast.declarators)) (hdefault : Kept Q default.declarators) :
    Kept Q (o.getD default).declarators := by
  cases o with
  | none => exact hdefault
  | some a =>
    rw [Option.toList_some, List.flatMap_singleton] at h
    exact h

end Kept

namespace Reading.Keeps

variable {r : Reading}

theorem own (h : r.Keeps Q) : ∀ d, r.declarator? = some d → Q d := by
  cases h
  assumption

theorem expr (h : r.Keeps Q) : Kept Q r.expr.declarators := by
  cases h
  assumption

theorem items (h : r.Keeps Q) : Kept Q (r.items.flatMap Ast.declarators) := by
  cases h
  assumption

theorem stmt (h : r.Keeps Q) : Kept Q (r.stmt.toList.flatMap Ast.declarators) := by
  cases h
  assumption

theorem pattern (h : r.Keeps Q) : Kept Q r.pattern.declarators := by
  cases h
  assumption

theorem site (h : r.Keeps Q) : r.site.Keeps Q := by
  cases h
  assumption

end Reading.Keeps

namespace Site.Keeps

variable {s : Site} (h : s.Keeps Q)
include h

/-! ### Parts of sites -/

theorem mem_field? {role : String} {r : Reading} (hr : s.field? role = some r) : r.Keeps Q :=
  h r (List.mem_of_find?_eq_some hr)

theorem mem_first? {r : Reading} (hr : s.first? = some r) : r.Keeps Q :=
  h r (List.mem_of_find?_eq_some hr)

theorem mem_parts {r : Reading} (hr : r ∈ s.parts) : r.Keeps Q := h r (List.mem_of_mem_filter hr)

theorem mem_fields {role : String} {r : Reading} (hr : r ∈ s.fields role) : r.Keeps Q :=
  h r (List.mem_of_mem_filter hr)

theorem field {c : Category} (role : String) (make : Option Reading → Ast c)
    (hnone : Kept Q (make none).declarators)
    (hsome : ∀ r, r.Keeps Q → Kept Q (make (some r)).declarators) :
    Kept Q (make (s.field? role)).declarators := by
  cases hr : s.field? role with
  | none => exact hnone
  | some r => exact hsome r (h.mem_field? hr)

theorem first {c : Category} (make : Option Reading → Ast c)
    (hnone : Kept Q (make none).declarators)
    (hsome : ∀ r, r.Keeps Q → Kept Q (make (some r)).declarators) :
    Kept Q (make s.first?).declarators := by
  cases hr : s.first? with
  | none => exact hnone
  | some r => exact hsome r (h.mem_first? hr)

theorem each {c : Category} {rs : List Reading} (hsub : ∀ r ∈ rs, r ∈ s.children)
    {view : Reading → Option (Ast c)}
    (hview : ∀ r, r.Keeps Q → Kept Q ((view r).toList.flatMap Ast.declarators)) :
    Kept Q (Ast.ofList (rs.filterMap view)).declarators := by
  rw [Ast.declarators_ofList, List.filterMap_eq_flatMap_toList, List.flatMap_assoc]
  exact .flatMap fun r hr => hview r (h r (hsub r hr))

theorem parts {c : Category} {view : Reading → Option (Ast c)}
    (hview : ∀ r, r.Keeps Q → Kept Q ((view r).toList.flatMap Ast.declarators)) :
    Kept Q (Ast.ofList (s.parts.filterMap view)).declarators :=
  h.each (fun _ hr => List.mem_of_mem_filter hr) hview

theorem firstExpr : Kept Q s.firstExpr.declarators :=
  h.first (fun o => (o.map Reading.expr).getD .missingExpr) .nil fun _ hr => hr.expr

theorem firstPattern : Kept Q s.firstPattern.declarators :=
  h.first (fun o => (o.map Reading.pattern).getD .missingPattern) .nil fun _ hr => hr.pattern

theorem firstExpr? : Kept Q s.firstExpr?.declarators :=
  h.first (fun o => .ofOption (o.map Reading.expr)) .nil fun _ hr => hr.expr

theorem exprs : Kept Q s.exprs.declarators := by
  rw [Site.exprs, ← List.filterMap_eq_map]
  exact h.parts fun _ hr => hr.expr.option

theorem patterns : Kept Q s.patterns.declarators := by
  rw [Site.patterns, ← List.filterMap_eq_map]
  exact h.parts fun _ hr => hr.pattern.option

theorem statements : Kept Q s.statements.declarators := h.parts fun _ hr => hr.stmt

theorem fieldExpr? (role : String) : Kept Q (s.fieldExpr? role).declarators :=
  h.field role (fun o => .ofOption (o.map Reading.expr)) .nil fun _ hr => hr.expr

theorem fieldExpr (role : String) : Kept Q (s.fieldExpr role).declarators :=
  h.field role (fun o => (o.map Reading.expr).getD .missingExpr) .nil fun _ hr => hr.expr

theorem fieldPattern (role : String) : Kept Q (s.fieldPattern role).declarators :=
  h.field role (fun o => (o.map Reading.pattern).getD .missingPattern) .nil fun _ hr => hr.pattern

theorem fieldStmt (role : String) : Kept Q (s.fieldStmt role).declarators :=
  h.field role (fun o => (o.bind Reading.stmt).getD .missingStmt) .nil fun _ hr => hr.stmt.getD .nil

theorem blockBody (role : String) : Kept Q (s.blockBody role).declarators :=
  h.field role (fun o => (o.map fun r : Reading => r.site.statements).getD .nil) .nil
    fun _ hr => hr.site.statements

theorem params (role : String) : Kept Q (s.params role).declarators :=
  h.field role (fun o => (o.map fun r : Reading => r.site.patterns).getD .nil) .nil
    fun _ hr => hr.site.patterns

theorem condition (role : String) : Kept Q (s.condition role).declarators := by
  unfold Site.condition
  split
  · exact .nil
  · next r hr =>
    have hkeeps := h.mem_field? hr
    split
    · exact hkeeps.site.firstExpr
    · exact hkeeps.expr

end Site.Keeps

namespace Kept

variable {source : ByteArray} {r : Reading} {s : Site}

/-! ### Patterns, functions and classes -/

theorem key (hr : r.Keeps Q) : Kept Q (r.key source).declarators := by
  unfold Reading.key
  split
  case h_4 => exact hr.site.firstExpr
  all_goals exact .nil

theorem fieldKey (h : s.Keeps Q) (role : String) : Kept Q (s.fieldKey source role).declarators :=
  h.field role (fun o => (o.map fun r : Reading => r.key source).getD .missingKey) .nil
    fun _ hr => key hr

theorem field? (hr : r.Keeps Q) : Kept Q ((r.field? source).toList.flatMap Ast.declarators) := by
  unfold Reading.field?
  split
  · exact .option ((fieldKey hr.site "key").append (hr.site.fieldPattern "value"))
  · exact .option hr.pattern
  · exact .option hr.pattern
  · exact .option hr.site.firstPattern
  · exact .nil

theorem pattern (h : s.Keeps Q) {expr : Expr} (hexpr : Kept Q expr.declarators) :
    Kept Q (s.pattern source expr).declarators := by
  unfold Site.pattern
  split
  case h_4 => exact h.parts fun _ hr => field? hr
  case h_5 => exact h.patterns
  case h_6 | h_7 => exact (h.fieldPattern "left").append (h.fieldExpr "right")
  case h_8 => exact h.firstPattern
  case h_9 => exact hexpr
  all_goals exact .nil

theorem method (h : s.Keeps Q) : Kept Q (s.method source).declarators :=
  (fieldKey h "name").append ((h.params "parameters").append (h.blockBody "body"))

theorem baseClass (h : s.Keeps Q) : Kept Q s.baseClass.declarators := by
  unfold Site.baseClass
  cases hpart : s.partOf? .classHeritage with
  | none => exact .nil
  | some r => exact (h.mem_parts (List.mem_of_find?_eq_some hpart)).site.firstExpr?

theorem member? (hr : r.Keeps Q) : Kept Q ((r.member? source).toList.flatMap Ast.declarators) := by
  unfold Reading.member?
  split
  · exact .option (method hr.site)
  · cases hkey : r.site.field? "property" with
    | none => exact .nil
    | some k => exact .option ((key (hr.site.mem_field? hkey)).append (hr.site.fieldExpr? "value"))
  · exact .option (hr.site.blockBody "body")
  · exact .nil

theorem members (h : s.Keeps Q) : Kept Q (s.members source).declarators :=
  h.field "body"
    (fun o => (o.map fun r : Reading =>
      Ast.ofList (r.site.parts.filterMap fun c : Reading => c.member? source)).getD .nil)
    .nil fun _ hr => hr.site.parts fun _ hc => member? hc

/-! ### Expressions -/

theorem property? (hr : r.Keeps Q) :
    Kept Q ((r.property? source).toList.flatMap Ast.declarators) := by
  unfold Reading.property?
  split
  · exact .option ((fieldKey hr.site "key").append (hr.site.fieldExpr "value"))
  · exact .option .nil
  · exact .option (method hr.site)
  · exact .option hr.site.firstExpr
  · exact .nil

theorem templateParts (h : s.Keeps Q) : Kept Q s.templateParts.declarators := by
  rw [Site.templateParts, List.map_filterMap]
  refine h.each (fun r hr => List.mem_of_mem_filter (List.mem_of_mem_filter hr)) fun r hr => ?_
  rw [← Ast.declarators_ofOption]
  exact hr.site.firstExpr?

theorem accessOf (s : Site) : Kept Q (s.accessOf source).declarators := by
  unfold Site.accessOf
  cases s.field? "property" with
  | none => exact .nil
  | some r =>
    rw [Option.map_some, Option.getD_some, Reading.access]
    split <;> exact .nil

theorem arrowParams (h : s.Keeps Q) : Kept Q s.arrowParams.declarators := by
  unfold Site.arrowParams
  split
  · next r hr => exact (h.mem_field? hr).pattern.append .nil
  · exact h.params "parameters"

theorem arrowBody (h : s.Keeps Q) : Kept Q s.arrowBody.declarators := by
  refine h.field "body"
    (fun o => (o.map Reading.arrowBody).getD (.arrowBlock .nowhere .nil)) .nil ?_
  intro r hr
  rw [Option.map_some, Option.getD_some, Reading.arrowBody]
  split
  · exact hr.site.statements
  · exact hr.expr

theorem arguments (h : s.Keeps Q) : Kept Q s.arguments.declarators :=
  h.field "arguments" (fun o => (o.map fun r : Reading => r.site.exprs).getD .nil) .nil
    fun _ hr => hr.site.exprs

theorem call (h : s.Keeps Q) : Kept Q s.call.declarators := by
  unfold Site.call
  split
  · next args hargs =>
    have hkeeps := (h.mem_field? hargs).site
    dsimp only
    split
    · exact (h.fieldExpr "function").append (templateParts hkeeps)
    · exact (h.fieldExpr "function").append hkeeps.exprs
  · exact (h.fieldExpr "function").append .nil

theorem sequenceItems (h : s.Keeps Q) : Kept Q (s.sequenceItems.flatMap Ast.declarators) := by
  rw [Site.sequenceItems, List.flatMap_assoc]
  exact .flatMap fun r hr => (h.mem_parts hr).items

theorem recovered (h : s.Keeps Q) : Kept Q s.recovered.declarators := by
  rw [Site.recovered, ← List.filterMap_eq_map]
  exact h.each (fun r hr => List.mem_of_mem_filter (List.mem_of_mem_filter hr))
    fun _ hr => hr.expr.option

theorem expr (h : s.Keeps Q) : Kept Q (s.expr source).declarators := by
  have hleftRight := (h.fieldPattern "left").append (h.fieldExpr "right")
  unfold Site.expr
  split
  case h_9 => exact templateParts h
  case h_13 => exact h.exprs
  case h_14 => exact h.parts fun _ hr => property? hr
  case h_15 => exact (h.params "parameters").append (h.blockBody "body")
  case h_16 => exact (arrowParams h).append (arrowBody h)
  case h_17 => exact (baseClass h).append (members h)
  case h_18 | h_19 => exact h.fieldExpr? "argument"
  case h_20 | h_21 => exact h.firstExpr?
  case h_22 => exact h.firstExpr
  case h_23 => exact (h.fieldExpr "left").append (h.fieldExpr "right")
  case h_24 | h_25 => exact hleftRight
  case h_26 =>
    exact (h.fieldExpr "condition").append
      ((h.fieldExpr "consequence").append (h.fieldExpr "alternative"))
  case h_27 => exact call h
  case h_28 => exact (h.fieldExpr "constructor").append (arguments h)
  case h_29 => exact (h.fieldExpr "object").append (accessOf s)
  case h_30 => exact (h.fieldExpr "object").append (h.fieldExpr "index")
  case h_31 =>
    have hitems : Kept Q (Ast.ofList s.sequenceItems).declarators := by
      rw [Ast.declarators_ofList]
      exact sequenceItems h
    exact hitems
  case h_32 => exact h.firstExpr
  case h_33 => exact recovered h
  all_goals exact .nil

theorem items (h : s.Keeps Q) :
    Kept Q ((s.items (s.expr source)).flatMap Ast.declarators) := by
  unfold Site.items
  split
  · exact sequenceItems h
  · rw [List.flatMap_singleton]
    exact expr h

/-! ### Statements -/

theorem declaration (h : s.Keeps Q) : Kept Q (s.declaration source).declarators := by
  refine h.parts fun r hr => ?_
  have hs := hr.site
  unfold Reading.declarator?
  split
  · next hform =>
    have hown : Q (.declaratorOf r.span (r.site.fieldPattern "name") (r.site.fieldExpr? "value")) :=
      hr.own _ (by rw [Reading.declarator?, hform])
    have hparts := (hs.fieldPattern "name").append (hs.fieldExpr? "value")
    exact .option (.cons hown hparts)
  · exact .nil

theorem clause? (hr : r.Keeps Q) : Kept Q (r.clause?.toList.flatMap Ast.declarators) := by
  unfold Reading.clause?
  split
  · rw [← Ast.declarators_ofOption]
    exact hr.site.firstExpr?
  · exact .nil
  · exact .nil
  · split
    · exact .option hr.expr
    · exact .nil

theorem forInit? (hr : r.Keeps Q) :
    Kept Q ((r.forInit? source).toList.flatMap Ast.declarators) := by
  unfold Reading.forInit?
  split
  · exact .option (declaration hr.site)
  · exact .option (declaration hr.site)
  · have hclause := clause? hr
    cases hc : r.clause? with
    | none => exact .nil
    | some e =>
      rw [hc] at hclause
      exact hclause

theorem last {c : Category} (h : s.Keeps Q) (role : String) {view : Reading → Option (Ast c)}
    (hview : ∀ r, r.Keeps Q → Kept Q ((view r).toList.flatMap Ast.declarators)) :
    Kept Q (Ast.ofOption ((s.fields role).filterMap view).getLast?).declarators := by
  cases hlast : ((s.fields role).filterMap view).getLast? with
  | none => exact .nil
  | some a =>
    obtain ⟨r, hr, hview'⟩ := List.mem_filterMap.mp (List.mem_of_getLast? hlast)
    have hkeeps := hview r (h.mem_fields hr)
    rw [hview'] at hkeeps
    rw [Ast.declarators_ofOption]
    exact hkeeps

theorem case? (hr : r.Keeps Q) : Kept Q (r.case?.toList.flatMap Ast.declarators) := by
  have hs := hr.site
  unfold Reading.case?
  split
  · have htest : Kept Q (Ast.ofOption
        ((r.site.fields "value").filterMap (some ∘ Reading.expr)).getLast?).declarators :=
      last hs "value" fun _ hr => hr.expr.option
    rw [List.filterMap_eq_map, List.getLast?_map] at htest
    have hbody : Kept Q (Ast.ofList ((r.site.fields "body").filterMap Reading.stmt)).declarators :=
      hs.each (fun _ hr => List.mem_of_mem_filter hr) fun _ hr => hr.stmt
    exact .option (htest.append hbody)
  · exact .nil

theorem recoveredStmt? (hr : r.Keeps Q) :
    Kept Q (r.recoveredStmt?.toList.flatMap Ast.declarators) := by
  unfold Reading.recoveredStmt?
  split
  · exact hr.stmt
  · exact .option hr.expr

theorem branch? (hr : r.Keeps Q) : Kept Q (r.branch?.toList.flatMap Ast.declarators) := by
  unfold Reading.branch?
  split
  · cases hfirst : r.site.first? with
    | none => exact .nil
    | some c => exact (hr.site.mem_first? hfirst).stmt
  · exact hr.stmt

theorem handler (hr : r.Keeps Q) : Kept Q r.handler.declarators := by
  have hparam : Kept Q
      (Ast.ofOption ((r.site.field? "parameter").map Reading.pattern)).declarators :=
    hr.site.field "parameter" (fun o => .ofOption (o.map Reading.pattern)) .nil
      fun _ hc => hc.pattern
  exact hparam.append (hr.site.blockBody "body")

theorem forStmt (h : s.Keeps Q) : Kept Q (s.forStmt source).declarators := by
  have hinit : Kept Q (Ast.ofOption
      ((s.fields "initializer").filterMap (·.forInit? source)).getLast?).declarators :=
    last h "initializer" fun _ hr => forInit? hr
  have htest := last h "condition" fun _ hr => clause? hr
  have hupdate := last h "increment" fun _ hr => clause? hr
  have hbody : Kept Q
      (((s.fields "body").getLast?.bind Reading.stmt).getD .missingStmt).declarators := by
    cases hlast : (s.fields "body").getLast? with
    | none => exact .nil
    | some r => exact (h.mem_fields (List.mem_of_getLast? hlast)).stmt.getD .nil
  exact hinit.append (htest.append (hupdate.append hbody))

theorem forHead (hbare : ∀ span name, Q (.declaratorOf span name .absent)) (h : s.Keeps Q) :
    Kept Q (s.forHead source).declarators := by
  unfold Site.forHead
  split
  · next word left _ hleft =>
    have hpattern := (h.mem_field? hleft).pattern
    exact (Kept.cons (hbare _ _) (hpattern.append .nil)).append .nil
  · next left _ hleft => exact (h.mem_field? hleft).pattern
  · exact .nil

theorem tryStmt (h : s.Keeps Q) : Kept Q s.tryStmt.declarators := by
  have hhandler : Kept Q (Ast.ofOption ((s.field? "handler").map Reading.handler)).declarators :=
    h.field "handler" (fun o => .ofOption (o.map Reading.handler)) .nil fun _ hr => handler hr
  have hfinalizer : Kept Q
      (Ast.ofOption ((s.field? "finalizer").map fun r => r.site.block "body")).declarators :=
    h.field "finalizer" (fun o => .ofOption (o.map fun r : Reading => r.site.block "body")) .nil
      fun _ hr => hr.site.blockBody "body"
  exact (h.blockBody "body").append (hhandler.append hfinalizer)

theorem switchStmt (h : s.Keeps Q) : Kept Q s.switchStmt.declarators := by
  refine (h.condition "value").append ?_
  exact h.field "body"
    (fun o =>
      (o.map fun r : Reading => Ast.ofList (r.site.parts.filterMap Reading.case?)).getD .nil)
    .nil fun _ hr => hr.site.parts fun _ hc => case? hc

theorem exportStmt (h : s.Keeps Q) : Kept Q (s.exportStmt source).declarators := by
  unfold Site.exportStmt
  split
  · next r hr => exact (h.mem_field? hr).stmt.getD (h.mem_field? hr).expr
  · split
    · next r hr => exact (h.mem_field? hr).expr
    · exact .nil

theorem stmt (hbare : ∀ span name, Q (.declaratorOf span name .absent)) (h : s.Keeps Q)
    {expr : Expr} (hexpr : Kept Q expr.declarators) :
    Kept Q ((s.stmt source expr).toList.flatMap Ast.declarators) := by
  unfold Site.stmt
  split
  case h_1 => exact .option h.firstExpr
  case h_2 | h_3 => exact .option (declaration h)
  case h_4 => exact .option ((h.params "parameters").append (h.blockBody "body"))
  case h_5 => exact .option ((baseClass h).append (members h))
  case h_6 => exact .option h.statements
  case h_7 =>
    have halternate : Kept Q
        (Ast.ofOption ((s.field? "alternative").bind Reading.branch?)).declarators := by
      refine h.field "alternative" (fun o => .ofOption (o.bind Reading.branch?)) .nil ?_
      intro r hr
      rw [Ast.declarators_ofOption]
      exact branch? hr
    exact .option ((h.condition "condition").append ((h.fieldStmt "consequence").append halternate))
  case h_8 => exact .option (forStmt h)
  case h_9 =>
    exact .option ((forHead hbare h).append ((h.fieldExpr "right").append (h.fieldStmt "body")))
  case h_10 => exact .option ((h.condition "condition").append (h.fieldStmt "body"))
  case h_11 => exact .option ((h.fieldStmt "body").append (h.condition "condition"))
  case h_12 => exact .option (tryStmt h)
  case h_13 | h_14 => exact .option h.firstExpr?
  case h_17 => exact .option (h.fieldStmt "body")
  case h_18 => exact .option (switchStmt h)
  case h_19 => exact .option ((h.condition "object").append (h.fieldStmt "body"))
  case h_23 => exact .option (exportStmt h)
  case h_24 => exact .option (h.parts fun _ hr => recoveredStmt? hr)
  case h_15 | h_16 | h_20 | h_21 | h_22 => exact .option .nil
  case h_25 | h_26 | h_27 => exact .nil
  case h_28 => exact .option hexpr

end Kept

/-- A declarator that is read from one in a concrete tree, or has no initial value. -/
def Cst.Gives (source : ByteArray) (t : Cst) (d : Ast .declarator) : Prop :=
  (∃ span name, d = .declaratorOf span name .absent) ∨
    ∃ n ∈ t.nodes, (Reading.ofCst source n).declarator? = some d

theorem Cst.keeps_gives {source : ByteArray} {t u : Cst} (hu : ∀ n ∈ u.nodes, n ∈ t.nodes) :
    (Reading.ofCst source u).Keeps (t.Gives source) := by
  induction u using Rose.children_induction with
  | step u ih =>
    have hsite : Site.Keeps (t.Gives source) ⟨u.head, u.children.map (Reading.ofCst source)⟩ := by
      intro r hr
      obtain ⟨c, hc, rfl⟩ := List.mem_map.mp hr
      exact ih c hc fun n hn => hu n (Rose.mem_nodes_of_child hc hn)
    have hown : ∀ d, (Reading.ofCst source u).declarator? = some d → t.Gives source d :=
      fun d hd => .inr ⟨u, hu u u.mem_nodes_self, hd⟩
    rw [Reading.ofCst_eq] at hown ⊢
    exact .intro hown (Kept.expr hsite) (Kept.items hsite)
      (Kept.stmt (fun span name => .inl ⟨span, name, rfl⟩) hsite (Kept.expr hsite))
      (Kept.pattern hsite (Kept.expr hsite)) hsite

/-- The concrete tree gives all declarators of a program. -/
theorem Program.gives_ofCst {source : ByteArray} {t : Cst} {d : Ast .declarator}
    (hd : d ∈ (Program.ofCst source t).body.declarators) : t.Gives source d :=
  (Cst.keeps_gives fun _ hn => hn).site.statements d hd

end ScriptLens
