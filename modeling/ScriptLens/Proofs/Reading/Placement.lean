import Mathlib.Data.List.Flatten
import ScriptLens.Proofs.Reading.Sites
import ScriptLens.Reading.Program

/-! # Where readings stand

Every answer of a reading stands where its node stands. There is one statement for each way
to read a site; it names the roles that the parts are found by, and these are never the same
for two parts of one construct. Two constructs have spans that no single node has: the
function of a method and the declaration in the head of a loop cover two children.
-/
namespace ScriptLens

namespace Grid

variable {g : Grid}

theorem Laid.missing {kind : NodeKind} (hkind : kind ≠ .identifier)
    (hopens : kind.opensScope = true → kind = .blockStatement) {label : String} (region : Span) :
    g.Laid region [Tree.inner kind .nowhere label []] :=
  .bare rfl placed?_inner (fun h => absurd h hkind) (fun _ hopen => ⟨hopens hopen, rfl⟩) .nil

theorem laid_missingExpr (region : Span) : g.Laid region Ast.missingExpr.trees :=
  .missing (by decide) (by decide) region

theorem laid_missingStmt (region : Span) : g.Laid region Ast.missingStmt.trees :=
  .missing (by decide) (by decide) region

theorem Stands.literal {h : CstHead} (hsized : g.Sizes h) (kind : LiteralKind) :
    g.Stands h [(h.literal g.source kind).toTree] := by
  have hkind : kind.nodeKind ≠ .identifier := by cases kind <;> decide
  exact .leaf hkind hsized

theorem Stands.option {c : Category} {h : CstHead} {a : Ast c} (hs : g.Stands h a.trees) :
    g.Stands h ((some a).toList.flatMap Ast.trees) := by
  rw [Option.toList_some, List.flatMap_singleton]
  exact hs

theorem Stands.getD {c : Category} {h : CstHead} {o : Option (Ast c)} {default : Ast c}
    (hs : g.Stands h (o.toList.flatMap Ast.trees)) (hdefault : g.Stands h default.trees) :
    g.Stands h (o.getD default).trees := by
  cases o with
  | none => exact hdefault
  | some a =>
    rw [Option.toList_some, List.flatMap_singleton] at hs
    exact hs

theorem Stands.nil {h : CstHead} : g.Stands h [] := fun _ _ => .nil

end Grid

theorem Ast.accessKind_ne (a : Ast .access) : a.accessKind ≠ .identifier := by
  cases a <;> exact NodeKind.noConfusion

theorem Reading.Tidy.inner {g : Grid} {r : Reading} {kind : NodeKind} {label : String}
    {ts : List Tree} (hr : r.Tidy g) (hkind : kind ≠ .identifier) (hl : r.site.Lays g ts) :
    g.Stands r.head [Tree.inner kind r.span label ts] :=
  Grid.Stands.inner hkind hr.site hl

namespace Site

variable {g : Grid} {s : Site}

section Parts

variable (h : s.Parts g)
include h

theorem Parts.firstExpr : s.Lays g s.firstExpr.trees :=
  h.first (fun o : Option Reading => ((o.map Reading.expr).getD .missingExpr).trees)
    Grid.laid_missingExpr fun _ hr => hr.expr

theorem Parts.firstPattern : s.Lays g s.firstPattern.trees :=
  h.first (fun o : Option Reading => ((o.map Reading.pattern).getD .missingPattern).trees)
    Grid.laid_missingExpr fun _ hr => hr.pattern

theorem Parts.firstExpr? : s.Lays g s.firstExpr?.trees :=
  h.first (fun o : Option Reading => (Ast.ofOption (o.map Reading.expr)).trees) (fun _ => .nil)
    fun _ hr => hr.expr

theorem Parts.exprs : s.Lays g s.exprs.trees := by
  rw [Site.exprs, Ast.trees_ofList, ← List.filterMap_eq_map]
  exact h.each (List.Sublist.refl _) fun _ hr => hr.expr.option

theorem Parts.patterns : s.Lays g s.patterns.trees := by
  rw [Site.patterns, Ast.trees_ofList, ← List.filterMap_eq_map]
  exact h.each (List.Sublist.refl _) fun _ hr => hr.pattern.option

theorem Parts.statements : s.Lays g s.statements.trees := by
  rw [Site.statements, Ast.trees_ofList]
  exact h.each (List.Sublist.refl _) fun _ hr => hr.stmt

theorem Parts.fieldExpr? (role : String) : s.Holds g [some role] (s.fieldExpr? role).trees :=
  h.field role (fun o : Option Reading => (Ast.ofOption (o.map Reading.expr)).trees) (fun _ => .nil)
    fun _ hr => hr.expr

theorem Parts.fieldExpr (role : String) : s.Holds g [some role] (s.fieldExpr role).trees :=
  h.field role (fun o : Option Reading => ((o.map Reading.expr).getD .missingExpr).trees)
    Grid.laid_missingExpr fun _ hr => hr.expr

theorem Parts.fieldPattern (role : String) : s.Holds g [some role] (s.fieldPattern role).trees :=
  h.field role (fun o : Option Reading => ((o.map Reading.pattern).getD .missingPattern).trees)
    Grid.laid_missingExpr fun _ hr => hr.pattern

theorem Parts.fieldIdent? (role : String) :
    s.Holds g [some role] ((s.fieldIdent? g.source role).toList.map Ident.toTree) :=
  h.field role
    (fun o : Option Reading =>
      (o.map fun r : Reading => r.head.ident g.source).toList.map Ident.toTree)
    (fun _ => .nil) fun _ hr => .ident hr.sized

theorem Parts.fieldStmt (role : String) : s.Holds g [some role] (s.fieldStmt role).trees :=
  h.field role (fun o : Option Reading => ((o.bind Reading.stmt).getD .missingStmt).trees)
    Grid.laid_missingStmt fun _ hr => hr.stmt.getD fun region _ => Grid.laid_missingStmt region

theorem Parts.block (role : String) :
    s.Holds g [some role]
      [Tree.inner .blockStatement (s.blockSpan role) "" (s.blockBody role).trees] :=
  h.field role
    (fun o : Option Reading => [Tree.inner .blockStatement ((o.map Reading.span).getD .nowhere) ""
      ((o.map fun r : Reading => r.site.statements).getD Ast.nil).trees])
    (.missing (by decide) (by decide)) fun _ hr => hr.inner (by decide) hr.site.statements

theorem Parts.params (role : String) : s.Holds g [some role] (s.params role).trees :=
  h.field role
    (fun o : Option Reading => ((o.map fun r : Reading => r.site.patterns).getD Ast.nil).trees)
    (fun _ => .nil) fun _ hr => .of_lays hr.site hr.site.patterns

theorem Parts.condition (role : String) : s.Holds g [some role] (s.condition role).trees := by
  have heq : s.condition role = ((s.field? role).map fun r : Reading =>
      if r.form = .parenthesizedExpression then r.site.firstExpr else r.expr).getD
        .missingExpr := by
    rw [Site.condition]
    cases s.field? role <;> rfl
  rw [heq]
  refine h.field role
    (fun o : Option Reading => ((o.map fun r : Reading =>
      if r.form = .parenthesizedExpression then r.site.firstExpr else r.expr).getD
        .missingExpr).trees)
    Grid.laid_missingExpr ?_
  intro r hr
  dsimp only [Option.map_some, Option.getD_some]
  split
  · exact .of_lays hr.site hr.site.firstExpr
  · exact hr.expr

end Parts

end Site

namespace Grid

variable {g : Grid} {r : Reading} {s : Site}

/-! ### Patterns -/

theorem stands_key (hr : r.Tidy g) : g.Stands r.head (r.key g.source).trees := by
  unfold Reading.key
  split
  · exact .leaf (by decide) hr.sized
  · exact .literal hr.sized .string
  · exact .literal hr.sized .number
  · exact .of_lays hr.site hr.site.firstExpr
  · exact .ident hr.sized

theorem holds_fieldKey (h : s.Parts g) (role : String) :
    s.Holds g [some role] (s.fieldKey g.source role).trees :=
  h.field role
    (fun o : Option Reading => ((o.map fun r : Reading => r.key g.source).getD .missingKey).trees)
    laid_missingExpr fun _ hr => stands_key hr

theorem stands_field? (hr : r.Tidy g) :
    g.Stands r.head ((r.field? g.source).toList.flatMap Ast.trees) := by
  have hs := hr.site.toParts
  unfold Reading.field?
  split
  · exact .option (hr.inner (by decide)
      ((holds_fieldKey hs "key").append hs (hs.fieldPattern "value") (by decide)).lays)
  · exact .option hr.pattern
  · exact .option hr.pattern
  · exact .option (hr.inner (by decide) hs.firstPattern)
  · exact .nil

theorem stands_pattern (h : s.Tidy g) {expr : Expr} (hexpr : g.Stands s.head expr.trees) :
    g.Stands s.head (s.pattern g.source expr).trees := by
  have hs := h.toParts
  unfold Site.pattern
  split
  · exact .ident h.sized
  · exact .ident h.sized
  · exact .ident h.sized
  · refine .inner (by decide) h ?_
    rw [Ast.trees_ofList]
    exact hs.each (List.Sublist.refl _) fun _ hr => stands_field? hr
  · exact .inner (by decide) h hs.patterns
  · exact .inner (by decide) h
      ((hs.fieldPattern "left").append hs (hs.fieldExpr "right") (by decide)).lays
  · exact .inner (by decide) h
      ((hs.fieldPattern "left").append hs (hs.fieldExpr "right") (by decide)).lays
  · exact .inner (by decide) h hs.firstPattern
  · exact hexpr

/-! ### Functions and classes -/

theorem blockSpan_eq {role : String} (hr : s.field? role = some r) :
    s.blockSpan role = r.head.span := by
  rw [Site.blockSpan, hr]
  rfl

theorem blockSpan_eq_nowhere {role : String} (hr : s.field? role = none) :
    s.blockSpan role = .nowhere := by
  rw [Site.blockSpan, hr]
  rfl

theorem methodSpan_eq (s : Site) :
    s.methodSpan = (s.blockSpan "parameters").cover (s.blockSpan "body") := by
  unfold Site.methodSpan
  cases hp : s.field? "parameters" with
  | none =>
    rw [blockSpan_eq_nowhere hp]
    rfl
  | some r =>
    rw [blockSpan_eq hp]
    rfl

section Method

variable {region : Span}

theorem laid_methodBody (h : s.Parts g)
    (hp : ∀ r, s.field? "parameters" = some r → r.head.FitsIn region)
    (hb : ∀ r, s.field? "body" = some r → r.head.FitsIn region) :
    g.Laid region ((s.params "parameters").trees ++
      [Tree.inner .blockStatement (s.blockSpan "body") "" (s.blockBody "body").trees]) := by
  have hparams : g.Laid region (s.params "parameters").trees := by
    unfold Site.params
    cases hr : s.field? "parameters" with
    | none => exact .nil
    | some r =>
      have hr' := h.tidy r (Site.mem_of_field? hr).1
      exact Stands.of_lays hr'.site hr'.site.patterns region (hp r hr)
  have hblock : g.Laid region
      [Tree.inner .blockStatement (s.blockSpan "body") "" (s.blockBody "body").trees] := by
    unfold Site.blockSpan Site.blockBody
    cases hr : s.field? "body" with
    | none => exact .missing (by decide) (by decide) region
    | some r =>
      have hr' := h.tidy r (Site.mem_of_field? hr).1
      have hinner : g.Stands r.head
          [Tree.inner .blockStatement r.span "" r.site.statements.trees] :=
        hr'.inner (by decide) hr'.site.statements
      exact hinner region (hb r hr)
  exact laid_append.mpr ⟨hparams, hblock, (h.params _).apart h (h.block _) (by decide)⟩

theorem suits_blockSpan (h : s.Parts g) {role : String}
    (hfits : ∀ r, s.field? role = some r → r.head.FitsIn region)
    (hplaced : (s.blockSpan role).isNowhere = false) : g.Suits region (s.blockSpan role) := by
  cases hr : s.field? role with
  | none =>
    rw [Site.blockSpan, hr] at hplaced
    cases hplaced
  | some r =>
    rw [blockSpan_eq hr] at hplaced ⊢
    exact (h.tidy r (Site.mem_of_field? hr).1).sized.suits (hfits r hr) hplaced

theorem fitsIn_of_blockSpan {role : String} (hr : s.field? role = some r)
    (h : (s.blockSpan role).isNowhere = false → (s.blockSpan role).Within region) :
    r.head.FitsIn region := by
  rw [blockSpan_eq hr] at h
  exact CstHead.fitsIn_of_span h

theorem methodSpan_placed (h : s.Tidy g) (hform : s.form = .methodDefinition)
    (hscopes : g.scopes = true) : s.methodSpan.isNowhere = false := by
  have hplaced : ∀ role, (∃ p ∈ s.children.map Reading.head, p.field = some role) →
      (s.blockSpan role).isNowhere = false := by
    rintro role ⟨_, hp, hrole⟩
    obtain ⟨c, hc, rfl⟩ := List.mem_map.mp hp
    have hfound : (s.field? role).isSome = true := by
      rw [Site.field?, List.find?_isSome]
      exact ⟨c, hc, by simp [hrole]⟩
    obtain ⟨r, hr⟩ := Option.isSome_iff_exists.mp hfound
    have hsized := (h.tidy r (Site.mem_of_field? hr).1).sized
    have hpresent := CstHead.not_missing_of_text (hsized.text hscopes)
    rw [blockSpan_eq hr, CstHead.span_eq_extent hpresent]
    rfl
  rw [methodSpan_eq]
  obtain ⟨p, hp, hrole | hrole⟩ := (h.completes hscopes).code hform
  · simp [Span.isNowhere_cover, hplaced "parameters" ⟨p, hp, hrole⟩]
  · simp [Span.isNowhere_cover, hplaced "body" ⟨p, hp, hrole⟩]

theorem laid_methodCode (h : s.Tidy g) (hform : s.form = .methodDefinition)
    (hp : ∀ r, s.field? "parameters" = some r → r.head.FitsIn region)
    (hb : ∀ r, s.field? "body" = some r → r.head.FitsIn region) :
    g.Laid region [Tree.inner .functionExpression s.methodSpan "" ((s.params "parameters").trees ++
      [Tree.inner .blockStatement (s.blockSpan "body") "" (s.blockBody "body").trees])] := by
  have hopens := methodSpan_placed h hform
  rw [methodSpan_eq] at *
  apply Laid.cover (by decide)
  · exact suits_blockSpan h.toParts hp
  · exact suits_blockSpan h.toParts hb
  · exact fun hscopes _ => hopens hscopes
  · intro around hpar hbody
    exact laid_methodBody h.toParts (fun r hr => fitsIn_of_blockSpan hr hpar)
      fun r hr => fitsIn_of_blockSpan hr hbody

theorem stands_method (h : s.Tidy g) (hform : s.form = .methodDefinition) :
    g.Stands s.head (s.method g.source).trees := by
  refine .inner (by decide) h ?_
  intro region hfits
  have hkey := holds_fieldKey h.toParts "name"
  have hcode := laid_methodCode h hform (fun r hr => hfits r (Site.mem_of_field? hr).1)
    fun r hr => hfits r (Site.mem_of_field? hr).1
  refine laid_append.mpr ⟨hkey.lays region hfits, hcode, ?_⟩
  intro m hm n hn
  cases hscopes : g.scopes with
  | false =>
    have hcounts : g.counts .functionExpression = false := by simp [counts, hscopes]
    rw [marks_inner hcounts] at hn
    have hbody := (h.params "parameters").append h.toParts (h.block "body") (by decide)
    exact hkey.apart h.toParts hbody (by decide) m hm n hn
  | true =>
    obtain ⟨c, hc, hrole, hmc⟩ := hkey.origin m hm
    have hbehind : ∀ r ∈ s.children,
        r.head.field = some "parameters" ∨ r.head.field = some "body" →
          r.head.FitsIn ⟨c.head.stop + 1, s.head.stop + 1⟩ := by
      intro r hr hfield _
      have hle := (h.completes hscopes).key hform c.head (List.mem_map_of_mem hc)
        (List.mem_singleton.mp hrole) r.head (List.mem_map_of_mem hr) hfield
      have hstop := (h.orders.inside r.head (List.mem_map_of_mem hr)).2
      exact ⟨Nat.add_le_add_right hle 1, Nat.add_le_add_right hstop 1⟩
    have hlaid := laid_methodCode h hform
      (fun r hr => hbehind r (Site.mem_of_field? hr).1 (.inl (Site.mem_of_field? hr).2))
      fun r hr => hbehind r (Site.mem_of_field? hr).1 (.inr (Site.mem_of_field? hr).2)
    exact .inl (Nat.le_trans hmc.stop_le (hlaid.mark hn).1.start_le)

end Method

theorem holds_baseClass (h : s.Tidy g) : s.Holds g [none] s.baseClass.trees := by
  rw [Site.baseClass, Ast.trees_ofOption]
  cases hpart : s.partOf? .classHeritage with
  | none => exact .blank fun _ => .nil
  | some r =>
    have hpart' := List.mem_of_find?_eq_some hpart
    have hr := List.mem_of_mem_filter hpart'
    have hform : r.form = .classHeritage := by simpa using List.find?_some hpart
    have hrole := h.orders.heritage r.head (List.mem_map_of_mem hr) hform
    refine .child hr (List.mem_singleton.mpr hrole) (.of_lays (h.tidy r hr).site ?_)
    rw [← Ast.trees_ofOption]
    exact (h.tidy r hr).site.firstExpr?

theorem stands_member? (hr : r.Tidy g) :
    g.Stands r.head ((r.member? g.source).toList.flatMap Ast.trees) := by
  have hs := hr.site.toParts
  unfold Reading.member?
  split
  · next hform => exact .option (stands_method hr.site hform)
  · cases hkey : r.site.field? "property" with
    | none => exact .nil
    | some key =>
      obtain ⟨hmem, hrole⟩ := Site.mem_of_field? hkey
      have hholds : r.site.Holds g [some "property"] (key.key g.source).trees :=
        .child hmem (List.mem_singleton.mpr hrole) (stands_key (hs.tidy key hmem))
      exact .option (hr.inner (by decide)
        (hholds.append hs (hs.fieldExpr? "value") (by decide)).lays)
  · exact .option (hr.inner (by decide) (hs.block "body").lays)
  · exact .nil

theorem holds_members (h : s.Parts g) : s.Holds g [some "body"] (s.members g.source).trees := by
  refine h.field "body"
    (fun o : Option Reading => ((o.map fun r : Reading =>
      Ast.ofList (r.site.parts.filterMap fun c : Reading => c.member? g.source)).getD
        Ast.nil).trees)
    (fun _ => .nil) ?_
  intro r hr
  refine .of_lays hr.site ?_
  rw [Option.map_some, Option.getD_some, Ast.trees_ofList]
  exact hr.site.each (List.Sublist.refl _) fun _ hc => stands_member? hc

theorem lays_class (h : s.Tidy g) :
    s.Lays g ((s.fieldIdent? g.source "name").toList.map Ident.toTree ++
      (s.baseClass.trees ++ (s.members g.source).trees)) :=
  ((h.fieldIdent? "name").append h.toParts
    ((holds_baseClass h).append h.toParts (holds_members h.toParts) (by decide)) (by decide)).lays

theorem lays_function (h : s.Parts g) :
    s.Lays g ((s.fieldIdent? g.source "name").toList.map Ident.toTree ++
      ((s.params "parameters").trees ++
        [Tree.inner .blockStatement (s.blockSpan "body") "" (s.blockBody "body").trees])) :=
  ((h.fieldIdent? "name").append h
    ((h.params "parameters").append h (h.block "body") (by decide)) (by decide)).lays

/-! ### Expressions -/

theorem stands_property? (hr : r.Tidy g) :
    g.Stands r.head ((r.property? g.source).toList.flatMap Ast.trees) := by
  have hs := hr.site.toParts
  unfold Reading.property?
  split
  · exact .option (hr.inner (by decide)
      ((holds_fieldKey hs "key").append hs (hs.fieldExpr "value") (by decide)).lays)
  · exact .option (.ident hr.sized)
  · next hform => exact .option (stands_method hr.site hform)
  · exact .option (hr.inner (by decide) hs.firstExpr)
  · exact .nil

theorem lays_templateParts (h : s.Parts g) : s.Lays g s.templateParts.trees := by
  rw [Site.templateParts, Ast.trees_ofList, List.map_filterMap]
  refine h.each List.filter_sublist fun r hr => ?_
  rw [← Ast.trees_ofOption]
  exact .of_lays hr.site hr.site.firstExpr?

theorem holds_accessOf (h : s.Parts g) :
    s.Holds g [some "property"] (s.accessOf g.source).trees := by
  refine h.field "property"
    (fun o : Option Reading =>
      ((o.map fun r : Reading => r.access g.source).getD (.named ⟨.nowhere, ""⟩)).trees) ?_ ?_
  · intro region
    exact .bare rfl placed?_leaf (fun _ => rfl) (fun _ hopen => by cases hopen) .nil
  · intro r hr
    rw [Option.map_some, Option.getD_some]
    unfold Reading.access
    split
    · exact .leaf (by decide) hr.sized
    · exact .ident hr.sized

theorem holds_arrowParams (h : s.Parts g) :
    s.Holds g [some "parameter", some "parameters"] s.arrowParams.trees := by
  unfold Site.arrowParams
  cases hr : s.field? "parameter" with
  | none =>
    have hparams := h.params "parameters"
    exact ⟨hparams.lays, fun m hm => by
      obtain ⟨c, hc, hrole, hmc⟩ := hparams.origin m hm
      exact ⟨c, hc, List.mem_cons_of_mem _ hrole, hmc⟩⟩
  | some r =>
    obtain ⟨hmem, hrole⟩ := Site.mem_of_field? hr
    refine .child hmem (hrole ▸ List.mem_cons_self) ?_
    rw [Ast.trees_ofList, List.flatMap_singleton]
    exact (h.tidy r hmem).pattern

theorem holds_arrowBody (h : s.Parts g) : s.Holds g [some "body"] s.arrowBody.trees := by
  refine h.field "body"
    (fun o : Option Reading =>
      ((o.map Reading.arrowBody).getD (.arrowBlock .nowhere .nil)).trees)
    (.missing (by decide) (by decide)) ?_
  intro r hr
  rw [Option.map_some, Option.getD_some]
  unfold Reading.arrowBody
  split
  · exact hr.inner (by decide) hr.site.statements
  · exact hr.expr

theorem holds_arguments (h : s.Parts g) : s.Holds g [some "arguments"] s.arguments.trees :=
  h.field "arguments"
    (fun o : Option Reading => ((o.map fun r : Reading => r.site.exprs).getD Ast.nil).trees)
    (fun _ => .nil) fun _ hr => .of_lays hr.site hr.site.exprs

theorem stands_call (h : s.Tidy g) : g.Stands s.head s.call.trees := by
  have hs := h.toParts
  have hcallee := hs.fieldExpr "function"
  unfold Site.call
  cases hargs : s.field? "arguments" with
  | none =>
    have hnone : s.Holds g [] (Ast.nil : Ast (.list .expr)).trees := .blank fun _ => .nil
    exact .inner (by decide) h (hcallee.append hs hnone (by decide)).lays
  | some args =>
    obtain ⟨hmem, hrole⟩ := Site.mem_of_field? hargs
    have hr := hs.tidy args hmem
    have hrole' : args.head.field ∈ [some "arguments"] := List.mem_singleton.mpr hrole
    dsimp only
    split
    · have hquasi : s.Holds g [some "arguments"]
          [Tree.inner .templateLiteral args.span "" args.site.templateParts.trees] :=
        .child hmem hrole' (hr.inner (by decide) (lays_templateParts hr.site.toParts))
      exact .inner (by decide) h (hcallee.append hs hquasi (by decide)).lays
    · have hlist : s.Holds g [some "arguments"] args.site.exprs.trees :=
        .child hmem hrole' (.of_lays hr.site hr.site.exprs)
      exact .inner (by decide) h (hcallee.append hs hlist (by decide)).lays

theorem lays_sequenceItems (h : s.Parts g) : s.Lays g (s.sequenceItems.flatMap Ast.trees) := by
  rw [Site.sequenceItems, List.flatMap_assoc]
  exact h.flatMap (List.Sublist.refl _) fun _ hr => hr.items

theorem lays_recovered (h : s.Parts g) : s.Lays g s.recovered.trees := by
  rw [Site.recovered, Ast.trees_ofList, ← List.filterMap_eq_map]
  exact h.each List.filter_sublist fun _ hr => hr.expr.option

theorem stands_expr (h : s.Tidy g) : g.Stands s.head (s.expr g.source).trees := by
  have hs := h.toParts
  have hleftRight := (hs.fieldPattern "left").append hs (hs.fieldExpr "right") (by decide)
  unfold Site.expr
  split
  case h_1 | h_2 | h_3 => exact .ident h.sized
  case h_4 => exact .literal h.sized .number
  case h_5 => exact .literal h.sized .string
  case h_6 => exact .literal h.sized .regExp
  case h_7 => exact .literal h.sized .boolean
  case h_8 => exact .literal h.sized .null
  case h_9 => exact .inner (by decide) h (lays_templateParts hs)
  case h_10 | h_11 | h_12 => exact .inner (by decide) h fun _ _ => .nil
  case h_13 => exact .inner (by decide) h hs.exprs
  case h_14 =>
    refine .inner (by decide) h ?_
    rw [Ast.trees_ofList]
    exact hs.each (List.Sublist.refl _) fun _ hr => stands_property? hr
  case h_15 => exact .inner (by decide) h (lays_function hs)
  case h_16 =>
    exact .inner (by decide) h
      ((holds_arrowParams hs).append hs (holds_arrowBody hs) (by decide)).lays
  case h_17 => exact .inner (by decide) h (lays_class h)
  case h_18 | h_19 => exact .inner (by decide) h (hs.fieldExpr? "argument").lays
  case h_20 | h_21 => exact .inner (by decide) h hs.firstExpr?
  case h_22 => exact .inner (by decide) h hs.firstExpr
  case h_23 =>
    exact .inner (by decide) h
      ((hs.fieldExpr "left").append hs (hs.fieldExpr "right") (by decide)).lays
  case h_24 | h_25 => exact .inner (by decide) h hleftRight.lays
  case h_26 =>
    have hbranches :=
      (hs.fieldExpr "consequence").append hs (hs.fieldExpr "alternative") (by decide)
    exact .inner (by decide) h ((hs.fieldExpr "condition").append hs hbranches (by decide)).lays
  case h_27 => exact stands_call h
  case h_28 =>
    exact .inner (by decide) h
      ((hs.fieldExpr "constructor").append hs (holds_arguments hs) (by decide)).lays
  case h_29 =>
    have hlays := ((hs.fieldExpr "object").append hs (holds_accessOf hs) (by decide)).lays
    exact .inner (Ast.accessKind_ne _) h hlays
  case h_30 =>
    exact .inner (Ast.accessKind_ne _) h
      ((hs.fieldExpr "object").append hs (hs.fieldExpr "index") (by decide)).lays
  case h_31 =>
    refine .inner (by decide) h ?_
    rw [Ast.trees_ofList]
    exact lays_sequenceItems hs
  case h_32 => exact .inner (by decide) h hs.firstExpr
  case h_33 => exact .inner (by decide) h (lays_recovered hs)

theorem stands_items (h : s.Tidy g) :
    g.Stands s.head ((s.items (s.expr g.source)).flatMap Ast.trees) := by
  unfold Site.items
  split
  · exact .of_lays h (lays_sequenceItems h.toParts)
  · rw [List.flatMap_singleton]
    exact stands_expr h

/-! ### Statements -/

theorem stands_declarator? (hr : r.Tidy g) :
    g.Stands r.head (r.declarator?.toList.flatMap Ast.trees) := by
  have hs := hr.site.toParts
  unfold Reading.declarator?
  split
  · exact .option (hr.inner (by decide)
      ((hs.fieldPattern "name").append hs (hs.fieldExpr? "value") (by decide)).lays)
  · exact .nil

theorem stands_declaration (h : s.Tidy g) :
    g.Stands s.head (s.declaration g.source).trees := by
  refine .inner (by decide) h ?_
  rw [Ast.trees_ofList]
  exact h.each (List.Sublist.refl _) fun _ hr => stands_declarator? hr

theorem stands_clause? (hr : r.Tidy g) :
    g.Stands r.head (r.clause?.toList.flatMap Ast.trees) := by
  unfold Reading.clause?
  split
  · rw [← Ast.trees_ofOption]
    exact .of_lays hr.site hr.site.firstExpr?
  · exact .nil
  · exact .nil
  · split
    · exact .option hr.expr
    · exact .nil

theorem stands_forInit? (hr : r.Tidy g) :
    g.Stands r.head ((r.forInit? g.source).toList.flatMap Ast.trees) := by
  unfold Reading.forInit?
  split
  · exact .option (stands_declaration hr.site)
  · exact .option (stands_declaration hr.site)
  · have hclause := stands_clause? hr
    cases hc : r.clause? with
    | none => exact .nil
    | some e =>
      rw [hc] at hclause
      exact hclause

theorem holds_last {c : Category} (h : s.Parts g) (role : String)
    {view : Reading → Option (Ast c)}
    (hview : ∀ r, r.Tidy g → g.Stands r.head ((view r).toList.flatMap Ast.trees)) :
    s.Holds g [some role]
      (Ast.ofOption ((s.fields role).filterMap view).getLast?).trees := by
  rw [Ast.trees_ofOption]
  refine (h.fields role hview).sublist (List.Sublist.flatMap ?_ _)
  cases hlast : ((s.fields role).filterMap view).getLast? with
  | none => exact List.nil_sublist _
  | some a => exact List.singleton_sublist.mpr (List.mem_of_getLast? hlast)

theorem stands_case? (hr : r.Tidy g) : g.Stands r.head (r.case?.toList.flatMap Ast.trees) := by
  have hs := hr.site.toParts
  unfold Reading.case?
  split
  · have htest : r.site.Holds g [some "value"]
        (Ast.ofOption ((r.site.fields "value").filterMap (some ∘ Reading.expr)).getLast?).trees :=
      holds_last hs "value" fun _ hr => hr.expr.option
    have hbody := hs.fields "body" fun _ hr => hr.stmt
    rw [List.filterMap_eq_map, List.getLast?_map] at htest
    rw [← Ast.trees_ofList] at hbody
    exact .option (hr.inner (by decide) (htest.append hs hbody (by decide)).lays)
  · exact .nil

theorem stands_ident? {c : Reading} (hc : c.Tidy g) :
    g.Stands c.head (((if c.form = .identifier then some (c.head.ident g.source) else none :
      Option Ident)).toList.map Ident.toTree) := by
  split
  · exact .ident hc.sized
  · exact .nil

theorem stands_importedNames (hr : r.Tidy g) :
    g.Stands r.head ((r.importedNames g.source).map Ident.toTree) := by
  unfold Reading.importedNames
  split
  · exact .ident hr.sized
  · exact .of_lays hr.site (hr.site.first
      (fun o : Option Reading => (o.map fun c : Reading => c.head.ident g.source).toList.map
        Ident.toTree) (fun _ => .nil) fun _ hc => .ident hc.sized)
  · refine .of_lays hr.site ?_
    rw [List.filterMap_eq_flatMap_toList, List.map_flatMap]
    refine hr.site.flatMap (List.Sublist.refl _) ?_
    intro spec hspec
    cases hname : (spec.site.field? "alias").or (spec.site.field? "name") with
    | none => exact .nil
    | some name =>
      have hmem : name ∈ spec.site.children := by
        rcases Option.or_eq_some_iff.mp hname with h | ⟨_, h⟩
        · exact (Site.mem_of_field? h).1
        · exact (Site.mem_of_field? h).1
      refine .of_lays hspec.site ?_
      intro region hfits
      exact stands_ident? (hspec.site.tidy name hmem) region (hfits name hmem)
  · exact .nil

theorem stands_exportedName? (hr : r.Tidy g) :
    g.Stands r.head ((r.exportedName? g.source).toList.map Ident.toTree) := by
  refine .of_lays hr.site ?_
  have hholds := hr.site.field "name"
    (fun o : Option Reading => (o.bind fun name : Reading =>
      if name.form = .identifier then some (name.head.ident g.source) else none).toList.map
        Ident.toTree) (fun _ => .nil) fun _ hc => stands_ident? hc
  exact hholds.lays

theorem stands_recoveredStmt? (hr : r.Tidy g) :
    g.Stands r.head (r.recoveredStmt?.toList.flatMap Ast.trees) := by
  unfold Reading.recoveredStmt?
  split
  · exact hr.stmt
  · exact .option (.wrap (by decide) hr.sized hr.expr)

theorem stands_branch? (hr : r.Tidy g) :
    g.Stands r.head (r.branch?.toList.flatMap Ast.trees) := by
  unfold Reading.branch?
  split
  · exact .of_lays hr.site (hr.site.first
      (fun o : Option Reading => (o.bind Reading.stmt).toList.flatMap Ast.trees) (fun _ => .nil)
      fun _ hc => hc.stmt)
  · exact hr.stmt

theorem stands_handler (hr : r.Tidy g) : g.Stands r.head r.handler.trees := by
  have hs := hr.site.toParts
  have hparam : r.site.Holds g [some "parameter"]
      (Ast.ofOption ((r.site.field? "parameter").map Reading.pattern)).trees :=
    hs.field "parameter" (fun o : Option Reading => (Ast.ofOption (o.map Reading.pattern)).trees)
      (fun _ => .nil) fun _ hc => hc.pattern
  exact hr.inner (by decide) (hparam.append hs (hs.block "body") (by decide)).lays

theorem holds_lastStmt (h : s.Parts g) (role : String) :
    s.Holds g [some role]
      (((s.fields role).getLast?.bind Reading.stmt).getD .missingStmt).trees := by
  cases hlast : (s.fields role).getLast? with
  | none => exact .blank laid_missingStmt
  | some r =>
    obtain ⟨hr, hrole⟩ := List.mem_filter.mp (List.mem_of_getLast? hlast)
    have hrole' : r.head.field ∈ [some role] := by simpa using hrole
    exact .child hr hrole' ((h.tidy r hr).stmt.getD fun region _ => laid_missingStmt region)

theorem stands_forStmt (h : s.Tidy g) : g.Stands s.head (s.forStmt g.source).trees := by
  have hs := h.toParts
  have hinit := holds_last hs "initializer" fun _ hr => stands_forInit? hr
  have htest := holds_last hs "condition" fun _ hr => stands_clause? hr
  have hupdate := holds_last hs "increment" fun _ hr => stands_clause? hr
  have hrest := htest.append hs
    (hupdate.append hs (holds_lastStmt hs "body") (by decide)) (by decide)
  exact .inner (by decide) h (hinit.append hs hrest (by decide)).lays

/-- A declaration in the head of a loop covers the word and the target, and its marks are
those of the target. -/
theorem holds_forHead (h : s.Parts g) : s.Holds g [some "left"] (s.forHead g.source).trees := by
  unfold Site.forHead
  cases hleft : s.field? "left" with
  | none =>
    cases (s.field? "kind").or (s.token? ["var", "let", "const"])
    · exact .blank laid_missingExpr
    · exact .blank laid_missingExpr
  | some left =>
    obtain ⟨hl, hrole⟩ := Site.mem_of_field? hleft
    have hrole' : left.head.field ∈ [some "left"] := List.mem_singleton.mpr hrole
    have htidy := h.tidy left hl
    cases hword : (s.field? "kind").or (s.token? ["var", "let", "const"]) with
    | none => exact .child hl hrole' htidy.pattern
    | some word =>
      have hw : word ∈ s.children := by
        rcases Option.or_eq_some_iff.mp hword with hw | ⟨_, hw⟩
        · exact (Site.mem_of_field? hw).1
        · exact List.mem_of_find?_eq_some hw
      have hdeclarator : g.Stands left.head
          [Tree.inner .variableDeclarator left.span "" (left.pattern.trees ++ [])] := by
        rw [List.append_nil]
        exact .wrap (by decide) htidy.sized htidy.pattern
      constructor
      · intro region hfits
        refine .cover (by decide) ((h.tidy word hw).sized.suits (hfits word hw))
          (htidy.sized.suits (hfits left hl)) (fun _ hopen => by cases hopen) ?_
        intro around _ haround
        exact hdeclarator around (CstHead.fitsIn_of_span haround)
      · intro m hm
        have hcounts : g.counts .variableDeclaration = false := by
          simp [counts, NodeKind.opensScope]
        have hm' : m ∈ g.marks [Tree.inner .variableDeclaration (word.span.cover left.span)
            (DeclKind.ofWord (word.head.text g.source)).word
            [Tree.inner .variableDeclarator left.span "" (left.pattern.trees ++ [])]] := hm
        rw [marks_inner hcounts] at hm'
        exact ⟨left, hl, hrole', hdeclarator.mark hm'⟩

theorem stands_tryStmt (h : s.Tidy g) : g.Stands s.head s.tryStmt.trees := by
  have hs := h.toParts
  have hhandler : s.Holds g [some "handler"]
      (Ast.ofOption ((s.field? "handler").map Reading.handler)).trees :=
    hs.field "handler" (fun o : Option Reading => (Ast.ofOption (o.map Reading.handler)).trees)
      (fun _ => .nil) fun _ hr => stands_handler hr
  have hfinalizer : s.Holds g [some "finalizer"]
      (Ast.ofOption ((s.field? "finalizer").map fun r => r.site.block "body")).trees :=
    hs.field "finalizer"
      (fun o : Option Reading =>
        (Ast.ofOption (o.map fun r : Reading => r.site.block "body")).trees)
      (fun _ => .nil) fun _ hr => .of_lays hr.site (hr.site.block "body").lays
  exact .inner (by decide) h ((hs.block "body").append hs
    (hhandler.append hs hfinalizer (by decide)) (by decide)).lays

theorem stands_switchStmt (h : s.Tidy g) : g.Stands s.head s.switchStmt.trees := by
  have hs := h.toParts
  have hcases : s.Holds g [some "body"] ((((s.field? "body").map fun r =>
      Ast.ofList (r.site.parts.filterMap Reading.case?)).getD .nil)).trees := by
    refine hs.field "body"
      (fun o : Option Reading => ((o.map fun r : Reading =>
        Ast.ofList (r.site.parts.filterMap Reading.case?)).getD Ast.nil).trees) (fun _ => .nil) ?_
    intro r hr
    refine .of_lays hr.site ?_
    rw [Option.map_some, Option.getD_some, Ast.trees_ofList]
    exact hr.site.each (List.Sublist.refl _) fun _ hc => stands_case? hc
  exact .inner (by decide) h ((hs.condition "value").append hs hcases (by decide)).lays

/-- The literal that names a module is no mark. -/
theorem lays_moduleSource (h : s.Parts g) :
    s.Lays g ((s.moduleSource g.source).toList.map Literal.toTree) := by
  have hholds := h.field "source"
    (fun o : Option Reading => (o.map fun r : Reading => r.head.literal g.source .string).toList.map
      Literal.toTree) (fun _ => .nil) fun _ hr => .literal hr.sized .string
  exact hholds.lays

theorem marks_moduleSource (s : Site) :
    g.marks ((s.moduleSource g.source).toList.map Literal.toTree) = [] := by
  unfold Site.moduleSource
  cases s.field? "source" with
  | none => rfl
  | some r =>
    have hcounts : g.counts .stringLiteral = false := by simp [counts, NodeKind.opensScope]
    exact marks_leaf hcounts

/-- Names from a clause beside the module that they come from or go to. -/
theorem lays_names {names : List Ident} (h : s.Parts g) (form : Cst.Form)
    {view : Reading → List Ident}
    (hview : ∀ r, r.Tidy g → g.Stands r.head ((view r).map Ident.toTree))
    (hnames : names = ((s.partOf? form).map fun r => r.site.parts.flatMap view).getD []) :
    s.Lays g (names.map Ident.toTree ++ (s.moduleSource g.source).toList.map Literal.toTree) := by
  intro region hfits
  refine laid_append.mpr ⟨?_, lays_moduleSource h region hfits, ?_⟩
  · rw [hnames]
    cases hpart : s.partOf? form with
    | none => exact .nil
    | some r =>
      have hr := List.mem_of_mem_filter (List.mem_of_find?_eq_some hpart)
      have hlays : r.site.Lays g ((r.site.parts.flatMap view).map Ident.toTree) := by
        rw [List.map_flatMap]
        exact (h.tidy r hr).site.flatMap (List.Sublist.refl _) hview
      exact Stands.of_lays (h.tidy r hr).site hlays region (hfits r hr)
  · rw [marks_moduleSource]
    intro _ _ n hn
    cases hn

theorem stands_exportStmt (h : s.Tidy g) : g.Stands s.head (s.exportStmt g.source).trees := by
  unfold Site.exportStmt
  cases hdecl : s.field? "declaration" with
  | some r =>
    have hr := (Site.mem_of_field? hdecl).1
    have hexpr : g.Stands r.head (Ast.exprStmt r.span r.expr).trees :=
      .wrap (by decide) (h.tidy r hr).sized (h.tidy r hr).expr
    refine .of_lays h ?_
    intro region hfits
    exact (h.tidy r hr).stmt.getD hexpr region (hfits r hr)
  | none =>
    cases hvalue : s.field? "value" with
    | some r =>
      have hr := (Site.mem_of_field? hvalue).1
      refine .inner (by decide) h ?_
      intro region hfits
      exact (h.tidy r hr).expr region (hfits r hr)
    | none =>
      refine .inner (by decide) h ?_
      unfold Site.exportedNames
      cases hsource : s.moduleSource g.source with
      | some lit =>
        have hlays := lays_moduleSource h.toParts
        rw [hsource] at hlays
        exact hlays
      | none =>
        rw [← hsource]
        refine lays_names h.toParts .exportClause (fun _ hr => stands_exportedName? hr) ?_
        simp only [hsource, List.filterMap_eq_flatMap_toList]

theorem stands_stmt (h : s.Tidy g) {expr : Expr} (hexpr : g.Stands s.head expr.trees) :
    g.Stands s.head ((s.stmt g.source expr).toList.flatMap Ast.trees) := by
  have hs := h.toParts
  have hlabel : s.Holds g [some "label"]
      (((s.field? "label").map (·.head.label g.source)).toList.map Label.toTree) :=
    hs.field "label"
      (fun o : Option Reading => (o.map fun r : Reading => r.head.label g.source).toList.map
        Label.toTree) (fun _ => .nil) fun _ hr => .leaf (by decide) hr.sized
  unfold Site.stmt
  split
  case h_1 => exact .option (.inner (by decide) h hs.firstExpr)
  case h_2 | h_3 => exact .option (stands_declaration h)
  case h_4 => exact .option (.inner (by decide) h (lays_function hs))
  case h_5 => exact .option (.inner (by decide) h (lays_class h))
  case h_6 => exact .option (.inner (by decide) h hs.statements)
  case h_7 =>
    have halternate : s.Holds g [some "alternative"]
        (Ast.ofOption ((s.field? "alternative").bind Reading.branch?)).trees := by
      refine hs.field "alternative"
        (fun o : Option Reading => (Ast.ofOption (o.bind Reading.branch?)).trees) (fun _ => .nil) ?_
      intro r hr
      rw [Ast.trees_ofOption]
      exact stands_branch? hr
    have hbranches := (hs.fieldStmt "consequence").append hs halternate (by decide)
    exact .option (.inner (by decide) h
      ((hs.condition "condition").append hs hbranches (by decide)).lays)
  case h_8 => exact .option (stands_forStmt h)
  case h_9 =>
    have hrest := (hs.fieldExpr "right").append hs (hs.fieldStmt "body") (by decide)
    have hkind : (if s.hasToken "of" then NodeKind.forOfStatement else .forInStatement) ≠
        .identifier := by
      split <;> decide
    exact .option (.inner hkind h ((holds_forHead hs).append hs hrest (by decide)).lays)
  case h_10 =>
    exact .option (.inner (by decide) h
      ((hs.condition "condition").append hs (hs.fieldStmt "body") (by decide)).lays)
  case h_11 =>
    exact .option (.inner (by decide) h
      ((hs.fieldStmt "body").append hs (hs.condition "condition") (by decide)).lays)
  case h_12 => exact .option (stands_tryStmt h)
  case h_13 | h_14 => exact .option (.inner (by decide) h hs.firstExpr?)
  case h_15 | h_16 => exact .option (.inner (by decide) h hlabel.lays)
  case h_17 =>
    have hname : s.Holds g [some "label"]
        [(((s.field? "label").map fun r : Reading => r.head.label g.source).getD
          (Label.mk .nowhere "")).toTree] := by
      refine hs.field "label" (fun o : Option Reading =>
        [((o.map fun r : Reading => r.head.label g.source).getD
          (Label.mk .nowhere "")).toTree]) ?_ ?_
      · intro region
        exact .bare rfl placed?_leaf (fun _ => rfl) (fun _ hopen => by cases hopen) .nil
      · intro r hr
        exact .leaf (by decide) hr.sized
    exact .option (.inner (by decide) h (hname.append hs (hs.fieldStmt "body") (by decide)).lays)
  case h_18 => exact .option (stands_switchStmt h)
  case h_19 =>
    exact .option (.inner (by decide) h
      ((hs.condition "object").append hs (hs.fieldStmt "body") (by decide)).lays)
  case h_20 | h_21 => exact .option (.inner (by decide) h fun _ _ => .nil)
  case h_22 =>
    exact .option (.inner (by decide) h
      (lays_names hs .importClause (fun _ hr => stands_importedNames hr) rfl))
  case h_23 => exact .option (stands_exportStmt h)
  case h_24 =>
    refine .option (.inner (by decide) h ?_)
    rw [Ast.trees_ofList]
    exact hs.each (List.Sublist.refl _) fun _ hr => stands_recoveredStmt? hr
  case h_25 | h_26 | h_27 => exact .nil
  case h_28 => exact .option (.wrap (by decide) h.sized hexpr)

theorem tidy_reading (h : s.Tidy g) : (s.reading g.source).Tidy g :=
  .intro h.sized h.orders h.completes (stands_expr h) (stands_items h)
    (stands_stmt h (stands_expr h)) (stands_pattern h (stands_expr h)) h.tidy

end Grid

/-- What is asked of the nodes of a concrete tree. -/
structure Grid.Covers (g : Grid) (t : Cst) : Prop where
  orders : ∀ n ∈ t.nodes, n.head.Orders (n.children.map Rose.head)
  completes : g.scopes = true → ∀ n ∈ t.nodes, n.head.Completes g.source (n.children.map Rose.head)

namespace Grid.Covers

variable {g : Grid} {t : Cst}

theorem child (h : g.Covers t) {c : Cst} (hc : c ∈ t.children) : g.Covers c :=
  ⟨fun n hn => h.orders n (Rose.mem_nodes_of_child hc hn),
    fun hscopes n hn => h.completes hscopes n (Rose.mem_nodes_of_child hc hn)⟩

theorem sizes_child (h : g.Covers t) {c : Cst} (hc : c ∈ t.children) : g.Sizes c.head :=
  ⟨(h.orders c (Rose.mem_nodes_of_child hc c.mem_nodes_self)).start_le, fun hscopes =>
    (h.completes hscopes t t.mem_nodes_self).text c.head (List.mem_map_of_mem hc)⟩

theorem tidy_ofCst (h : g.Covers t) (hsized : g.Sizes t.head) :
    (Reading.ofCst g.source t).Tidy g := by
  induction t using Rose.children_induction with
  | step t ih =>
    have hheads : (t.children.map (Reading.ofCst g.source)).map Reading.head =
        t.children.map Rose.head := by
      rw [List.map_map]
      apply List.map_congr_left
      intro c _
      exact Reading.head_ofCst c
    have horders := h.orders t t.mem_nodes_self
    rw [← hheads] at horders
    rw [Reading.ofCst_eq]
    apply Grid.tidy_reading
    refine ⟨⟨List.pairwise_map.mp horders.ordered, ?_⟩, hsized, horders, ?_⟩
    · intro r hr
      obtain ⟨c, hc, rfl⟩ := List.mem_map.mp hr
      exact ih c hc (h.child hc) (h.sizes_child hc)
    · intro hscopes
      have hcompletes := h.completes hscopes t t.mem_nodes_self
      rw [← hheads] at hcompletes
      exact hcompletes

/-- The statements of a program are laid out in its span. -/
theorem laid_program (h : g.Covers t) (hstop : t.head.stop ≤ g.source.size) :
    let p := Program.ofCst g.source t
    g.Laid p.span p.body.trees := by
  have horders := h.orders t t.mem_nodes_self
  have hparts : (Reading.ofCst g.source t).site.Parts g := by
    constructor
    · rw [Reading.site, Reading.children_ofCst, List.pairwise_map]
      refine (List.pairwise_map.mp horders.ordered).imp fun hle => ?_
      simpa using hle
    · rw [Reading.site, Reading.children_ofCst]
      intro r hr
      obtain ⟨c, hc, rfl⟩ := List.mem_map.mp hr
      exact (h.child hc).tidy_ofCst (h.sizes_child hc)
  apply hparts.statements
  rw [Reading.site, Reading.children_ofCst]
  intro r hr
  obtain ⟨c, hc, rfl⟩ := List.mem_map.mp hr
  intro _
  have hinside := (horders.inside c.head (List.mem_map_of_mem hc)).2
  rw [Reading.head_ofCst]
  exact ⟨Nat.le_add_left 1 _, Nat.add_le_add_right (Nat.le_trans hinside hstop) 1⟩

end Grid.Covers

end ScriptLens
