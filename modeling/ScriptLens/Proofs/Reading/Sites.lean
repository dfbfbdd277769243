import ScriptLens.Proofs.Reading.Layout
import ScriptLens.Proofs.Reading.Nodes

/-! # Layouts of sites

The children of a concrete node lie in it one after the other. What is made of one child is
laid out wherever the child fits, so what is made of different children does not overlap. To
see that the parts of a construct come from different children it is enough to look at the
roles that they are found by.
-/
namespace ScriptLens

namespace CstHead

/-- The place of a node in the text, also of a missing one. -/
def extent (h : CstHead) : Span := ⟨h.start + 1, h.stop + 1⟩

/-- A missing node fits everywhere. -/
def FitsIn (h : CstHead) (region : Span) : Prop := h.isMissing = false → h.extent.Within region

theorem fitsIn_extent (h : CstHead) : h.FitsIn h.extent := fun _ => .refl _

theorem span_eq_nowhere {h : CstHead} (hm : h.isMissing = true) : h.span = .nowhere := by
  simp [span, hm]

theorem span_eq_extent {h : CstHead} (hm : h.isMissing = false) : h.span = h.extent := by
  simp [span, extent, hm]

theorem fitsIn_of_span {h : CstHead} {region : Span}
    (hs : h.span.isNowhere = false → h.span.Within region) : h.FitsIn region := by
  intro hm
  rw [span_eq_extent hm] at hs
  exact hs rfl

/-- The children of a node lie in it, one after the other. A missing node has none, and what
a class extends plays no role. -/
structure Orders (h : CstHead) (parts : List CstHead) : Prop where
  start_le : h.start ≤ h.stop
  inside : ∀ p ∈ parts, h.start ≤ p.start ∧ p.stop ≤ h.stop
  ordered : parts.Pairwise fun a b => a.stop ≤ b.start
  missing : h.isMissing = true → parts = []
  heritage : ∀ p ∈ parts, p.form = .classHeritage → p.field = none

instance (h : CstHead) (parts : List CstHead) : Decidable (h.Orders parts) :=
  decidable_of_iff (h.start ≤ h.stop ∧ (∀ p ∈ parts, h.start ≤ p.start ∧ p.stop ≤ h.stop) ∧
      parts.Pairwise (fun a b => a.stop ≤ b.start) ∧ (h.isMissing = true → parts = []) ∧
      ∀ p ∈ parts, p.form = .classHeritage → p.field = none)
    ⟨fun ⟨h₁, h₂, h₃, h₄, h₅⟩ => ⟨h₁, h₂, h₃, h₄, h₅⟩,
      fun ⟨h₁, h₂, h₃, h₄, h₅⟩ => ⟨h₁, h₂, h₃, h₄, h₅⟩⟩

/-- Every child has a text, and a method has parameters or a body, its key before them. -/
structure Completes (h : CstHead) (source : ByteArray) (parts : List CstHead) : Prop where
  text : ∀ p ∈ parts, p.text source ≠ ""
  code : h.form = .methodDefinition →
    ∃ p ∈ parts, p.field = some "parameters" ∨ p.field = some "body"
  key : h.form = .methodDefinition → ∀ p ∈ parts, p.field = some "name" → ∀ q ∈ parts,
    q.field = some "parameters" ∨ q.field = some "body" → p.stop ≤ q.start

instance (h : CstHead) (source : ByteArray) (parts : List CstHead) :
    Decidable (h.Completes source parts) :=
  decidable_of_iff ((∀ p ∈ parts, p.text source ≠ "") ∧
      (h.form = .methodDefinition →
        ∃ p ∈ parts, p.field = some "parameters" ∨ p.field = some "body") ∧
      (h.form = .methodDefinition → ∀ p ∈ parts, p.field = some "name" → ∀ q ∈ parts,
        q.field = some "parameters" ∨ q.field = some "body" → p.stop ≤ q.start))
    ⟨fun ⟨h₁, h₂, h₃⟩ => ⟨h₁, h₂, h₃⟩, fun ⟨h₁, h₂, h₃⟩ => ⟨h₁, h₂, h₃⟩⟩

theorem not_missing_of_text {h : CstHead} {source : ByteArray} (ht : h.text source ≠ "") :
    h.isMissing = false := by
  cases hm : h.isMissing with
  | false => rfl
  | true => exact absurd (by simp [text, hm]) ht

theorem start_ne_stop_of_text {h : CstHead} {source : ByteArray} (ht : h.text source ≠ "") :
    h.start ≠ h.stop := by
  intro heq
  have hnone : Text.bytesBetween source h.stop h.stop = [] := by
    simp [Text.bytesBetween]
  apply ht
  simp only [text, Text.slice?, Text.lossySlice, heq, hnone]
  split
  · rfl
  · split <;> rfl

end CstHead

namespace Grid

structure Sizes (g : Grid) (h : CstHead) : Prop where
  start_le : h.start ≤ h.stop
  text : g.scopes = true → h.text g.source ≠ ""

theorem Sizes.suits {g : Grid} {h : CstHead} (hs : g.Sizes h) {region : Span}
    (hfits : h.FitsIn region) (hplaced : h.span.isNowhere = false) : g.Suits region h.span := by
  cases hm : h.isMissing with
  | true =>
    rw [CstHead.span_eq_nowhere hm] at hplaced
    cases hplaced
  | false =>
    rw [CstHead.span_eq_extent hm]
    refine ⟨hfits hm, ⟨Nat.le_add_left 1 _, Nat.add_le_add_right hs.start_le 1⟩, ?_⟩
    intro hscopes
    have hne := CstHead.start_ne_stop_of_text (hs.text hscopes)
    exact Nat.add_lt_add_right (Nat.lt_of_le_of_ne hs.start_le hne) 1

/-- Trees that are laid out wherever a node fits. -/
def Stands (g : Grid) (h : CstHead) (ts : List Tree) : Prop :=
  ∀ region, h.FitsIn region → g.Laid region ts

theorem Stands.mark {g : Grid} {h : CstHead} {ts : List Tree} (hs : g.Stands h ts) {m : Span}
    (hm : m ∈ g.marks ts) : m.Within h.extent :=
  ((hs h.extent h.fitsIn_extent).mark hm).1

end Grid

/-- A reading all of whose answers stand where its node stands, as do those below it. -/
inductive Reading.Tidy (g : Grid) : Reading → Prop where
  | intro {r : Reading} (sized : g.Sizes r.head)
      (orders : r.head.Orders (r.children.map Reading.head))
      (completes : g.scopes = true → r.head.Completes g.source (r.children.map Reading.head))
      (expr : g.Stands r.head r.expr.trees)
      (items : g.Stands r.head (r.items.flatMap Ast.trees))
      (stmt : g.Stands r.head (r.stmt.toList.flatMap Ast.trees))
      (pattern : g.Stands r.head r.pattern.trees)
      (children : ∀ c ∈ r.children, Reading.Tidy g c) : Reading.Tidy g r

namespace Site

structure Parts (g : Grid) (s : Site) : Prop where
  ordered : s.children.Pairwise fun a b => a.head.stop ≤ b.head.start
  tidy : ∀ c ∈ s.children, c.Tidy g

structure Tidy (g : Grid) (s : Site) : Prop extends s.Parts g where
  sized : g.Sizes s.head
  orders : s.head.Orders (s.children.map Reading.head)
  completes : g.scopes = true → s.head.Completes g.source (s.children.map Reading.head)

/-- Trees that are laid out wherever all children of a site fit. -/
def Lays (g : Grid) (s : Site) (ts : List Tree) : Prop :=
  ∀ region, (∀ c ∈ s.children, c.head.FitsIn region) → g.Laid region ts

/-- Trees whose marks come from children in the given roles. -/
structure Holds (g : Grid) (s : Site) (roles : List (Option String)) (ts : List Tree) : Prop where
  lays : s.Lays g ts
  origin : ∀ m ∈ g.marks ts, ∃ c ∈ s.children, c.head.field ∈ roles ∧ m.Within c.head.extent

end Site

namespace Reading.Tidy

variable {g : Grid} {r : Reading}

theorem sized (h : r.Tidy g) : g.Sizes r.head := by
  cases h
  assumption

theorem expr (h : r.Tidy g) : g.Stands r.head r.expr.trees := by
  cases h
  assumption

theorem items (h : r.Tidy g) : g.Stands r.head (r.items.flatMap Ast.trees) := by
  cases h
  assumption

theorem stmt (h : r.Tidy g) : g.Stands r.head (r.stmt.toList.flatMap Ast.trees) := by
  cases h
  assumption

theorem pattern (h : r.Tidy g) : g.Stands r.head r.pattern.trees := by
  cases h
  assumption

theorem site (h : r.Tidy g) : r.site.Tidy g := by
  cases h with
  | intro sized orders completes _ _ _ _ children =>
    exact ⟨⟨List.pairwise_map.mp orders.ordered, children⟩, sized, orders, completes⟩

end Reading.Tidy

namespace Grid

variable {g : Grid} {s : Site} {ts : List Tree}

theorem Stands.of_lays (h : s.Tidy g) (hl : s.Lays g ts) : g.Stands s.head ts := by
  intro region hfits
  apply hl
  intro c hc
  have hmem : c.head ∈ s.children.map Reading.head := List.mem_map_of_mem hc
  cases hm : s.head.isMissing with
  | true =>
    rw [h.orders.missing hm] at hmem
    cases hmem
  | false =>
    intro _
    obtain ⟨hstart, hstop⟩ := h.orders.inside c.head hmem
    have haround := hfits hm
    have hchild : c.head.extent.Within s.head.extent :=
      ⟨Nat.add_le_add_right hstart 1, Nat.add_le_add_right hstop 1⟩
    exact hchild.trans haround

theorem Stands.node {h : CstHead} {t : Tree} (hopen : t.isSealed = false) (hsized : g.Sizes h)
    (hspan : t.placed? = if h.span.isNowhere then none else some h.span)
    (hname : t.head.kind = .identifier → t.children = [] ∧ (h.isMissing = false →
      g.Spells h.extent t.head.name))
    (hstands : g.Stands h t.children) : g.Stands h [t] := by
  intro region hfits
  cases hm : h.isMissing with
  | true =>
    rw [CstHead.span_eq_nowhere hm] at hspan
    apply Laid.bare hopen hspan
    · intro hident
      exact (hname hident).1
    · intro hscopes
      rw [CstHead.not_missing_of_text (hsized.text hscopes)] at hm
      cases hm
    · exact hstands region hfits
  | false =>
    have hsuits := hsized.suits hfits (by rw [CstHead.span_eq_extent hm]; rfl)
    rw [CstHead.span_eq_extent hm] at hspan hsuits
    apply Laid.placed hopen hspan hsuits
    · intro hident
      exact ⟨(hname hident).1, (hname hident).2 hm⟩
    · exact hstands h.extent h.fitsIn_extent

theorem Stands.wrap {kind : NodeKind} {label : String} {h : CstHead} (hkind : kind ≠ .identifier)
    (hsized : g.Sizes h) (hts : g.Stands h ts) : g.Stands h [Tree.inner kind h.span label ts] :=
  .node rfl hsized placed?_inner (fun hident => absurd hident hkind) hts

theorem Stands.inner {kind : NodeKind} {label : String} (hkind : kind ≠ .identifier)
    (h : s.Tidy g) (hl : s.Lays g ts) :
    g.Stands s.head [Tree.inner kind s.span label ts] :=
  .wrap hkind h.sized (.of_lays h hl)

theorem Stands.leaf {kind : NodeKind} {label : String} {name : Option String} {h : CstHead}
    (hkind : kind ≠ .identifier) (hsized : g.Sizes h) :
    g.Stands h [Tree.leaf kind h.span label name] :=
  .node rfl hsized placed?_leaf (fun hident => absurd hident hkind) fun _ _ => .nil

theorem Stands.ident {h : CstHead} (hsized : g.Sizes h) :
    g.Stands h [(h.ident g.source).toTree] := by
  apply Stands.node rfl hsized placed?_leaf
  · intro _
    refine ⟨rfl, fun hm => ⟨?_, fun hscopes hempty => ?_⟩⟩
    · simp [Tree.head, Tree.leaf, CstHead.ident, CstHead.text, CstHead.extent, hm]
    · exact hsized.text hscopes (Option.some.inj hempty)
  · intro _ _
    exact .nil

end Grid

theorem Grid.mem_marks_flatMap {g : Grid} {α : Type} {rs : List α} {view : α → List Tree}
    {m : Span} : m ∈ g.marks (rs.flatMap view) ↔ ∃ r ∈ rs, m ∈ g.marks (view r) := by
  induction rs with
  | nil => simp [marks]
  | cons r rest ih => simp [ih]

theorem Grid.Laid.flatMap {g : Grid} {region : Span} {rs : List Reading}
    {view : Reading → List Tree} (hordered : rs.Pairwise fun a b => a.head.stop ≤ b.head.start)
    (hstands : ∀ r ∈ rs, g.Stands r.head (view r)) (hfits : ∀ r ∈ rs, r.head.FitsIn region) :
    g.Laid region (rs.flatMap view) := by
  induction rs with
  | nil => exact .nil
  | cons r rest ih =>
    obtain ⟨hfirst, hrest⟩ := List.pairwise_cons.mp hordered
    have hr := hstands r List.mem_cons_self
    have hothers : ∀ c ∈ rest, g.Stands c.head (view c) :=
      fun c hc => hstands c (List.mem_cons_of_mem _ hc)
    refine laid_append.mpr ⟨hr region (hfits r List.mem_cons_self), ?_, ?_⟩
    · exact ih hrest hothers fun c hc => hfits c (List.mem_cons_of_mem _ hc)
    · intro m hm n hn
      obtain ⟨c, hc, hn⟩ := mem_marks_flatMap.mp hn
      have hapart : r.head.extent.Apart c.head.extent :=
        .inl (Nat.add_le_add_right (hfirst c hc) 1)
      exact hapart.mono (hr.mark hm) ((hothers c hc).mark hn)

theorem Ast.trees_ofList {c : Category} (parts : List (Ast c)) :
    (Ast.ofList parts).trees = parts.flatMap Ast.trees :=
  Ast.flatMap_ofList rfl (fun _ _ => rfl) parts

theorem Ast.trees_ofOption {c : Category} (part : Option (Ast c)) :
    (Ast.ofOption part).trees = part.toList.flatMap Ast.trees :=
  Ast.flatMap_ofOption rfl (fun _ => rfl) part

namespace Site

variable {g : Grid} {s : Site} {p q : List (Option String)} {ts us : List Tree}

theorem Parts.apart (h : s.Parts g) {c d : Reading} (hc : c ∈ s.children) (hd : d ∈ s.children)
    (hne : c ≠ d) : c.head.extent.Apart d.head.extent := by
  have hapart : s.children.Pairwise fun a b => a.head.extent.Apart b.head.extent :=
    h.ordered.imp fun hle => .inl (Nat.add_le_add_right hle 1)
  have : Std.Symm fun a b : Reading => a.head.extent.Apart b.head.extent :=
    ⟨fun _ _ => Span.Apart.symm⟩
  exact hapart.forall hc hd hne

/-- What comes from different roles comes from different children. -/
theorem Holds.apart (ht : s.Holds g p ts) (h : s.Parts g) (hu : s.Holds g q us)
    (hpq : ∀ role ∈ p, role ∉ q) : ∀ m ∈ g.marks ts, ∀ n ∈ g.marks us, m.Apart n := by
  intro m hm n hn
  obtain ⟨c, hc, hcp, hmc⟩ := ht.origin m hm
  obtain ⟨d, hd, hdq, hnd⟩ := hu.origin n hn
  have hne : c ≠ d := by
    rintro rfl
    exact hpq _ hcp hdq
  exact (h.apart hc hd hne).mono hmc hnd

theorem Holds.append (ht : s.Holds g p ts) (h : s.Parts g) (hu : s.Holds g q us)
    (hpq : ∀ role ∈ p, role ∉ q) : s.Holds g (p ++ q) (ts ++ us) := by
  constructor
  · intro region hfits
    exact Grid.laid_append.mpr ⟨ht.lays region hfits, hu.lays region hfits, ht.apart h hu hpq⟩
  · intro m hm
    rw [Grid.marks_append, List.mem_append] at hm
    rcases hm with hm | hm
    · obtain ⟨c, hc, hcp, hmc⟩ := ht.origin m hm
      exact ⟨c, hc, List.mem_append_left _ hcp, hmc⟩
    · obtain ⟨c, hc, hcq, hmc⟩ := hu.origin m hm
      exact ⟨c, hc, List.mem_append_right _ hcq, hmc⟩

theorem Holds.of_marks (hl : s.Lays g ts) (hmarks : g.marks ts = []) : s.Holds g p ts := by
  refine ⟨hl, ?_⟩
  rw [hmarks]
  intro m hm
  cases hm

theorem Holds.blank (hts : ∀ region, g.Laid region ts) : s.Holds g p ts :=
  .of_marks (fun region _ => hts region) (Grid.marks_eq_nil hts)

theorem Holds.flatMap (h : s.Parts g) {rs : List Reading} (hsub : rs.Sublist s.children)
    (hroles : ∀ r ∈ rs, r.head.field ∈ p) {view : Reading → List Tree}
    (hview : ∀ r, r.Tidy g → g.Stands r.head (view r)) : s.Holds g p (rs.flatMap view) := by
  have hstands : ∀ r ∈ rs, g.Stands r.head (view r) :=
    fun r hr => hview r (h.tidy r (hsub.subset hr))
  constructor
  · intro region hfits
    exact .flatMap (h.ordered.sublist hsub) hstands fun r hr => hfits r (hsub.subset hr)
  · intro m hm
    obtain ⟨r, hr, hmr⟩ := Grid.mem_marks_flatMap.mp hm
    exact ⟨r, hsub.subset hr, hroles r hr, (hstands r hr).mark hmr⟩

theorem Holds.sublist (h : s.Holds g p ts) (hsub : us.Sublist ts) : s.Holds g p us := by
  constructor
  · intro region hfits
    exact (h.lays region hfits).sublist hsub
  · intro m hm
    exact h.origin m (Grid.marks_subset hsub hm)

theorem Holds.child {r : Reading} (hr : r ∈ s.children) (hrole : r.head.field ∈ p)
    (hts : g.Stands r.head ts) : s.Holds g p ts :=
  ⟨fun region hfits => hts region (hfits r hr), fun _ hm => ⟨r, hr, hrole, hts.mark hm⟩⟩

theorem mem_of_field? {role : String} {r : Reading} (h : s.field? role = some r) :
    r ∈ s.children ∧ r.head.field = some role :=
  ⟨List.mem_of_find?_eq_some h, by simpa using List.find?_some h⟩

theorem Parts.field (h : s.Parts g) (role : String) (make : Option Reading → List Tree)
    (hnone : ∀ region, g.Laid region (make none))
    (hsome : ∀ r, r.Tidy g → g.Stands r.head (make (some r))) :
    s.Holds g [some role] (make (s.field? role)) := by
  cases hfield : s.field? role with
  | none => exact .blank hnone
  | some r =>
    obtain ⟨hr, hrole⟩ := mem_of_field? hfield
    exact .child hr (List.mem_singleton.mpr hrole) (hsome r (h.tidy r hr))

theorem Parts.first (h : s.Parts g) (make : Option Reading → List Tree)
    (hnone : ∀ region, g.Laid region (make none))
    (hsome : ∀ r, r.Tidy g → g.Stands r.head (make (some r))) : s.Lays g (make s.first?) := by
  cases hfirst : s.first? with
  | none => exact fun region _ => hnone region
  | some r =>
    have hr := List.mem_of_find?_eq_some hfirst
    exact fun region hfits => hsome r (h.tidy r hr) region (hfits r hr)

theorem Parts.flatMap (h : s.Parts g) {rs : List Reading} (hsub : rs.Sublist s.parts)
    {view : Reading → List Tree} (hview : ∀ r, r.Tidy g → g.Stands r.head (view r)) :
    s.Lays g (rs.flatMap view) := by
  have hall : s.Holds g (rs.map (·.head.field)) (rs.flatMap view) :=
    .flatMap h (hsub.trans List.filter_sublist) (fun r hr => List.mem_map.mpr ⟨r, hr, rfl⟩) hview
  exact hall.lays

theorem Parts.each {c : Category} (h : s.Parts g) {rs : List Reading} (hsub : rs.Sublist s.parts)
    {view : Reading → Option (Ast c)}
    (hview : ∀ r, r.Tidy g → g.Stands r.head ((view r).toList.flatMap Ast.trees)) :
    s.Lays g ((rs.filterMap view).flatMap Ast.trees) := by
  rw [List.filterMap_eq_flatMap_toList, List.flatMap_assoc]
  exact h.flatMap hsub hview

theorem Parts.fields {c : Category} (h : s.Parts g) (role : String)
    {view : Reading → Option (Ast c)}
    (hview : ∀ r, r.Tidy g → g.Stands r.head ((view r).toList.flatMap Ast.trees)) :
    s.Holds g [some role] (((s.fields role).filterMap view).flatMap Ast.trees) := by
  rw [List.filterMap_eq_flatMap_toList, List.flatMap_assoc]
  refine .flatMap h List.filter_sublist ?_ hview
  intro r hr
  have hrole := (List.mem_filter.mp hr).2
  simpa using hrole

end Site

end ScriptLens
