import ScriptLens.Ast.View
import ScriptLens.Proofs.Index.Containment
import ScriptLens.Proofs.Index.Ways
import ScriptLens.Text.Utf8

/-! # Layouts of trees

A list of trees is laid out in a region of the text if every node with a place lies inside
the nearest such node above it, or else inside the region, and if the marks of siblings do
not overlap. Identifiers are marks. Where scopes matter, the constructs that may open one
are marks too, and then these must have a place.

Two layouts in one region make one layout if no mark of the first overlaps one of the second.
-/
namespace ScriptLens

namespace Span

def Apart (s t : Span) : Prop := s.stop ≤ t.start ∨ t.stop ≤ s.start

theorem Apart.symm {s t : Span} (h : s.Apart t) : t.Apart s := Or.symm h

theorem Apart.mono {s t s' t' : Span} (h : s.Apart t) (hs : s'.Within s) (ht : t'.Within t) :
    s'.Apart t' := by
  have hs₁ := hs.start_le
  have hs₂ := hs.stop_le
  have ht₁ := ht.start_le
  have ht₂ := ht.stop_le
  unfold Apart at *
  omega

theorem isNowhere_cover (a b : Span) :
    (a.cover b).isNowhere = (a.isNowhere && b.isNowhere) := by
  cases ha : a.isNowhere with
  | true => simp [cover, ha]
  | false =>
    cases hb : b.isNowhere with
    | true => simp [cover, ha, hb]
    | false =>
      have hcover : a.cover b = ⟨min a.start b.start, max a.stop b.stop⟩ := by
        simp [cover, ha, hb]
      rw [hcover]
      simp only [isNowhere, Bool.and_eq_false_imp, beq_iff_eq, beq_eq_false_iff_ne] at *
      simp only [Bool.and_false, Bool.and_eq_false_imp, beq_iff_eq, beq_eq_false_iff_ne]
      omega

theorem within_cover_left {a b : Span} (ha : a.isNowhere = false) : a.Within (a.cover b) := by
  rw [cover, ha]
  split
  · contradiction
  · split
    · exact .refl a
    · exact ⟨Nat.min_le_left _ _, Nat.le_max_left _ _⟩

theorem within_cover_right {a b : Span} (hb : b.isNowhere = false) : b.Within (a.cover b) := by
  rw [cover, hb]
  split
  · exact .refl b
  · exact ⟨Nat.min_le_right _ _, Nat.le_max_right _ _⟩

end Span

def NodeKind.opensScope : NodeKind → Bool
  | .functionDeclaration | .functionExpression | .arrowFunction | .classExpression
  | .fieldDefinition | .staticBlock | .blockStatement | .forStatement | .forInStatement
  | .forOfStatement | .switchStatement | .catchClause => true
  | _ => false

/-- What a layout is held to: the text that identifiers spell, and whether constructs that
open scopes are kept apart like identifiers. -/
structure Grid where
  source : ByteArray
  scopes : Bool

namespace Grid

def counts (g : Grid) (kind : NodeKind) : Bool := kind == .identifier || g.scopes && kind.opensScope

def marks (g : Grid) (ts : List Tree) : List Span :=
  ((ts.flatMap Tree.entries).filter fun e => g.counts e.1.kind).map Prod.snd

/-- A place inside a region, which is not empty where scopes matter. -/
structure Suits (g : Grid) (region span : Span) : Prop where
  within : span.Within region
  proper : span.Proper
  wide : g.scopes = true → span.start < span.stop

/-- A name as the text has it, which is not empty where scopes matter. -/
structure Spells (g : Grid) (span : Span) (name : Option String) : Prop where
  text : name = some ((Text.slice? g.source (span.start - 1) (span.stop - 1)).getD "")
  nonempty : g.scopes = true → name ≠ some ""

/-- What is asked of a single node in a region. -/
structure Admits (g : Grid) (region : Span) (t : Tree) : Prop where
  unsealed : t.isSealed = false
  suits : ∀ span, t.placed? = some span → g.Suits region span
  spelled : t.head.kind = .identifier → t.children = [] ∧ ∀ span, t.placed? = some span →
    g.Spells span t.head.name
  bare : g.scopes = true → t.placed? = none → t.head.kind.opensScope = true →
    t.head.kind = .blockStatement ∧ t.children = []

theorem Suits.cover {g : Grid} {region a b : Span}
    (ha : a.isNowhere = false → g.Suits region a) (hb : b.isNowhere = false → g.Suits region b)
    (h : (a.cover b).isNowhere = false) : g.Suits region (a.cover b) := by
  unfold Span.cover at *
  split
  · next hn =>
    rw [if_pos hn] at h
    exact hb h
  · next hna =>
    split
    · exact ha (by simpa using hna)
    · next hnb =>
      have hsa := ha (by simpa using hna)
      have hsb := hb (by simpa using hnb)
      have ha₁ := hsa.within.start_le
      have ha₂ := hsa.within.stop_le
      have hb₁ := hsb.within.start_le
      have hb₂ := hsb.within.stop_le
      have ha₃ := hsa.proper.one_le
      have ha₄ := hsa.proper.start_le
      have hb₃ := hsb.proper.one_le
      refine ⟨⟨?_, ?_⟩, ⟨?_, ?_⟩, fun hscopes => ?_⟩
      all_goals dsimp only
      · omega
      · omega
      · omega
      · omega
      · have ha₅ := hsa.wide hscopes
        omega

inductive Laid (g : Grid) : Span → List Tree → Prop where
  | nil {region : Span} : Laid g region []
  | cons {region : Span} {t : Tree} {rest : List Tree} (first : g.Admits region t)
      (below : Laid g (t.placed?.getD region) t.children) (others : Laid g region rest)
      (apart : ∀ s ∈ g.marks [t], ∀ u ∈ g.marks rest, s.Apart u) : Laid g region (t :: rest)

variable {g : Grid} {region : Span} {ts us : List Tree}

@[simp] theorem marks_append : g.marks (ts ++ us) = g.marks ts ++ g.marks us := by
  simp [marks]

theorem marks_cons (t : Tree) (ts : List Tree) :
    g.marks (t :: ts) = g.marks [t] ++ g.marks ts := by
  rw [← marks_append, List.singleton_append]

theorem marks_singleton (t : Tree) :
    g.marks [t] =
      (t.placed?.filter fun _ => g.counts t.head.kind).toList ++ g.marks t.children := by
  rw [marks, List.flatMap_singleton, t.entries_eq, List.filter_append, List.map_append, marks]
  congr 1
  cases t.placed? with
  | none => rfl
  | some span => cases hcounts : g.counts t.head.kind <;> simp [hcounts, Option.filter_some]

theorem marks_inner {kind : NodeKind} {span : Span} {label : String}
    (hkind : g.counts kind = false) : g.marks [Tree.inner kind span label ts] = g.marks ts := by
  rw [marks_singleton]
  have hhead : (Tree.inner kind span label ts).head.kind = kind := rfl
  cases (Tree.inner kind span label ts).placed? <;> simp [hhead, hkind, Option.filter_some] <;> rfl

theorem marks_leaf {kind : NodeKind} {span : Span} {label : String} {name : Option String}
    (hkind : g.counts kind = false) : g.marks [Tree.leaf kind span label name] = [] := by
  rw [marks_singleton]
  have hhead : (Tree.leaf kind span label name).head.kind = kind := rfl
  cases (Tree.leaf kind span label name).placed? <;> simp [hhead, hkind, Option.filter_some] <;> rfl

theorem mem_marks_cons {t : Tree} {m : Span} :
    m ∈ g.marks (t :: ts) ↔
      (t.placed? = some m ∧ g.counts t.head.kind = true ∨ m ∈ g.marks t.children) ∨
        m ∈ g.marks ts := by
  rw [marks_cons, marks_singleton, List.mem_append, List.mem_append, Option.mem_toList,
    Option.filter_eq_some_iff]

theorem laid_cons {t : Tree} :
    g.Laid region (t :: ts) ↔ g.Admits region t ∧ g.Laid (t.placed?.getD region) t.children ∧
      g.Laid region ts ∧ ∀ s ∈ g.marks [t], ∀ u ∈ g.marks ts, s.Apart u := by
  constructor
  · rintro (_ | ⟨first, below, others, apart⟩)
    exact ⟨first, below, others, apart⟩
  · rintro ⟨first, below, others, apart⟩
    exact .cons first below others apart

theorem laid_singleton {t : Tree} :
    g.Laid region [t] ↔ g.Admits region t ∧ g.Laid (t.placed?.getD region) t.children := by
  simp [laid_cons, Laid.nil, marks]

theorem laid_append :
    g.Laid region (ts ++ us) ↔ g.Laid region ts ∧ g.Laid region us ∧
      ∀ s ∈ g.marks ts, ∀ u ∈ g.marks us, s.Apart u := by
  induction ts with
  | nil => simp [Laid.nil, marks]
  | cons t rest ih =>
    rw [List.cons_append, laid_cons, laid_cons, ih, marks_append, marks_cons t rest]
    simp only [List.mem_append]
    constructor
    · rintro ⟨first, below, ⟨others, hus, hrest⟩, apart⟩
      refine ⟨⟨first, below, others, fun s hs u hu => apart s hs u (.inl hu)⟩, hus, ?_⟩
      rintro s (hs | hs) u hu
      · exact apart s hs u (.inr hu)
      · exact hrest s hs u hu
    · rintro ⟨⟨first, below, others, apart⟩, hus, hall⟩
      refine ⟨first, below, ⟨others, hus, fun s hs => hall s (.inr hs)⟩, ?_⟩
      rintro s hs u (hu | hu)
      · exact apart s hs u hu
      · exact hall s (.inl hs) u hu

theorem Laid.mark (h : g.Laid region ts) {m : Span} (hm : m ∈ g.marks ts) :
    m.Within region ∧ m.Proper := by
  induction h with
  | nil => cases hm
  | @cons region t rest first below others _ ihbelow ihothers =>
    rcases mem_marks_cons.mp hm with (⟨hspan, _⟩ | hm) | hm
    · exact ⟨(first.suits m hspan).within, (first.suits m hspan).proper⟩
    · obtain ⟨hwithin, hproper⟩ := ihbelow hm
      refine ⟨?_, hproper⟩
      cases hspan : t.placed? with
      | none => simpa [hspan] using hwithin
      | some span =>
        rw [hspan, Option.getD_some] at hwithin
        exact hwithin.trans (first.suits span hspan).within
    · exact ihothers hm

theorem marks_subset {us : List Tree} (hsub : us.Sublist ts) {m : Span} (hm : m ∈ g.marks us) :
    m ∈ g.marks ts := by
  simp only [marks, List.mem_map, List.mem_filter, List.mem_flatMap] at *
  obtain ⟨e, ⟨⟨t, ht, he⟩, hcounts⟩, rfl⟩ := hm
  exact ⟨e, ⟨⟨t, hsub.subset ht, he⟩, hcounts⟩, rfl⟩

theorem Laid.sublist {us : List Tree} (h : g.Laid region ts) (hsub : us.Sublist ts) :
    g.Laid region us := by
  induction hsub with
  | slnil => exact h
  | cons _ _ ih => exact ih (laid_cons.mp h).2.2.1
  | cons_cons t hsub ih =>
    obtain ⟨first, below, others, apart⟩ := laid_cons.mp h
    exact .cons first below (ih others) fun s hs u hu => apart s hs u (marks_subset hsub hu)

/-- What is laid out in every region has no marks. -/
theorem marks_eq_nil (h : ∀ region, g.Laid region ts) : g.marks ts = [] := by
  rw [List.eq_nil_iff_forall_not_mem]
  intro m hm
  obtain ⟨hwithin, hproper⟩ := (h ⟨1, 0⟩).mark hm
  have hstart := hproper.start_le
  have hone := hproper.one_le
  have hstop := hwithin.stop_le
  dsimp only at hstop
  omega

/-- A node with a place, over parts that are laid out in it. -/
theorem Laid.placed {t : Tree} {span : Span} (hopen : t.isSealed = false)
    (hspan : t.placed? = some span)
    (hsuits : g.Suits region span)
    (hname : t.head.kind = .identifier → t.children = [] ∧ g.Spells span t.head.name)
    (h : g.Laid span t.children) : g.Laid region [t] := by
  rw [laid_singleton, hspan]
  refine ⟨⟨hopen, ?_, ?_, ?_⟩, h⟩
  all_goals simp only [hspan, Option.some.injEq, forall_eq', reduceCtorEq, false_implies,
    implies_true]
  · exact hsuits
  · exact hname

/-- A node without a place leaves its parts where they are. -/
theorem Laid.bare {t : Tree} (hopen : t.isSealed = false) (hspan : t.placed? = none)
    (hname : t.head.kind = .identifier → t.children = [])
    (hbare : g.scopes = true → t.head.kind.opensScope = true →
      t.head.kind = .blockStatement ∧ t.children = [])
    (h : g.Laid region t.children) : g.Laid region [t] := by
  rw [laid_singleton, hspan]
  refine ⟨⟨hopen, ?_, ?_, ?_⟩, h⟩
  all_goals simp only [hspan, reduceCtorEq, false_implies, implies_true, and_true]
  · exact hname
  · intro hscopes _
    exact hbare hscopes

theorem placed?_inner {kind : NodeKind} {span : Span} {label : String} :
    (Tree.inner kind span label ts).placed? = if span.isNowhere then none else some span := by
  cases h : span.isNowhere <;> simp [Tree.placed?, Tree.inner, Tree.head, Option.filter_some, h]

theorem placed?_leaf {kind : NodeKind} {span : Span} {label : String} {name : Option String} :
    (Tree.leaf kind span label name).placed? = if span.isNowhere then none else some span := by
  cases h : span.isNowhere <;> simp [Tree.placed?, Tree.leaf, Tree.head, Option.filter_some, h]

/-- A node that covers two spans, over parts that are laid out wherever both spans fit. -/
theorem Laid.cover {kind : NodeKind} {a b : Span} {label : String} (hkind : kind ≠ .identifier)
    (ha : a.isNowhere = false → g.Suits region a) (hb : b.isNowhere = false → g.Suits region b)
    (hopens : g.scopes = true → kind.opensScope = true → (a.cover b).isNowhere = false)
    (h : ∀ region, (a.isNowhere = false → a.Within region) →
      (b.isNowhere = false → b.Within region) → g.Laid region ts) :
    g.Laid region [Tree.inner kind (a.cover b) label ts] := by
  cases hspan : (a.cover b).isNowhere with
  | true =>
    have hplaced : (Tree.inner kind (a.cover b) label ts).placed? = none := by
      rw [placed?_inner, hspan]
      rfl
    refine .bare rfl hplaced (fun hident => absurd hident hkind) ?_ ?_
    · intro hscopes hopen
      rw [hopens hscopes hopen] at hspan
      cases hspan
    · exact h region (fun hn => (ha hn).within) fun hn => (hb hn).within
  | false =>
    have hplaced : (Tree.inner kind (a.cover b) label ts).placed? = some (a.cover b) := by
      rw [placed?_inner, hspan]
      rfl
    refine .placed rfl hplaced ?_ (fun hident => absurd hident hkind) ?_
    · exact Suits.cover ha hb hspan
    · exact h _ Span.within_cover_left Span.within_cover_right

end Grid

end ScriptLens
