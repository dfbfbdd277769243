import Mathlib.Data.List.Chain
import ScriptLens.Index.Query
import ScriptLens.Proofs.Index.Links

/-! # Records inside their parents

Spans of a tree may be reversed, empty, overlapping or outside their parent. Those of an
index are not: a record starts in the text, does not end before it starts and lies inside
its parent, which itself has been moved into its own parent before. So the bounds that an
offset is moved between are never crossed. The checked walk gives `none` where they would
be, and it gives what the plain one gives.

The way from a root to a node goes from parent to child, and each record on it holds the
node.
-/
namespace ScriptLens

namespace Span

/-- A span that starts in the text and does not end before it starts. -/
structure Proper (s : Span) : Prop where
  one_le : 1 ≤ s.start
  start_le : s.start ≤ s.stop

structure Within (s around : Span) : Prop where
  start_le : around.start ≤ s.start
  stop_le : s.stop ≤ around.stop

theorem Within.refl (s : Span) : s.Within s := ⟨Nat.le_refl _, Nat.le_refl _⟩

theorem Within.trans {s t u : Span} (h : s.Within t) (h' : t.Within u) : s.Within u :=
  ⟨Nat.le_trans h'.start_le h.start_le, Nat.le_trans h.stop_le h'.stop_le⟩

end Span

namespace IndexBuilder

theorem straighten_proper (raw : Span) : (straighten raw).Proper := by
  constructor <;> simp only [straighten] <;> omega

theorem fit_proper {parent : Span} (hp : parent.Proper) (s : Span) : (fit parent s).Proper := by
  have := hp.one_le
  constructor <;> simp only [fit] <;> omega

theorem fit_within {parent : Span} (hp : parent.Proper) (s : Span) :
    (fit parent s).Within parent := by
  have := hp.start_le
  constructor <;> simp only [fit] <;> omega

/-- Spans are in order, and each lies inside the span of its parent. -/
structure Nested (b : IndexBuilder) : Prop extends b.Linked where
  proper : ∀ {i : Nat} {n : NodeRecord}, b.nodes[i]? = some n → n.span.Proper
  within : ∀ {i : Nat} {n : NodeRecord} {around : Span}, b.nodes[i]? = some n →
    (b.above n.parent).map NodeRecord.span = some around → n.span.Within around

theorem empty_nested (lines : Text.Lines) : (empty lines).Nested :=
  { empty_linked lines with
    proper := by simp [empty]
    within := by simp [empty] }

theorem Nested.above_proper {b : IndexBuilder} (hb : b.Nested) {parent : Option Nat}
    {p : NodeRecord} (hp : b.above parent = some p) : p.span.Proper := by
  obtain ⟨i, _, hi⟩ := Option.bind_eq_some_iff.mp hp
  exact hb.proper hi

theorem Nested.record_span {b : IndexBuilder} (hb : b.Nested) (head : TreeHead) (raw : Span)
    (parent : Option Nat) :
    (b.record head raw (b.above parent)).span.Proper ∧
      ∀ around, (b.above parent).map NodeRecord.span = some around →
        (b.record head raw (b.above parent)).span.Within around := by
  cases hp : b.above parent with
  | none =>
    refine ⟨straighten_proper raw, ?_⟩
    intro around h
    cases h
  | some p =>
    have hproper := hb.above_proper hp
    refine ⟨fit_proper hproper _, ?_⟩
    rintro around ⟨⟩
    exact fit_within hproper _

theorem Nested.insert {b : IndexBuilder} (hb : b.Nested) (head : TreeHead) (raw : Span)
    {parent : Option Nat} (hp : b.Knows parent) : (b.insert head raw parent).Nested := by
  have hl := hb.toLinked
  obtain ⟨hproper, hwithin⟩ := hb.record_span head raw parent
  refine { hl.insert head raw hp with proper := ?_, within := ?_ }
  · intro i n hn
    obtain ⟨_, rfl⟩ | ⟨m, hm, rfl⟩ := hl.of_insert hp hn
    · exact hproper
    · have hold := hb.proper hm
      exact hold
  · intro i n around hn haround
    obtain ⟨_, rfl⟩ | ⟨m, hm, rfl⟩ := hl.of_insert hp hn
    · rw [hl.parent_record head raw hp, hl.map_above_insert head raw hp hp fun _ _ => rfl]
        at haround
      exact hwithin around haround
    · rw [hl.map_above_insert head raw hp (hl.knows_parent hm) fun _ _ => rfl] at haround
      have hold := hb.within hm haround
      exact hold

theorem ofTree_nested (tree : Tree) (lines : Text.Lines) : (ofTree tree lines).Nested :=
  walk_keeps (fun _ head raw _ hb hp => hb.insert head raw hp) (empty_nested lines)
    (knowsAll_singleton _ tree)

end IndexBuilder

namespace Checked

/-- Moves an offset between two bounds, which must not be crossed. -/
def clamp (low high offset : Nat) : Option Nat :=
  if low ≤ high then
    some (if offset < low then low else if high < offset then high else offset)
  else none

def fit (parent s : Span) : Option Span := do
  let start ← clamp parent.start parent.stop s.start
  return ⟨start, ← clamp start parent.stop s.stop⟩

def record (b : IndexBuilder) (head : TreeHead) (raw : Span) (parent : Option NodeRecord) :
    Option NodeRecord := do
  let span ← match parent with
    | some p => fit p.span (IndexBuilder.straighten raw)
    | none => some (IndexBuilder.straighten raw)
  return { b.record head raw parent with
    span := span
    first := b.lines.lineCol span.start
    last := b.lines.lineCol span.stop }

def insert (b : IndexBuilder) (head : TreeHead) (raw : Span) (parent : Option Nat) :
    Option IndexBuilder := do
  let id := b.nodes.size
  let above := b.above parent
  let added ← record b head raw above
  return { b with
    nodes := match above with
      | some p =>
        (b.nodes.modify p.id fun n => { n with children := n.children.push id }).push added
      | none => b.nodes.push added
    roots := if above.isNone then b.roots.push id else b.roots
    keys := b.keys.insertIfNew (head.kind, raw) id }

def visit (b : IndexBuilder) (parent : Option Nat) (t : Tree) :
    Option (IndexBuilder × Option Nat) :=
  match t.placed? with
  | some raw => (insert b t.head raw parent).map (·, some b.nodes.size)
  | none => some (b, parent)

def walk (b : IndexBuilder) : List (Option Nat × Tree) → Option IndexBuilder
  | [] => some b
  | (parent, t) :: rest =>
    match visit b parent t with
    | some (b, attach) => walk b (t.children.map (attach, ·) ++ rest)
    | none => none
termination_by pending => pendingSize pending
decreasing_by
  rw [pendingSize_append, pendingSize_map]
  have := t.sizes_children_lt
  rw [pendingSize]
  omega

def index (tree : Tree) (source : String) : Option Index := do
  let lines := Text.Lines.ofBytes source.toUTF8
  let built ← walk (IndexBuilder.empty lines) [(none, tree)]
  return { nodes := built.nodes
           roots := built.roots
           order := (built.nodes.toList.mergeSort NodeRecord.isBefore).map NodeRecord.id
           keys := built.keys
           source := source
           lines := lines }

theorem clamp_eq {low high : Nat} (h : low ≤ high) (offset : Nat) :
    clamp low high offset = some (max low (min offset high)) := by
  rw [clamp, if_pos h]
  congr 1
  split
  · omega
  · split <;> omega

theorem fit_eq {parent : Span} (hp : parent.Proper) (s : Span) :
    fit parent s = some (IndexBuilder.fit parent s) := by
  -- The start is moved first, and its new place bounds the end from below.
  have hstart : max parent.start (min s.start parent.stop) ≤ parent.stop := by
    have := hp.start_le
    omega
  simp [fit, IndexBuilder.fit, clamp_eq hp.start_le, clamp_eq hstart]

variable {b : IndexBuilder}

theorem insert_eq (hb : b.Nested) (head : TreeHead) (raw : Span) (parent : Option Nat) :
    insert b head raw parent = some (b.insert head raw parent) := by
  have hrecord :
      record b head raw (b.above parent) = some (b.record head raw (b.above parent)) := by
    cases hp : b.above parent with
    | none => rfl
    | some p =>
      simp [record, fit_eq (hb.above_proper hp)]
      rfl
  simp only [insert, hrecord]
  rfl

theorem visit_eq (hb : b.Nested) (parent : Option Nat) (t : Tree) :
    visit b parent t = some (b.visit parent t) := by
  unfold visit IndexBuilder.visit
  cases t.placed? with
  | none => rfl
  | some raw => simp [insert_eq hb]

theorem walk_eq (hb : b.Nested) {pending : List (Option Nat × Tree)}
    (hpending : b.KnowsAll pending) : walk b pending = some (b.walk pending) := by
  fun_induction IndexBuilder.walk b pending with
  | case1 b => rw [walk]
  | case2 b parent t rest b' attach hvisit ih =>
    have hkept := IndexBuilder.visit_keeps (fun _ head raw _ hb hp => hb.insert head raw hp) hb
      (hpending _ List.mem_cons_self) t
    have hknown := hpending.visit
    rw [hvisit] at hkept hknown
    rw [walk, visit_eq hb, hvisit]
    exact ih hkept hknown

theorem index_eq (tree : Tree) (source : String) :
    index tree source = some (Index.ofTree tree source) := by
  have hwalk := walk_eq (IndexBuilder.empty_nested (Text.Lines.ofBytes source.toUTF8))
    (IndexBuilder.knowsAll_singleton _ tree)
  simp only [index, hwalk]
  rfl

end Checked

namespace Index

/-- A path that goes down from a root to a node, from parent to child, through records that
all hold the node. -/
structure LeadsTo (x : Index) (path : List Nat) (id : Nat) (n : NodeRecord) : Prop where
  starts : ∃ r ∈ x.roots, path.head? = some r
  ends : path.getLast? = some id
  length_eq : path.length = n.depth + 1
  descends : path.IsChain fun p c => ∃ m, x.node? c = some m ∧ m.parent = some p
  within : ∀ a ∈ path, ∃ m, x.node? a = some m ∧ n.span.Within m.span

theorem leadsTo_root {x : Index} {id : Nat} {n : NodeRecord} (hn : x.node? id = some n)
    (hroot : id ∈ x.roots) (hdepth : n.depth = 0) : x.LeadsTo [id] id n := by
  refine ⟨⟨id, hroot, rfl⟩, rfl, by simp [hdepth], .singleton id, ?_⟩
  intro a ha
  rw [List.mem_singleton] at ha
  subst ha
  exact ⟨n, hn, .refl _⟩

theorem LeadsTo.child {x : Index} {path : List Nat} {p : Nat} {m : NodeRecord}
    (h : x.LeadsTo path p m) {id : Nat} {n : NodeRecord} (hn : x.node? id = some n)
    (hparent : n.parent = some p) (hdepth : n.depth = m.depth + 1)
    (hwithin : n.span.Within m.span) :
    x.LeadsTo (path ++ [id]) id n := by
  obtain ⟨r, hroot, hhead⟩ := h.starts
  refine ⟨⟨r, hroot, ?_⟩, by simp, ?_, ?_, ?_⟩
  · rw [List.head?_append, hhead]
    rfl
  · rw [List.length_append, List.length_singleton, h.length_eq, hdepth]
  · refine List.isChain_append.mpr ⟨h.descends, .singleton id, ?_⟩
    rintro q hq c ⟨⟩
    rw [h.ends] at hq
    cases hq
    exact ⟨n, hn, hparent⟩
  · intro a ha
    rcases List.mem_append.mp ha with ha | ha
    · obtain ⟨k, hk, hheld⟩ := h.within a ha
      exact ⟨k, hk, hwithin.trans hheld⟩
    · rw [List.mem_singleton] at ha
      subst ha
      exact ⟨n, hn, .refl _⟩

theorem path_of_root {x : Index} {id : Nat} {n : NodeRecord} (hn : x.node? id = some n)
    (hparent : n.parent = none) : x.path id = [id] := by
  rw [path, chain, hn]
  simp [hparent]

theorem path_of_child {x : Index} {id p : Nat} {n : NodeRecord} (hn : x.node? id = some n)
    (hparent : n.parent = some p) (hlt : p < id) : x.path id = x.path p ++ [id] := by
  rw [path, chain, hn]
  simp [hparent, hlt, path]

section Built

variable (tree : Tree) (source : String)

theorem ofTree_nested : ∃ b : IndexBuilder, b.Nested ∧
    (ofTree tree source).nodes = b.nodes ∧ (ofTree tree source).roots = b.roots :=
  ⟨_, IndexBuilder.ofTree_nested tree (Text.Lines.ofBytes source.toUTF8), rfl, rfl⟩

variable {tree source} {id : Nat} {n : NodeRecord} (hn : (ofTree tree source).node? id = some n)
include hn

theorem ofTree_root (hparent : n.parent = none) :
    id ∈ (ofTree tree source).roots ∧ n.depth = 0 := by
  obtain ⟨b, hb, hnodes, hroots⟩ := ofTree_nested tree source
  rw [node?, hnodes] at hn
  constructor
  · rw [hroots, ← Array.mem_toList_iff, hb.roots_eq, NodeRecord.mem_numbersUnder]
    exact ⟨n, hn, hparent⟩
  · rw [hb.depth_eq hn, hparent]
    rfl

theorem ofTree_parent {p : Nat} (hparent : n.parent = some p) :
    p < id ∧ ∃ m, (ofTree tree source).node? p = some m ∧ n.depth = m.depth + 1 ∧
      n.span.Within m.span := by
  obtain ⟨b, hb, hnodes, _⟩ := ofTree_nested tree source
  simp only [node?, hnodes] at hn ⊢
  have hlt := hb.parent_lt hn hparent
  have hp : p < b.nodes.size := hb.knows_parent hn p hparent
  have hm : b.nodes[p]? = some b.nodes[p] := Array.getElem?_eq_getElem hp
  have habove : b.above n.parent = some b.nodes[p] := by
    rw [hparent]
    exact hm
  refine ⟨hlt, b.nodes[p], hm, ?_, ?_⟩
  · rw [hb.depth_eq hn, habove]
    rfl
  · apply hb.within hn
    rw [habove]
    rfl

end Built

theorem ofTree_path {tree : Tree} {source : String} {id : Nat} {n : NodeRecord}
    (hn : (ofTree tree source).node? id = some n) :
    (ofTree tree source).LeadsTo ((ofTree tree source).path id) id n := by
  induction id using Nat.strongRecOn generalizing n with
  | ind id ih =>
    cases hparent : n.parent with
    | none =>
      obtain ⟨hroot, hdepth⟩ := ofTree_root hn hparent
      rw [path_of_root hn hparent]
      exact leadsTo_root hn hroot hdepth
    | some p =>
      obtain ⟨hlt, m, hm, hdepth, hwithin⟩ := ofTree_parent hn hparent
      rw [path_of_child hn hparent hlt]
      exact (ih p hlt hm).child hn hparent hdepth hwithin

/-- All records of an index are in order and inside their parents. The bounds between which
offsets are moved are never crossed, no length is less than nothing, and the way down to a
node is as long as the node is deep and goes through records that hold it. -/
theorem ofTree_contained (tree : Tree) (source : String) :
    Checked.index tree source = some (ofTree tree source) ∧
    ∀ {id : Nat} {n : NodeRecord}, (ofTree tree source).node? id = some n →
      (1 ≤ n.span.start ∧ n.span.start ≤ n.span.stop) ∧
      n.span.start + n.length = n.span.stop ∧
      (∀ p, n.parent = some p → ∃ m, (ofTree tree source).node? p = some m ∧
        m.span.start ≤ n.span.start ∧ n.span.stop ≤ m.span.stop) ∧
      (ofTree tree source).LeadsTo ((ofTree tree source).path id) id n := by
  refine ⟨Checked.index_eq tree source, ?_⟩
  intro id n hn
  obtain ⟨b, hb, hnodes, _⟩ := ofTree_nested tree source
  have hproper : n.span.Proper := by
    rw [node?, hnodes] at hn
    exact hb.proper hn
  refine ⟨⟨hproper.one_le, hproper.start_le⟩, ?_, ?_, ofTree_path hn⟩
  · exact Nat.add_sub_cancel' hproper.start_le
  · intro p hparent
    obtain ⟨_, m, hm, _, hwithin⟩ := ofTree_parent hn hparent
    exact ⟨m, hm, hwithin.start_le, hwithin.stop_le⟩

/-- A reversed child behind the end of the root, below a node without a place, and in it a
leaf that hangs over on both sides. -/
def overhanging : Tree :=
  .inner .program ⟨3, 8⟩ "" [.inner .blockStatement .nowhere "" [
    .inner .badStatement ⟨9, 2⟩ "" [.leaf .identifier ⟨1, 20⟩ "x" (some "x")]]]

theorem overhanging_contained :
    ∃ n, (ofTree overhanging "let x = 1").node? 2 = some n ∧ n.span = ⟨8, 8⟩ ∧
      n.parent = some 1 ∧ n.span.start + n.length = n.span.stop ∧
      (ofTree overhanging "let x = 1").LeadsTo
        ((ofTree overhanging "let x = 1").path 2) 2 n := by
  have hrecord : ((ofTree overhanging "let x = 1").node? 2).map
      (fun n => (n.span, n.parent)) = some (⟨8, 8⟩, some 1) := by
    decide +kernel
  obtain ⟨n, hn, heq⟩ := Option.map_eq_some_iff.mp hrecord
  obtain ⟨hspan, hparent⟩ := Prod.mk.inj heq
  obtain ⟨_, hlength, _, hpath⟩ := (ofTree_contained overhanging "let x = 1").2 hn
  exact ⟨n, hn, hspan, hparent, hlength, hpath⟩

end Index

end ScriptLens
