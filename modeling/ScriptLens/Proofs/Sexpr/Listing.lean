import Mathlib.Data.List.Sort
import ScriptLens.Proofs.Index.Folding
import ScriptLens.Sexpr.View

/-! # The nodes of a print

A forest that is printed lists its nodes in pre-order, each with its depth. For a snapshot these
are all its nodes. For the index of a tree these are its records in the order of their numbers,
because nothing is left out where nothing is folded.
-/
namespace ScriptLens

namespace Sexpr

structure Placed where
  depth : Nat
  tree : Sexpr

mutual

/-- The nodes of a tree in pre-order; its root stands at the depth given. -/
def placed (depth : Nat) : Sexpr → List Placed
  | .node head span flags text children =>
    ⟨depth, .node head span flags text children⟩ :: placedAll (depth + 1) children

def placedAll (depth : Nat) : List Sexpr → List Placed
  | [] => []
  | t :: rest => t.placed depth ++ placedAll depth rest

end

mutual

theorem le_depth_placed (depth : Nat) : (t : Sexpr) → ∀ v ∈ t.placed depth, depth ≤ v.depth
  | .node head span flags text children => by
    intro v hv
    rcases List.mem_cons.mp hv with rfl | hv
    · exact Nat.le_refl _
    · exact Nat.le_of_succ_le (le_depth_placedAll (depth + 1) children v hv)

theorem le_depth_placedAll (depth : Nat) :
    (ts : List Sexpr) → ∀ v ∈ placedAll depth ts, depth ≤ v.depth
  | [] => by
    intro v hv
    cases hv
  | t :: rest => by
    intro v hv
    rcases List.mem_append.mp hv with hv | hv
    · exact le_depth_placed depth t v hv
    · exact le_depth_placedAll depth rest v hv

end

theorem placedAll_eq_flatMap (depth : Nat) (ts : List Sexpr) :
    placedAll depth ts = ts.flatMap (placed depth) := by
  induction ts with
  | nil => rfl
  | cons t rest ih => rw [placedAll, List.flatMap_cons, ih]

end Sexpr

open Sexpr

/-! ## Snapshots -/

namespace Snapshot

def placed (s : Snapshot) : List Placed := s.sexpr.placed 0

mutual

theorem map_tree_placed (depth : Nat) : (s : Snapshot) →
    (s.sexpr.placed depth).map Placed.tree = s.nodes.map sexpr
  | .node head children => by
    rw [sexpr, Sexpr.placed, Rose.nodes, List.map_cons, List.map_cons, map_tree_placedAll, sexpr]

theorem map_tree_placedAll (depth : Nat) : (trees : List Snapshot) →
    (placedAll depth (sexprs trees)).map Placed.tree = (Rose.nodesOf trees).map sexpr
  | [] => rfl
  | s :: rest => by
    rw [sexprs, placedAll, Rose.nodesOf, List.map_append, List.map_append, map_tree_placed,
      map_tree_placedAll]

end

end Snapshot

/-! ## Indexes -/

def NodeRecord.opened (n : NodeRecord) : NodeRecord := { n with isExpanded := true }

namespace Index

def placed (x : Index) : List Placed := placedAll 0 (x.roots.toList.map x.sexprFrom)

def opened (x : Index) : Index := { x with nodes := x.nodes.map NodeRecord.opened }

theorem node?_opened (x : Index) (id : Nat) :
    x.opened.node? id = (x.node? id).map NodeRecord.opened := Array.getElem?_map

theorem folded_opened (x : Index) : x.opened.folded = x.folded := by
  have hnodes : x.opened.nodes.map NodeRecord.folded = x.nodes.map NodeRecord.folded :=
    Array.map_map
  rw [folded, hnodes]
  rfl

theorem sexprFrom_eq {x : Index} {id : Nat} {n : NodeRecord} (hn : x.node? id = some n) :
    x.sexprFrom id = .node n.sexprHead n.sexprSpan (if n.kind.isBad then [errorFlag] else [])
      (if n.children.isEmpty then (x.textOf? id).map String.toList else none)
      ((n.children.toList.filter (id < ·)).map x.sexprFrom) := by
  have hchildren : (n.children.toList.flatMap fun c => if id < c then [x.sexprFrom c] else []) =
      (n.children.toList.filter (id < ·)).map x.sexprFrom := by
    rw [flatMap_ite_nil, List.map_eq_flatMap]
  rw [sexprFrom]
  split
  · next hnone =>
    rw [hn] at hnone
    cases hnone
  · next m hm =>
    rw [hn] at hm
    cases hm
    simp only [dite_eq_ite, hchildren]

def placedAt (x : Index) (id : Nat) : Placed :=
  ⟨((x.node? id).map NodeRecord.depth).getD 0, x.sexprFrom id⟩

namespace Forest

variable {x : Index} (h : x.Forest)
include h

theorem opened : x.opened.Forest := h.of_folded x.folded_opened

theorem visible_opened : x.opened.visible = List.range x.size := by
  have hopened := h.opened
  have hmem : ∀ id, id ∈ x.opened.visible ↔ id ∈ List.range x.size := by
    intro id
    rw [hopened.mem_visible, List.mem_range, size_eq_of_folded x.folded_opened]
    constructor
    · exact And.left
    · intro hlt
      refine ⟨hlt, ?_⟩
      intro a ha
      obtain ⟨m, hm⟩ := hopened.exists_above ha
      rw [isExpanded?, hm, Option.map_some]
      rw [node?_opened] at hm
      obtain ⟨n, _, rfl⟩ := Option.map_eq_some_iff.mp hm
      rfl
  exact hopened.visible_pairwise.eq_of_mem_iff List.pairwise_lt_range hmem

/-- The print goes from a node where the nodes that are shown go if nothing is folded. -/
theorem placed_sexprFrom
    (hdepth : ∀ {id p : Nat} {n m : NodeRecord}, x.node? id = some n → n.parent = some p →
      x.node? p = some m → n.depth = m.depth + 1)
    {id : Nat} {n : NodeRecord} (hn : x.node? id = some n) :
    (x.sexprFrom id).placed n.depth = (x.opened.visibleFrom id).map x.placedAt := by
  induction id using x.downward_induction generalizing n with
  | step id ih =>
    have hopen : x.opened.node? id = some n.opened := by rw [node?_opened, hn, Option.map_some]
    have hself : x.placedAt id = ⟨n.depth, x.sexprFrom id⟩ := by
      rw [placedAt, hn, Option.map_some, Option.getD_some]
    have hchildren : ∀ c ∈ n.children.toList.filter (id < ·),
        (x.sexprFrom c).placed (n.depth + 1) = (x.opened.visibleFrom c).map x.placedAt := by
      intro c hc
      obtain ⟨hchild, hlater⟩ := List.mem_filter.mp hc
      rw [h.children_eq hn, NodeRecord.mem_numbersUnder] at hchild
      obtain ⟨m, hm, hparent⟩ := hchild
      rw [← hdepth hm hparent hn]
      exact ih c (of_decide_eq_true hlater) (lt_size_of_node? hm) hm
    have hunfolded : unfolded id n.opened = n.children.toList.filter (id < ·) := rfl
    rw [visibleFrom_eq hopen, hunfolded, List.map_cons, hself, List.map_flatMap, sexprFrom_eq hn,
      Sexpr.placed, placedAll_eq_flatMap, List.flatMap_map, List.flatMap_congr hchildren]

end Forest

/-- The print of the index of a tree goes through the records in the order of their numbers, and
each stands as deep in the print as its record says. -/
theorem placed_ofTree (tree : Tree) (source : String) :
    let x := ofTree tree source
    x.placed = x.nodes.toList.map fun n => ⟨n.depth, x.sexprFrom n.id⟩ := by
  intro x
  have hx : x.Forest := ofTree_forest tree source
  have hroots : ∀ r ∈ x.roots.toList,
      (x.sexprFrom r).placed 0 = (x.opened.visibleFrom r).map x.placedAt := by
    intro r hr
    rw [hx.roots_eq, NodeRecord.mem_numbersUnder] at hr
    obtain ⟨n, hn, hroot⟩ := hr
    have hdepth : n.depth = 0 := (ofTree_root hn hroot).2
    rw [← hdepth]
    refine hx.placed_sexprFrom ?_ hn
    intro id p k m hk hparent hm
    obtain ⟨_, m', hm', heq, _⟩ := ofTree_parent hk hparent
    rw [hm] at hm'
    cases hm'
    exact heq
  have hvisible : x.roots.toList.flatMap x.opened.visibleFrom = List.range x.size := by
    rw [← hx.visible_opened, visible_eq]
    rfl
  have hrecord : ∀ i (hi : i < x.nodes.size),
      x.placedAt i = ⟨x.nodes[i].depth, x.sexprFrom x.nodes[i].id⟩ := by
    intro i hi
    have hn : x.node? i = some x.nodes[i] := Array.getElem?_eq_getElem hi
    rw [placedAt, hn, Option.map_some, Option.getD_some, ofTree_id hn]
  calc x.placed
      = (x.roots.toList.flatMap x.opened.visibleFrom).map x.placedAt := by
        rw [Index.placed, placedAll_eq_flatMap, List.flatMap_map, List.flatMap_congr hroots,
          List.map_flatMap]
    _ = (List.range x.size).map x.placedAt := by rw [hvisible]
    _ = x.nodes.toList.map fun n => ⟨n.depth, x.sexprFrom n.id⟩ := by
        apply List.ext_getElem
        · simp [size]
        · intro i hi _
          have hlt : i < x.nodes.size := by simpa [size] using hi
          simpa using hrecord i hlt

end Index

end ScriptLens
