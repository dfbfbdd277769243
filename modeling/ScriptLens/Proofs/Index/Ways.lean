import Mathlib.Data.List.Basic
import ScriptLens.Proofs.Index.Preorder

/-! # Ways through a tree

A node of a tree is named by the way that leads to it from the root, one number for each
step: the place of the next node among its siblings. In the lexicographic order of ways a
node stands before all nodes below it, and what is below one child stands before what is
below the next. So this order is pre-order, without a recursion that has to be trusted.

A node gets a record if it has a place in the text and no node above it is sealed. The
ways to these nodes, listed by recursion over the tree, are all of them, each once and in
order.
-/
namespace ScriptLens

namespace Tree

/-- All children of a node, also of a sealed one. -/
def offspring : Tree → List Tree
  | .node _ _ children => children

def isSealed : Tree → Bool
  | .node _ isSealed _ => isSealed

def at? : Tree → List Nat → Option Tree
  | t, [] => some t
  | t, i :: way => (t.offspring[i]?).bind (·.at? way)

/-- The nodes with a record. -/
structure Indexed (tree : Tree) (way : List Nat) : Prop where
  placed : ∃ t span, tree.at? way = some t ∧ t.placed? = some span
  unsealed : ∀ {above : List Nat} {t : Tree}, above <+: way → above ≠ way →
    tree.at? above = some t → t.isSealed = false

/-- The node that a walk finds at the end of a way. -/
def reach? : Tree → List Nat → Option Tree
  | t, [] => some t
  | t, i :: way => (t.children[i]?).bind (·.reach? way)

theorem getElem?_children_eq_some_iff {t c : Tree} {i : Nat} :
    t.children[i]? = some c ↔ t.isSealed = false ∧ t.offspring[i]? = some c := by
  cases t with
  | node head isSealed children =>
    cases isSealed <;> simp [Tree.children, Tree.isSealed, offspring]

/-- A walk gets to the nodes that have no sealed node above them. -/
theorem reach?_eq_some_iff {tree t : Tree} {way : List Nat} :
    tree.reach? way = some t ↔ tree.at? way = some t ∧
      ∀ {above : List Nat} {u : Tree}, above <+: way → above ≠ way →
        tree.at? above = some u → u.isSealed = false := by
  induction way generalizing tree with
  | nil =>
    refine ⟨fun h => ⟨h, ?_⟩, fun h => h.1⟩
    intro above u hle hne
    exact absurd (List.prefix_nil.mp hle) hne
  | cons i way ih =>
    simp only [reach?, at?, Option.bind_eq_some_iff, getElem?_children_eq_some_iff, ih]
    constructor
    · rintro ⟨c, ⟨htop, hc⟩, ht, hopen⟩
      refine ⟨⟨c, hc, ht⟩, ?_⟩
      intro above u hle hne hu
      cases above with
      | nil =>
        cases hu
        exact htop
      | cons j above =>
        obtain ⟨rfl, hrest⟩ := List.cons_prefix_cons.mp hle
        simp only [at?, hc, Option.bind_some] at hu
        exact hopen hrest (fun h => hne (by rw [h])) hu
    · rintro ⟨⟨c, hc, ht⟩, hopen⟩
      refine ⟨c, ⟨hopen List.nil_prefix (List.cons_ne_nil _ _).symm rfl, hc⟩, ht, ?_⟩
      intro above u hle hne hu
      refine hopen (List.cons_prefix_cons.mpr ⟨rfl, hle⟩) ?_ ?_
      · exact fun h => hne (List.cons.inj h).2
      · simpa only [at?, hc, Option.bind_some] using hu

theorem indexed_iff {tree : Tree} {way : List Nat} :
    tree.Indexed way ↔ ∃ t span, tree.reach? way = some t ∧ t.placed? = some span := by
  constructor
  · rintro ⟨⟨t, span, ht, hspan⟩, hopen⟩
    exact ⟨t, span, reach?_eq_some_iff.mpr ⟨ht, hopen⟩, hspan⟩
  · rintro ⟨t, span, ht, hspan⟩
    obtain ⟨ht, hopen⟩ := reach?_eq_some_iff.mp ht
    exact ⟨⟨t, span, ht, hspan⟩, hopen⟩

theorem reach?_concat (tree : Tree) (way : List Nat) (i : Nat) :
    tree.reach? (way ++ [i]) = (tree.reach? way).bind (·.children[i]?) := by
  induction way generalizing tree with
  | nil => simp [reach?]
  | cons j way ih =>
    simp only [List.cons_append, reach?, Option.bind_assoc, ih]

end Tree

mutual

/-- The ways to the nodes with a record, in pre-order. -/
def Tree.ways : Tree → List (List Nat)
  | .node head isSealed children =>
    ((head.span.filter (!·.isNowhere)).map fun _ => []).toList ++
      (if isSealed then [] else Tree.forestWays 0 children)

def Tree.forestWays : Nat → List Tree → List (List Nat)
  | _, [] => []
  | i, t :: rest => t.ways.map (i :: ·) ++ Tree.forestWays (i + 1) rest

end

theorem Tree.forestWays_eq_flatMap (i : Nat) (trees : List Tree) :
    Tree.forestWays i trees = (trees.zipIdx i).flatMap fun c => c.1.ways.map (c.2 :: ·) := by
  induction trees generalizing i with
  | nil => rfl
  | cons t rest ih => rw [Tree.forestWays, ih, List.zipIdx_cons, List.flatMap_cons]

theorem Tree.ways_eq (t : Tree) :
    t.ways = (t.placed?.map fun _ => []).toList ++
      t.children.zipIdx.flatMap fun c => c.1.ways.map (c.2 :: ·) := by
  cases t with
  | node head isSealed children =>
    cases isSealed with
    | true => simp [Tree.ways, Tree.placed?, Tree.head, Tree.children]
    | false =>
      simp [Tree.ways, Tree.placed?, Tree.head, Tree.children, Tree.forestWays_eq_flatMap]

namespace Tree

theorem size_le_sizes {c : Tree} {trees : List Tree} (hc : c ∈ trees) : c.size ≤ sizes trees := by
  induction trees with
  | nil => cases hc
  | cons t rest ih =>
    rw [sizes]
    rcases List.mem_cons.mp hc with rfl | hc
    · omega
    · have := ih hc
      omega

theorem children_induction {P : Tree → Prop} (step : ∀ t : Tree, (∀ c ∈ t.children, P c) → P t)
    (t : Tree) : P t :=
  step t fun c _ => children_induction step c
termination_by t.size
decreasing_by
  have hlt := t.sizes_children_lt
  have hle := size_le_sizes (by assumption : c ∈ t.children)
  omega

theorem cons_mem_ways {t : Tree} {i : Nat} {way : List Nat} :
    i :: way ∈ t.ways ↔ ∃ c, t.children[i]? = some c ∧ way ∈ c.ways := by
  rw [ways_eq]
  simp [List.mem_zipIdx_iff_getElem?]

theorem nil_mem_ways {t : Tree} : [] ∈ t.ways ↔ ∃ span, t.placed? = some span := by
  rw [ways_eq]
  simp

theorem mem_ways {t : Tree} {way : List Nat} : way ∈ t.ways ↔ t.Indexed way := by
  rw [indexed_iff]
  induction way generalizing t with
  | nil => simp [nil_mem_ways, reach?]
  | cons i way ih =>
    simp only [cons_mem_ways, ih, reach?, Option.bind_eq_some_iff]
    constructor
    · rintro ⟨c, hc, u, span, hu, hspan⟩
      exact ⟨u, span, ⟨c, hc, hu⟩, hspan⟩
    · rintro ⟨u, span, ⟨c, hc, hu⟩, hspan⟩
      exact ⟨c, hc, u, span, hu, hspan⟩

/-- Ways below a row of siblings are in order if those below each of them are: below one sibling
the first step is shared, and below two of them it decides. -/
theorem pairwise_siblings {α : Type} {ways : α → List (List Nat)} {siblings : List α}
    (h : ∀ a ∈ siblings, (ways a).Pairwise (· < ·)) :
    (siblings.zipIdx.flatMap fun c => (ways c.1).map (c.2 :: ·)).Pairwise (· < ·) := by
  rw [List.pairwise_flatMap]
  constructor
  · intro c hc
    rw [List.pairwise_map]
    refine (h c.1 (List.fst_mem_of_mem_zipIdx hc)).imp ?_
    intro way other hlt
    exact List.cons_lt_cons_iff.mpr (.inr ⟨rfl, hlt⟩)
  · rw [List.pairwise_iff_getElem]
    intro i j hi hj hij way hway other hother
    obtain ⟨_, _, rfl⟩ := List.mem_map.mp hway
    obtain ⟨_, _, rfl⟩ := List.mem_map.mp hother
    simp only [List.getElem_zipIdx]
    exact List.cons_lt_cons_iff.mpr (.inl (by omega))

theorem ways_pairwise (t : Tree) : t.ways.Pairwise (· < ·) := by
  induction t using children_induction with
  | step t ih =>
    rw [ways_eq, List.pairwise_append]
    refine ⟨?_, pairwise_siblings ih, ?_⟩
    · cases t.placed? <;> simp
    · intro way hway other hother
      obtain ⟨c, _, hother⟩ := List.mem_flatMap.mp hother
      obtain ⟨_, _, rfl⟩ := List.mem_map.mp hother
      obtain ⟨_, _, rfl⟩ := Option.map_eq_some_iff.mp (Option.mem_toList.mp hway)
      exact List.nil_lt_cons _ _

-- the root and the second child have no place, and the first child is sealed
example :
    (Tree.node ⟨.program, some .nowhere, "", none⟩ false
      [.node ⟨.blockStatement, some ⟨1, 5⟩, "", none⟩ true [.leaf .thisExpression ⟨2, 4⟩ "" none],
       .node ⟨.badStatement, none, "", none⟩ false [.leaf .identifier ⟨6, 9⟩ "" none]]).ways =
      [[0], [1, 0]] := by
  decide

def entryAt? (t : Tree) (way : List Nat) : Option (TreeHead × Span) :=
  (t.at? way).bind fun u => u.placed?.map (u.head, ·)

theorem map_entryAt?_ways (t : Tree) : t.ways.map t.entryAt? = t.entries.map some := by
  induction t using children_induction with
  | step t ih =>
    rw [ways_eq, entries_eq]
    simp only [List.map_append, List.map_flatMap, List.map_map]
    congr 1
    · cases hspan : t.placed? <;> simp [entryAt?, at?, hspan]
    · have hchild : ∀ c ∈ t.children.zipIdx,
          c.1.ways.map (t.entryAt? ∘ (c.2 :: ·)) = c.1.entries.map some := by
        intro c hc
        have hat := List.mem_zipIdx_iff_getElem?.mp hc
        rw [← ih c.1 (List.mem_of_getElem? hat)]
        apply List.map_congr_left
        intro way _
        simp [entryAt?, at?, (getElem?_children_eq_some_iff.mp hat).2]
      rw [List.flatMap_congr hchild]
      conv_rhs => rw [← List.zipIdx_map_fst 0 t.children, List.flatMap_map]

theorem entry_of_way {tree : Tree} {i : Nat} {way : List Nat} (hway : tree.ways[i]? = some way) :
    ∃ t span, tree.at? way = some t ∧ tree.entries[i]? = some (t.head, span) := by
  have h := congrArg (·[i]?) tree.map_entryAt?_ways
  simp only [List.getElem?_map, hway, Option.map_some] at h
  obtain ⟨e, he, hentry⟩ := Option.map_eq_some_iff.mp h.symm
  obtain ⟨t, ht, hplaced⟩ := Option.bind_eq_some_iff.mp hentry.symm
  obtain ⟨span, _, rfl⟩ := Option.map_eq_some_iff.mp hplaced
  exact ⟨t, span, ht, he⟩

theorem findIdx?_entries (tree : Tree) (p : TreeHead × Span → Bool) :
    tree.entries.findIdx? p = tree.ways.findIdx? fun way => (tree.entryAt? way).any p :=
  calc tree.entries.findIdx? p
      = (tree.entries.map some).findIdx? (Option.any p) := by
        rw [List.findIdx?_map]
        rfl
    _ = tree.ways.findIdx? fun way => (tree.entryAt? way).any p := by
        rw [← map_entryAt?_ways, List.findIdx?_map]
        rfl

end Tree

end ScriptLens
