import Mathlib.Data.List.Sort
import ScriptLens.Proofs.Index.Exact

/-! # Numbers of nodes

A node with a record has the number of its way among all recorded ways. The children of a record
are the nodes right below it, in order, as far as these have records.
-/
namespace ScriptLens

namespace Tree

def number (tree : Tree) (way : List Nat) : Nat := tree.ways.idxOf way

variable {tree t : Tree} {way : List Nat} {i : Nat}

theorem getElem?_number (h : tree.Indexed way) : tree.ways[tree.number way]? = some way := by
  have hlt := List.idxOf_lt_length_of_mem (mem_ways.mpr h)
  rw [number, List.getElem?_eq_getElem hlt, List.getElem_idxOf]

theorem number_eq (h : tree.ways[i]? = some way) : tree.number way = i := by
  have hindexed := mem_ways.mp (List.mem_of_getElem? h)
  have hnodup : tree.ways.Nodup := tree.ways_pairwise.imp fun hlt heq => by
    subst heq
    exact List.lt_irrefl _ hlt
  have hlt := (List.getElem?_eq_some_iff.mp (getElem?_number hindexed)).1
  exact (List.getElem?_inj hlt hnodup).mp ((getElem?_number hindexed).trans h.symm)

theorem getElem?_entries_number {u : Tree} {span : Span} (h : tree.Indexed way)
    (hu : tree.at? way = some u) (hspan : u.placed? = some span) :
    tree.entries[tree.number way]? = some (u.head, span) := by
  have hentries := congrArg (·[tree.number way]?) tree.map_entryAt?_ways
  simp only [List.getElem?_map, getElem?_number h, Option.map_some, entryAt?, hu, Option.bind_some,
    hspan] at hentries
  obtain ⟨e, he, hentry⟩ := Option.map_eq_some_iff.mp hentries.symm
  rw [he, Option.some.inj hentry]

theorem number_lt_number {other : List Nat} (h : tree.Indexed way) (h' : tree.Indexed other)
    (hlt : way < other) : tree.number way < tree.number other := by
  obtain ⟨hi, hway⟩ := List.getElem?_eq_some_iff.mp (getElem?_number h)
  obtain ⟨hj, hother⟩ := List.getElem?_eq_some_iff.mp (getElem?_number h')
  rcases Nat.lt_trichotomy (tree.number way) (tree.number other) with hless | heq | hmore
  · exact hless
  · have hsame : way = other := by
      rw [← hway, ← hother]
      simp only [heq]
    rw [hsame] at hlt
    exact absurd hlt (List.lt_irrefl _)
  · have hgt := List.pairwise_iff_getElem.mp tree.ways_pairwise _ _ hj hi hmore
    rw [hway, hother] at hgt
    exact absurd hgt (List.lt_asymm hlt)

end Tree

theorem Grid.Laid.indexed {g : Grid} {region span : Span} {tree u : Tree} {way : List Nat}
    (h : g.Laid region [tree]) (hu : tree.at? way = some u) (hspan : u.placed? = some span) :
    tree.Indexed way := by
  refine ⟨⟨u, span, hu, hspan⟩, ?_⟩
  intro above a _ _ ha
  obtain ⟨around, _, hlaid⟩ := h.at? ha
  exact (Grid.laid_singleton.mp hlaid).1.unsealed

namespace Index

structure Records (x : Index) (tree : Tree) (way : List Nat) (u : Tree) (n : NodeRecord) :
    Prop where
  leads : tree.at? way = some u
  node : x.node? (tree.number way) = some n
  id : n.id = tree.number way
  kind : n.kind = u.head.kind
  name : n.name = u.head.name
  span : u.placed? = some n.span

variable {x : Index} {tree t : Tree} {way : List Nat} {n : NodeRecord}

/-- An index that has a record with the right span for every node with a place. -/
structure Mirrors (x : Index) (tree : Tree) : Prop where
  flattens : x.Flattens tree tree.ways
  record : ∀ {i : Nat} {way : List Nat}, tree.ways[i]? = some way →
    ∃ n u, x.node? i = some n ∧ tree.at? way = some u ∧ n.kind = u.head.kind ∧
      n.name = u.head.name ∧ u.placed? = some n.span
  indexed : ∀ {way : List Nat} {u : Tree} {span : Span}, tree.at? way = some u →
    u.placed? = some span → tree.Indexed way

theorem Flattens.mem_children_iff (h : x.Flattens tree tree.ways) (hway : tree.Indexed way)
    (hn : x.node? (tree.number way) = some n) {j : Nat} :
    j ∈ n.children.toList ↔ ∃ w, tree.ways[j]? = some w ∧ tree.NearestAbove way w := by
  rw [h.children_eq hn, NodeRecord.mem_numbersUnder]
  constructor
  · rintro ⟨m, hm, hparent⟩
    have hlt : j < tree.ways.length := by
      rw [← h.size_eq]
      exact lt_size_of_node? hm
    have hw : tree.ways[j]? = some tree.ways[j] := List.getElem?_eq_getElem hlt
    obtain ⟨above, habove, hnear⟩ := (h.parent_eq_some_iff hw hm).mp hparent
    rw [Tree.getElem?_number hway] at habove
    cases habove
    exact ⟨_, hw, hnear⟩
  · rintro ⟨w, hw, hnear⟩
    obtain ⟨m, _, hm, _⟩ := h.record hw
    exact ⟨m, hm, (h.parent_eq_some_iff hw hm).mpr ⟨way, Tree.getElem?_number hway, hnear⟩⟩

theorem Flattens.children_pairwise (h : x.Flattens tree tree.ways)
    (hn : x.node? (tree.number way) = some n) : n.children.toList.Pairwise (· < ·) := by
  rw [h.children_eq hn]
  exact List.Pairwise.filter _ List.pairwise_lt_range

theorem nearestAbove_concat (hway : tree.Indexed way) (k : Nat) :
    tree.NearestAbove way (way ++ [k]) := by
  obtain ⟨hle, hne⟩ := Tree.proper_concat.mpr (List.prefix_refl way)
  exact ⟨hway, hle, hne, fun _ hle hne => Tree.proper_concat.mp ⟨hle, hne⟩⟩

/-- What has a record right above it, all of whose children have one, is such a child. -/
theorem eq_concat_of_nearestAbove (ht : tree.at? way = some t)
    (hplaced : ∀ k < t.offspring.length, tree.Indexed (way ++ [k])) {w : List Nat}
    (hnear : tree.NearestAbove way w) (hw : tree.Indexed w) :
    ∃ k < t.offspring.length, w = way ++ [k] := by
  obtain ⟨rest, rfl⟩ := hnear.leads
  cases rest with
  | nil => exact absurd (List.append_nil way).symm hnear.ne
  | cons k rest =>
    obtain ⟨u, _, hu, _⟩ := hw.placed
    rw [Tree.at?_append, ht, Option.bind_some] at hu
    obtain ⟨c, hc, _⟩ := Option.bind_eq_some_iff.mp hu
    have hk := (List.getElem?_eq_some_iff.mp hc).1
    refine ⟨k, hk, ?_⟩
    by_contra hne
    have hle : way ++ [k] <+: way ++ k :: rest := ⟨rest, by simp⟩
    have hback := (hnear.nearest (hplaced k hk) hle (Ne.symm hne)).length_le
    rw [List.length_append, List.length_singleton] at hback
    omega

/-- If all children of a node have records, these are the children of its record. -/
theorem Flattens.children_eq_map (h : x.Flattens tree tree.ways) (hway : tree.Indexed way)
    (hn : x.node? (tree.number way) = some n) (ht : tree.at? way = some t)
    (hplaced : ∀ k < t.offspring.length, tree.Indexed (way ++ [k])) :
    n.children.toList = (List.range t.offspring.length).map fun k => tree.number (way ++ [k]) := by
  refine (h.children_pairwise hn).eq_of_mem_iff ?_ ?_
  · rw [List.pairwise_map]
    refine List.pairwise_lt_range.imp_of_mem fun hi hj hlt => ?_
    refine Tree.number_lt_number (hplaced _ (List.mem_range.mp hi))
      (hplaced _ (List.mem_range.mp hj)) ?_
    exact List.append_left_lt (List.cons_lt_cons_iff.mpr (.inl hlt))
  · intro j
    rw [h.mem_children_iff hway hn, List.mem_map]
    constructor
    · rintro ⟨w, hw, hnear⟩
      obtain ⟨k, hk, rfl⟩ := eq_concat_of_nearestAbove ht hplaced hnear
        (Tree.mem_ways.mp (List.mem_of_getElem? hw))
      exact ⟨k, List.mem_range.mpr hk, Tree.number_eq hw⟩
    · rintro ⟨k, hk, rfl⟩
      exact ⟨way ++ [k], Tree.getElem?_number (hplaced k (List.mem_range.mp hk)),
        nearestAbove_concat hway k⟩

theorem Flattens.children_head? (h : x.Flattens tree tree.ways) (hway : tree.Indexed way)
    (hn : x.node? (tree.number way) = some n) (hfirst : tree.Indexed (way ++ [0])) :
    n.children.toList.head? = some (tree.number (way ++ [0])) := by
  have hmem : tree.number (way ++ [0]) ∈ n.children.toList :=
    (h.mem_children_iff hway hn).mpr
      ⟨way ++ [0], Tree.getElem?_number hfirst, nearestAbove_concat hway 0⟩
  have hpairs := h.children_pairwise hn
  cases hchildren : n.children.toList with
  | nil =>
    rw [hchildren] at hmem
    cases hmem
  | cons a rest =>
    rw [hchildren] at hmem hpairs
    rcases List.mem_cons.mp hmem with heq | hmem
    · rw [heq, List.head?_cons]
    · have hlt := (List.pairwise_cons.mp hpairs).1 _ hmem
      obtain ⟨w, hw, hnear⟩ := (h.mem_children_iff hway hn).mp
        (by rw [hchildren]; exact List.mem_cons_self : a ∈ n.children.toList)
      obtain ⟨below, rfl⟩ := hnear.leads
      have hless : way ++ below < way ++ [0] := by
        obtain ⟨hi, hwi⟩ := List.getElem?_eq_some_iff.mp hw
        obtain ⟨hj, hwj⟩ := List.getElem?_eq_some_iff.mp (Tree.getElem?_number hfirst)
        have hordered := List.pairwise_iff_getElem.mp tree.ways_pairwise _ _ hi hj hlt
        rwa [hwi, hwj] at hordered
      cases below with
      | nil => exact absurd (List.append_nil way).symm hnear.ne
      | cons k below =>
        by_cases hsame : k :: below = [0]
        · rw [hsame] at hless
          exact absurd hless (List.lt_irrefl _)
        · have hbelow : [0] < k :: below := by
            rw [List.cons_lt_cons_iff]
            cases below with
            | nil =>
              simp only [List.cons.injEq, and_true] at hsame
              exact .inl (Nat.pos_of_ne_zero hsame)
            | cons l below =>
              rcases Nat.eq_zero_or_pos k with rfl | hk
              · exact .inr ⟨rfl, List.nil_lt_cons _ _⟩
              · exact .inl hk
          exact absurd hless (List.lt_asymm (List.append_left_lt hbelow))

/-- Related lists, where the second is looked up by the places in the first. -/
theorem forall₂_filterMap_range' {α β : Type} {R : α → β → Prop} {f : Nat → Option β}
    {as : List α} {i : Nat} (h : ∀ k a, as[k]? = some a → ∃ b, f (i + k) = some b ∧ R a b) :
    List.Forall₂ R as ((List.range' i as.length).filterMap f) := by
  induction as generalizing i with
  | nil => exact .nil
  | cons a rest ih =>
    obtain ⟨b, hb, hab⟩ := h 0 a rfl
    rw [Nat.add_zero] at hb
    rw [List.length_cons, List.range'_succ, List.filterMap_cons_some hb]
    refine .cons hab (ih fun k c hc => ?_)
    rw [Nat.add_assoc, Nat.add_comm 1]
    exact h (k + 1) c hc

namespace Mirrors

variable {u v : Tree} {span : Span}

theorem records (h : x.Mirrors tree) (hu : tree.at? way = some u) (hspan : u.placed? = some span) :
    ∃ n, x.Records tree way u n ∧ n.span = span := by
  have hway := Tree.getElem?_number (h.indexed hu hspan)
  obtain ⟨n, v, hn, hv, hkind, hname, hplaced⟩ := h.record hway
  obtain ⟨m, _, hm, _, hid, _⟩ := h.flattens.record hway
  rw [hn] at hm
  cases hm
  rw [hu] at hv
  cases hv
  exact ⟨n, ⟨hu, hn, hid, hkind, hname, hplaced⟩, Option.some.inj (hplaced.symm.trans hspan)⟩

theorem child (h : x.Mirrors tree) (hn : x.Records tree way u n) {k : Nat}
    (hv : u.offspring[k]? = some v) (hspan : v.placed? = some span) :
    ∃ m, x.Records tree (way ++ [k]) v m ∧ m.span = span := by
  refine h.records ?_ hspan
  rw [Tree.at?_append, hn.leads, Option.bind_some, Tree.at?, hv]
  rfl

theorem indexed_of_records (h : x.Mirrors tree) (hn : x.Records tree way u n) : tree.Indexed way :=
  h.indexed hn.leads hn.span

theorem parent? (h : x.Mirrors tree) (hn : x.Records tree way u n) {k : Nat} {m : NodeRecord}
    (hm : x.Records tree (way ++ [k]) v m) : x.parent? m.id = some n := by
  have hway := h.indexed_of_records hn
  have hparent : m.parent = some (tree.number way) :=
    (h.flattens.parent_eq_some_iff (Tree.getElem?_number (h.indexed_of_records hm)) hm.node).mpr
      ⟨way, Tree.getElem?_number hway, nearestAbove_concat hway k⟩
  rw [Index.parent?, hm.id, hm.node, Option.bind_some, hparent, Option.bind_some, hn.node]

theorem head?_children (h : x.Mirrors tree) (hn : x.Records tree way u n) {m : NodeRecord}
    (hm : x.Records tree (way ++ [0]) v m) : (x.children n.id).head? = some m := by
  have hfirst := h.flattens.children_head? (h.indexed_of_records hn) hn.node
    (h.indexed_of_records hm)
  obtain ⟨rest, hrest⟩ := List.head?_eq_some_iff.mp hfirst
  rw [Index.children, hn.id, hn.node, Option.map_some, Option.getD_some, hrest,
    List.filterMap_cons_some hm.node, List.head?_cons]

theorem children (h : x.Mirrors tree) (hn : x.Records tree way u n)
    (hplaced : ∀ v ∈ u.offspring, v.placed? ≠ none) :
    List.Forall₂ (fun v m => ∃ k, x.Records tree (way ++ [k]) v m) u.offspring
      (x.children n.id) := by
  have hrecords : ∀ k v, u.offspring[k]? = some v → ∃ m, x.Records tree (way ++ [k]) v m := by
    intro k v hv
    obtain ⟨span, hspan⟩ := Option.ne_none_iff_exists'.mp (hplaced v (List.mem_of_getElem? hv))
    obtain ⟨m, hm, _⟩ := h.child hn hv hspan
    exact ⟨m, hm⟩
  have hnumbers := h.flattens.children_eq_map (h.indexed_of_records hn) hn.node hn.leads (by
    intro k hk
    obtain ⟨m, hm⟩ := hrecords k _ (List.getElem?_eq_getElem hk)
    exact h.indexed_of_records hm)
  rw [Index.children, hn.id, hn.node, Option.map_some, Option.getD_some, hnumbers,
    List.filterMap_map, List.range_eq_range']
  refine forall₂_filterMap_range' fun k v hv => ?_
  obtain ⟨m, hm⟩ := hrecords k v hv
  exact ⟨m, by rw [Function.comp_apply, Nat.zero_add, hm.node], k, hm⟩

end Mirrors

end Index

/-- The index of a program that is read from an ordered tree has the tree's places. -/
theorem Program.ofCst_mirrors (source : String) (t : Cst)
    (h : ∀ n ∈ t.nodes, n.head.Orders (n.children.map Rose.head))
    (hstop : t.head.stop ≤ source.toUTF8.size) :
    let tree := (Program.ofCst source.toUTF8 t).toTree
    (Index.ofTree tree source).Mirrors tree := by
  have hcovers : Grid.Covers ⟨source.toUTF8, false⟩ t := ⟨h, fun hscopes => by cases hscopes⟩
  have hlaid : Grid.Laid ⟨source.toUTF8, false⟩ ⟨1, source.toUTF8.size + 1⟩
      [(Program.ofCst source.toUTF8 t).toTree] :=
    .placed rfl Grid.placed?_inner ⟨.refl _, ⟨Nat.le_refl 1, Nat.le_add_left 1 _⟩,
      fun hscopes => by cases hscopes⟩ (fun hkind => by cases hkind) (hcovers.laid_program hstop)
  exact ⟨Index.flattens_of_follows (IndexBuilder.ofTree_follows _ _),
    fun hway => Index.ofTree_placed hlaid source hway, fun hu hspan => hlaid.indexed hu hspan⟩

end ScriptLens
