import ScriptLens.Proofs.Index.Containment
import ScriptLens.Proofs.Index.Flattening

/-! # Nodes above a node

A node stands above another if it is reached from it by going from parent to parent; these are
the nodes on the way to it. In an index of a tree the numbers are in pre-order, so what stands
below a node has the numbers that follow it without a gap: a node that is above another is
above, or equal to, all that is numbered between the two.
-/
namespace ScriptLens

/-- In the order of ways, what stands between a way and one that goes on from it goes on from it
too. -/
theorem prefix_of_between {a b c : List Nat} (h : a <+: c) (hab : ¬ b < a) (hbc : ¬ c < b) :
    a <+: b := by
  induction a generalizing b c with
  | nil => exact List.nil_prefix
  | cons i a ih =>
    obtain ⟨rest, rfl⟩ := h
    cases b with
    | nil => exact absurd (List.nil_lt_cons i a) hab
    | cons j b =>
      simp only [List.cons_append, List.cons_lt_cons_iff, not_or, not_and] at hab hbc
      have hij : i = j := by omega
      subst hij
      exact List.cons_prefix_cons.mpr
        ⟨rfl, ih (List.prefix_append a rest) (hab.2 rfl) (hbc.2 rfl)⟩

namespace Index

inductive Above (x : Index) (above : Nat) : Nat → Prop
  | parent {id : Nat} {n : NodeRecord} (hn : x.node? id = some n)
      (hparent : n.parent = some above) : x.Above above id
  | beyond {id p : Nat} {n : NodeRecord} (hn : x.node? id = some n)
      (hparent : n.parent = some p) (h : x.Above above p) : x.Above above id

theorem above_iff {x : Index} {above id : Nat} {n : NodeRecord} (hn : x.node? id = some n) :
    x.Above above id ↔ ∃ p, n.parent = some p ∧ (above = p ∨ x.Above above p) := by
  constructor
  · rintro (⟨hm, hparent⟩ | ⟨hm, hparent, h⟩)
    · rw [hn] at hm
      cases hm
      exact ⟨above, hparent, .inl rfl⟩
    · rw [hn] at hm
      cases hm
      exact ⟨_, hparent, .inr h⟩
  · rintro ⟨p, hparent, rfl | h⟩
    · exact .parent hn hparent
    · exact .beyond hn hparent h

theorem Above.exists_node {x : Index} {above id : Nat} (h : x.Above above id) :
    ∃ n, x.node? id = some n := by
  cases h with
  | parent hn _ => exact ⟨_, hn⟩
  | beyond hn _ _ => exact ⟨_, hn⟩

theorem Above.exists_child {x : Index} {above id : Nat} (h : x.Above above id) :
    ∃ c n, x.node? c = some n ∧ n.parent = some above := by
  induction h with
  | parent hn hparent => exact ⟨_, _, hn, hparent⟩
  | beyond _ _ _ ih => exact ih

/-- Parents and children agree, and the numbers below a node follow it without a gap. -/
structure Forest (x : Index) : Prop where
  parent_lt : ∀ {id p : Nat} {n : NodeRecord}, x.node? id = some n → n.parent = some p →
    p < id ∧ ∃ m, x.node? p = some m
  children_eq : ∀ {id : Nat} {n : NodeRecord}, x.node? id = some n →
    n.children.toList = NodeRecord.numbersUnder x.nodes (some id)
  roots_eq : x.roots.toList = NodeRecord.numbersUnder x.nodes none
  between : ∀ {above id k : Nat}, above ∈ x.path id → above ≤ k → k ≤ id → above ∈ x.path k

namespace Forest

variable {x : Index} {above id : Nat} {n : NodeRecord}

theorem path_of_child (h : x.Forest) (hn : x.node? id = some n) {p : Nat}
    (hparent : n.parent = some p) : x.path id = x.path p ++ [id] :=
  Index.path_of_child hn hparent (h.parent_lt hn hparent).1

theorem mem_path_self (h : x.Forest) (hn : x.node? id = some n) : id ∈ x.path id := by
  cases hparent : n.parent with
  | none =>
    rw [path_of_root hn hparent]
    exact List.mem_singleton_self id
  | some p =>
    rw [h.path_of_child hn hparent]
    exact List.mem_append_right _ (List.mem_singleton_self id)

theorem exists_node_of_mem_path (hmem : above ∈ x.path id) : ∃ n, x.node? id = some n := by
  rw [path, List.mem_reverse, chain] at hmem
  split at hmem
  · cases hmem
  · next n hn => exact ⟨n, hn⟩

theorem mem_path_iff (h : x.Forest) (hn : x.node? id = some n) :
    above ∈ x.path id ↔ above = id ∨ x.Above above id := by
  induction id using Nat.strongRecOn generalizing n with
  | ind id ih =>
    rw [above_iff hn]
    cases hparent : n.parent with
    | none =>
      rw [path_of_root hn hparent]
      simp
    | some p =>
      obtain ⟨hlt, m, hm⟩ := h.parent_lt hn hparent
      rw [h.path_of_child hn hparent, List.mem_append, List.mem_singleton, ih p hlt hm]
      simp [or_comm]

theorem mem_dropLast_path (h : x.Forest) : above ∈ (x.path id).dropLast ↔ x.Above above id := by
  cases hnode : x.node? id with
  | none =>
    rw [path, chain, hnode]
    constructor
    · intro hmem
      cases hmem
    · intro habove
      obtain ⟨n, hn⟩ := habove.exists_node
      rw [hnode] at hn
      cases hn
  | some n =>
    rw [above_iff hnode]
    cases hparent : n.parent with
    | none =>
      rw [path_of_root hnode hparent]
      simp
    | some p =>
      obtain ⟨_, m, hm⟩ := h.parent_lt hnode hparent
      rw [h.path_of_child hnode hparent, List.dropLast_concat, h.mem_path_iff hm]
      simp

theorem lt_of_above (h : x.Forest) (habove : x.Above above id) : above < id := by
  induction habove with
  | parent hn hparent => exact (h.parent_lt hn hparent).1
  | beyond hn hparent _ ih => exact Nat.lt_trans ih (h.parent_lt hn hparent).1

theorem exists_above (h : x.Forest) (habove : x.Above above id) :
    ∃ m, x.node? above = some m := by
  obtain ⟨_, n, hn, hparent⟩ := habove.exists_child
  exact (h.parent_lt hn hparent).2

/-- All that is numbered up to a node below one of two siblings stands before the other. -/
theorem lt_of_siblings (h : x.Forest) {a b j : Nat} {m : NodeRecord} (hn : x.node? a = some n)
    (hm : x.node? b = some m) (hparent : n.parent = m.parent) (hlt : a < b)
    (hj : a ∈ x.path j) : j < b := by
  by_contra hle
  have hab := (h.mem_path_iff hm).mp (h.between hj (Nat.le_of_lt hlt) (Nat.not_lt.mp hle))
  rcases hab with rfl | hab
  · exact Nat.lt_irrefl _ hlt
  · obtain ⟨p, hp, hup⟩ := (above_iff hm).mp hab
    have hpa := (h.parent_lt hn (hparent.trans hp)).1
    rcases hup with rfl | hup
    · exact Nat.lt_irrefl _ hpa
    · exact Nat.lt_asymm hpa (h.lt_of_above hup)

end Forest

section Built

variable {tree : Tree} {source : String}

theorem ofTree_mem_path_iff {i j : Nat} {way other : List Nat} (hi : tree.ways[i]? = some way)
    (hj : tree.ways[j]? = some other) :
    i ∈ (ofTree tree source).path j ↔ way <+: other := by
  have hflat := flattens_of_follows (IndexBuilder.ofTree_follows tree (.ofBytes source.toUTF8))
  have hnodup : tree.ways.Nodup := hflat.preorder.imp fun hlt heq => by
    subst heq
    exact List.lt_irrefl _ hlt
  have hsame : ∀ {j : Nat} {other : List Nat}, tree.ways[j]? = some other →
      (i = j ↔ way = other) := by
    intro j other hj
    constructor
    · rintro rfl
      exact Option.some.inj (hi.symm.trans hj)
    · rintro rfl
      exact (List.getElem?_inj (List.getElem?_eq_some_iff.mp hi).1 hnodup).mp (hi.trans hj.symm)
  have hindexed : tree.Indexed way := (hflat.mem_iff way).mp (List.mem_of_getElem? hi)
  induction j using Nat.strongRecOn generalizing other with
  | ind j ih =>
    obtain ⟨n, _, hn, _⟩ := hflat.record hj
    cases hparent : n.parent with
    | none =>
      have hnone := (hflat.parent_eq_none_iff hj hn).mp hparent
      rw [path_of_root hn hparent, List.mem_singleton, hsame hj]
      constructor
      · rintro rfl
        exact List.prefix_refl way
      · intro hle
        by_contra hne
        exact hnone way hle hne hindexed
    | some p =>
      obtain ⟨near, hp, hnear⟩ := (hflat.parent_eq_some_iff hj hn).mp hparent
      have hlt := (ofTree_parent hn hparent).1
      have hup : i ∈ (ofTree tree source).path p ↔ way <+: near := ih p hlt hp
      rw [Index.path_of_child hn hparent hlt, List.mem_append, List.mem_singleton, hup, hsame hj]
      constructor
      · rintro (hle | rfl)
        · exact hle.trans hnear.leads
        · exact List.prefix_refl way
      · intro hle
        by_cases hne : way = other
        · exact .inr hne
        · exact .inl (hnear.nearest hindexed hle hne)

theorem ofTree_forest (tree : Tree) (source : String) : (ofTree tree source).Forest := by
  have hflat := flattens_of_follows (IndexBuilder.ofTree_follows tree (.ofBytes source.toUTF8))
  refine ⟨?_, hflat.children_eq, hflat.roots_eq, ?_⟩
  · intro id p n hn hparent
    obtain ⟨hlt, m, hm, _⟩ := ofTree_parent hn hparent
    exact ⟨hlt, m, hm⟩
  · intro above id k hmem hle hge
    obtain ⟨n, hn⟩ := Forest.exists_node_of_mem_path hmem
    have hid : id < tree.ways.length := by
      rw [← hflat.size_eq]
      exact lt_size_of_node? hn
    have hway : ∀ i ≤ id, ∃ way, tree.ways[i]? = some way := fun i hi =>
      ⟨_, List.getElem?_eq_getElem (Nat.lt_of_le_of_lt hi hid)⟩
    have hnot : ∀ {i j : Nat} {a b : List Nat}, i ≤ j → tree.ways[i]? = some a →
        tree.ways[j]? = some b → ¬ b < a := by
      intro i j a b hij ha hb hlt
      obtain ⟨hi, rfl⟩ := List.getElem?_eq_some_iff.mp ha
      obtain ⟨hj, rfl⟩ := List.getElem?_eq_some_iff.mp hb
      rcases Nat.lt_or_eq_of_le hij with hij | rfl
      · exact List.lt_asymm hlt (List.pairwise_iff_getElem.mp hflat.preorder i j hi hj hij)
      · exact List.lt_irrefl _ hlt
    obtain ⟨a, ha⟩ := hway above (Nat.le_trans hle hge)
    obtain ⟨b, hb⟩ := hway k hge
    obtain ⟨c, hc⟩ := hway id (Nat.le_refl id)
    rw [ofTree_mem_path_iff ha hb]
    exact prefix_of_between ((ofTree_mem_path_iff ha hc).mp hmem) (hnot hle ha hb) (hnot hge hb hc)

end Built

end Index

end ScriptLens
