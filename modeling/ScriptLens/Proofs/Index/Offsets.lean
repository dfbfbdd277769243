import ScriptLens.Proofs.Index.Search

/-! # Records under an offset

Where records with the same parent do not overlap, the records that hold an offset lie on
one way down from a root: no two of them are equally deep. The search through the sorted
records meets all of them, and the shortest one is the last of that way, also where
several of them have the same span.
-/
namespace ScriptLens

namespace Index

/-- Records with the same parent do not overlap, nor do the roots. -/
def SiblingsApart (x : Index) : Prop :=
  ∀ a ∈ x.nodes, ∀ b ∈ x.nodes, a.parent = b.parent → a.id ≠ b.id →
    ∀ offset, a.contains offset = true → b.contains offset = false

/-- The records that hold an offset, by their depth. -/
def holding (x : Index) (offset : Nat) : List NodeRecord :=
  (x.nodes.toList.filter (·.contains offset)).mergeSort fun a b => a.depth ≤ b.depth

section Built

variable {tree : Tree} {source : String}

theorem exists_parent {n : NodeRecord} (hn : n ∈ (ofTree tree source).nodes) {p : Nat}
    (hparent : n.parent = some p) :
    ∃ m ∈ (ofTree tree source).nodes, m.id = p ∧ n.depth = m.depth + 1 ∧ n.span.Within m.span ∧
      (ofTree tree source).path n.id = (ofTree tree source).path m.id ++ [n.id] := by
  have hnode := mem_nodes_iff.mp hn
  obtain ⟨hlt, m, hm, hdepth, hwithin⟩ := ofTree_parent hnode hparent
  have hid := ofTree_id hm
  refine ⟨m, Array.mem_of_getElem? hm, hid, hdepth, hwithin, ?_⟩
  rw [hid]
  exact path_of_child hnode hparent hlt

theorem contains_mono {n m : NodeRecord} (h : n.span.Within m.span) {offset : Nat}
    (hn : n.contains offset = true) : m.contains offset = true := by
  have hstart := h.start_le
  have hstop := h.stop_le
  simp only [NodeRecord.contains, Span.contains_iff] at *
  omega

theorem eq_of_id {n m : NodeRecord} (hn : n ∈ (ofTree tree source).nodes)
    (hm : m ∈ (ofTree tree source).nodes) (h : n.id = m.id) : n = m := by
  have hn' := mem_nodes_iff.mp hn
  rw [h, mem_nodes_iff.mp hm] at hn'
  exact (Option.some.inj hn').symm

theorem SiblingsApart.eq_of_depth (h : (ofTree tree source).SiblingsApart) {offset : Nat}
    {n m : NodeRecord} (hn : n ∈ (ofTree tree source).nodes)
    (hm : m ∈ (ofTree tree source).nodes) (hno : n.contains offset = true)
    (hmo : m.contains offset = true) (hdepth : n.depth = m.depth) : n = m := by
  induction hd : n.depth generalizing n m with
  | zero =>
    have hroot : ∀ k ∈ (ofTree tree source).nodes, k.depth = 0 → k.parent = none := by
      intro k hk hkd
      cases hparent : k.parent with
      | none => rfl
      | some p =>
        obtain ⟨q, _, _, hqd, _⟩ := exists_parent hk hparent
        omega
    by_contra hne
    have hid : n.id ≠ m.id := fun hid => hne (eq_of_id hn hm hid)
    have hparent : n.parent = m.parent := by
      rw [hroot n hn hd, hroot m hm (hdepth ▸ hd)]
    rw [h n hn m hm hparent hid offset hno] at hmo
    cases hmo
  | succ d ih =>
    have hparent : ∀ k ∈ (ofTree tree source).nodes, k.depth = d + 1 → ∃ p, k.parent = some p := by
      intro k hk hkd
      cases hkp : k.parent with
      | none =>
        have hzero := (ofTree_root (mem_nodes_iff.mp hk) hkp).2
        omega
      | some p => exact ⟨p, rfl⟩
    obtain ⟨p, hp⟩ := hparent n hn hd
    obtain ⟨q, hq⟩ := hparent m hm (hdepth ▸ hd)
    obtain ⟨np, hnp, hnpid, hnpd, hnpw, _⟩ := exists_parent hn hp
    obtain ⟨mp, hmp, hmpid, hmpd, hmpw, _⟩ := exists_parent hm hq
    have hsame : np = mp :=
      ih hnp hmp (contains_mono hnpw hno) (contains_mono hmpw hmo) (by omega) (by omega)
    by_contra hne
    have hid : n.id ≠ m.id := fun hid => hne (eq_of_id hn hm hid)
    have hpq : n.parent = m.parent := by
      rw [hp, hq, ← hnpid, ← hmpid, hsame]
    rw [h n hn m hm hpq hid offset hno] at hmo
    cases hmo

/-- Of two records that hold the same offset the less deep one is on the way to the other. -/
theorem SiblingsApart.mem_path (h : (ofTree tree source).SiblingsApart) {offset : Nat}
    {n m : NodeRecord} (hn : n ∈ (ofTree tree source).nodes)
    (hm : m ∈ (ofTree tree source).nodes) (hno : n.contains offset = true)
    (hmo : m.contains offset = true) (hdepth : m.depth ≤ n.depth) :
    m.id ∈ (ofTree tree source).path n.id ∧ n.span.Within m.span := by
  induction hd : n.depth generalizing n with
  | zero =>
    have heq := h.eq_of_depth hm hn hmo hno (by omega)
    subst heq
    have hends := (ofTree_path (mem_nodes_iff.mp hm)).ends
    exact ⟨List.mem_of_getLast? hends, .refl _⟩
  | succ d ih =>
    by_cases heqd : m.depth = n.depth
    · have heq := h.eq_of_depth hm hn hmo hno heqd
      subst heq
      have hends := (ofTree_path (mem_nodes_iff.mp hm)).ends
      exact ⟨List.mem_of_getLast? hends, .refl _⟩
    · cases hparent : n.parent with
      | none =>
        have hzero := (ofTree_root (mem_nodes_iff.mp hn) hparent).2
        omega
      | some p =>
        obtain ⟨np, hnp, _, hnpd, hnpw, hpath⟩ := exists_parent hn hparent
        obtain ⟨hmem, hwithin⟩ := ih hnp (contains_mono hnpw hno) (by omega) (by omega)
        rw [hpath]
        exact ⟨List.mem_append_left _ hmem, hnpw.trans hwithin⟩

theorem SiblingsApart.deepest (h : (ofTree tree source).SiblingsApart) {offset : Nat}
    {n m : NodeRecord} (hn : n ∈ (ofTree tree source).nodes)
    (hm : m ∈ (ofTree tree source).nodes) (hno : n.contains offset = true)
    (hmo : m.contains offset = true)
    (hbest : n.length < m.length ∨ n.length = m.length ∧ m.depth ≤ n.depth) :
    m.depth ≤ n.depth := by
  by_contra hdeeper
  obtain ⟨_, hwithin⟩ := h.mem_path hm hn hmo hno (by omega)
  have hstart := hwithin.start_le
  have hstop := hwithin.stop_le
  simp only [NodeRecord.length, Span.length] at hbest
  omega

theorem exists_path_records {n : NodeRecord} (hn : n ∈ (ofTree tree source).nodes) :
    ∃ ms : List NodeRecord, ms.map NodeRecord.id = (ofTree tree source).path n.id ∧
      (∀ m ∈ ms, m ∈ (ofTree tree source).nodes ∧ m.depth ≤ n.depth ∧ n.span.Within m.span) ∧
      ms.Pairwise fun a b => a.depth < b.depth := by
  induction hd : n.depth generalizing n with
  | zero =>
    cases hparent : n.parent with
    | none =>
      refine ⟨[n], ?_, ?_, List.pairwise_singleton _ _⟩
      · rw [path_of_root (mem_nodes_iff.mp hn) hparent]
        rfl
      · simp [hn, hd, Span.Within.refl]
    | some p =>
      obtain ⟨_, _, _, hdepth, _⟩ := exists_parent hn hparent
      omega
  | succ d ih =>
    cases hparent : n.parent with
    | none =>
      have hzero := (ofTree_root (mem_nodes_iff.mp hn) hparent).2
      omega
    | some p =>
      obtain ⟨np, hnp, _, hnpd, hnpw, hpath⟩ := exists_parent hn hparent
      have hnd : np.depth = d := by omega
      obtain ⟨ms, hids, hms, hdepths⟩ := ih hnp hnd
      refine ⟨ms ++ [n], ?_, ?_, ?_⟩
      · rw [List.map_append, hids, hpath]
        rfl
      · intro m hm
        rcases List.mem_append.mp hm with hm | hm
        · obtain ⟨hnode, hle, hwithin⟩ := hms m hm
          exact ⟨hnode, by omega, hnpw.trans hwithin⟩
        · rw [List.mem_singleton.mp hm]
          exact ⟨hn, by omega, .refl _⟩
      · rw [List.pairwise_append]
        refine ⟨hdepths, List.pairwise_singleton _ _, ?_⟩
        intro a ha b hb
        rw [List.mem_singleton.mp hb]
        have hle := (hms a ha).2.1
        omega

theorem SiblingsApart.eq_holding (h : (ofTree tree source).SiblingsApart) {offset : Nat}
    {ms : List NodeRecord}
    (hmem : ∀ m, m ∈ ms ↔ m ∈ (ofTree tree source).nodes ∧ m.contains offset = true)
    (hdepths : ms.Pairwise fun a b => a.depth < b.depth) :
    ms = (ofTree tree source).holding offset := by
  have hperm : ms.Perm ((ofTree tree source).holding offset) := by
    refine List.Perm.trans ?_ (List.mergeSort_perm _ _).symm
    rw [List.perm_ext_iff_of_nodup]
    · intro m
      rw [hmem, List.mem_filter, Array.mem_toList_iff]
    · exact hdepths.imp fun hlt heq => by simp [heq] at hlt
    · exact nodes_nodup.filter _
  have hsorted : ((ofTree tree source).holding offset).Pairwise fun a b => a.depth ≤ b.depth := by
    have hbool : ((ofTree tree source).holding offset).Pairwise
        fun a b => decide (a.depth ≤ b.depth) = true := by
      apply List.pairwise_mergeSort
      · intro a b c hab hbc
        simp only [decide_eq_true_eq] at *
        omega
      · intro a b
        simp only [Bool.or_eq_true, decide_eq_true_eq]
        omega
    exact hbool.imp of_decide_eq_true
  refine hperm.eq_of_pairwise ?_ (hdepths.imp Nat.le_of_lt) hsorted
  intro a b ha hb hab hba
  obtain ⟨hanode, hao⟩ := (hmem a).mp ha
  obtain ⟨hbnode, hbo⟩ := (hmem b).mp (hperm.mem_iff.mpr hb)
  exact h.eq_of_depth hanode hbnode hao hbo (Nat.le_antisymm hab hba)

end Built

/-- If siblings do not overlap, the node under an offset is the end of the way through all
records that hold the offset, and there is none only if no record holds it. -/
theorem ofTree_nodeAt? (tree : Tree) (source : String)
    (h : (ofTree tree source).SiblingsApart) (offset : Nat) :
    let x := ofTree tree source
    (x.nodeAt? offset = none ↔ ∀ m ∈ x.nodes, m.contains offset = false) ∧
    ∀ n, x.nodeAt? offset = some n →
      x.path n.id = (x.holding offset).map NodeRecord.id ∧
      ∀ m ∈ x.nodes, m.contains offset = true → m.id ∈ x.path n.id := by
  obtain ⟨hnone, hsome⟩ := nodeAt?_spec tree source offset
  refine ⟨hnone, ?_⟩
  intro n hn
  obtain ⟨hnode, hno, hbest⟩ := hsome n hn
  have hway : ∀ m ∈ (ofTree tree source).nodes, m.contains offset = true →
      m.id ∈ (ofTree tree source).path n.id := by
    intro m hm hmo
    have hle : m.depth ≤ n.depth := by
      by_cases hsame : m = n
      · exact hsame ▸ Nat.le_refl _
      · exact h.deepest hnode hm hno hmo (hbest m hm hmo hsame).length_le
    exact (h.mem_path hnode hm hno hmo hle).1
  refine ⟨?_, hway⟩
  obtain ⟨ms, hids, hms, hdepths⟩ := exists_path_records hnode
  rw [← hids, h.eq_holding ?_ hdepths]
  intro m
  constructor
  · intro hm
    obtain ⟨hmnode, _, hwithin⟩ := hms m hm
    exact ⟨hmnode, contains_mono hwithin hno⟩
  · rintro ⟨hmnode, hmo⟩
    have hid := hway m hmnode hmo
    rw [← hids] at hid
    obtain ⟨k, hk, hkid⟩ := List.mem_map.mp hid
    rw [← eq_of_id (hms k hk).1 hmnode hkid]
    exact hk

/-- A root without a place over two nodes; the second has the span of its only child, which
holds two leaves side by side and an empty one. -/
def stacked : Tree :=
  .inner .program .nowhere "" [
    .leaf .thisExpression ⟨1, 3⟩ "" none,
    .inner .expressionStatement ⟨3, 9⟩ "" [.inner .binaryExpression ⟨3, 9⟩ "" [
      .leaf .identifier ⟨3, 5⟩ "a" (some "a"), .leaf .identifier ⟨5, 5⟩ "" none,
      .leaf .identifier ⟨5, 9⟩ "bc" (some "bc")]]]

theorem stacked_nodeAt? :
    let x := ofTree stacked "this+abc"
    x.SiblingsApart ∧ ∃ n, x.nodeAt? 5 = some n ∧ n.id = 5 ∧
      x.path n.id = (x.holding 5).map NodeRecord.id ∧ x.path n.id = [1, 2, 5] := by
  intro x
  have hspans : ∀ a ∈ x.nodes.toList, ∀ b ∈ x.nodes.toList, a.parent = b.parent → a.id ≠ b.id →
      a.span.stop ≤ b.span.start ∨ b.span.stop ≤ a.span.start := by
    decide +kernel
  have hapart : x.SiblingsApart := by
    intro a ha b hb hparent hid offset hao
    have hspan := hspans a (Array.mem_toList_iff.mpr ha) b (Array.mem_toList_iff.mpr hb) hparent hid
    simp only [NodeRecord.contains, Span.contains_iff] at hao
    simp only [NodeRecord.contains, Span.contains, Bool.and_eq_false_imp, decide_eq_true_eq,
      decide_eq_false_iff_not]
    omega
  obtain ⟨hnone, hsome⟩ := ofTree_nodeAt? stacked "this+abc" hapart 5
  have hholds : ∃ m ∈ x.nodes.toList, m.id = 5 ∧ m.contains 5 = true := by decide +kernel
  obtain ⟨m, hm, hmid, hmo⟩ := hholds
  rw [Array.mem_toList_iff] at hm
  have hfound : x.nodeAt? 5 ≠ none := by
    intro h
    rw [hnone.mp h m hm] at hmo
    cases hmo
  obtain ⟨n, hn⟩ := Option.ne_none_iff_exists'.mp hfound
  obtain ⟨hway, hmem⟩ := hsome n hn
  have hpath := hmem m hm hmo
  have honly : ∀ k ∈ x.nodes.toList, 5 ∈ x.path k.id → k.id = 5 ∧ x.path k.id = [1, 2, 5] := by
    decide +kernel
  have hnode := ((nodeAt?_spec stacked "this+abc" 5).2 n hn).1
  obtain ⟨hid, hpathn⟩ := honly n (Array.mem_toList_iff.mpr hnode) (hmid ▸ hpath)
  exact ⟨hapart, n, hn, hid, hway, hpathn⟩

end Index

end ScriptLens
