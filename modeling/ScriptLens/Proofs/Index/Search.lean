import Mathlib.Data.List.Sort
import ScriptLens.Proofs.Index.Containment

/-! # The search for the node under an offset

The search goes through all records by their start, then by descending end, then by number,
and may end at the first record that starts behind the offset, since no later record holds it.
Of the records that hold the offset it keeps the shortest, of the shortest the deepest, and of
these the one that it has met first. So for overlapping and for equal spans, too, it is settled
which record is found.
-/
namespace ScriptLens

namespace NodeRecord

/-- Stands before another record in the order of positions. -/
def Precedes (a b : NodeRecord) : Prop :=
  a.span.start < b.span.start ∨ a.span.start = b.span.start ∧
    (b.span.stop < a.span.stop ∨ a.span.stop = b.span.stop ∧ a.id < b.id)

/-- Is the better of two records that hold an offset. -/
def Outranks (a b : NodeRecord) : Prop :=
  a.length < b.length ∨ a.length = b.length ∧
    (b.depth < a.depth ∨ a.depth = b.depth ∧ a.Precedes b)

instance (a b : NodeRecord) : Decidable (a.Precedes b) :=
  inferInstanceAs (Decidable (_ ∨ _ ∧ (_ ∨ _ ∧ _)))

instance (a b : NodeRecord) : Decidable (a.Outranks b) :=
  inferInstanceAs (Decidable (_ ∨ _ ∧ (_ ∨ _ ∧ _)))

theorem isBefore_trans (a b c : NodeRecord) (hab : a.isBefore b = true)
    (hbc : b.isBefore c = true) : a.isBefore c = true := by
  simp only [isBefore] at *
  grind

theorem isBefore_total (a b : NodeRecord) : (a.isBefore b || b.isBefore a) = true := by
  simp only [isBefore]
  grind

theorem precedes_of_isBefore {a b : NodeRecord} (h : a.isBefore b = true) (hid : a.id ≠ b.id) :
    a.Precedes b := by
  simp only [isBefore] at h
  unfold Precedes
  grind

theorem Precedes.start_le {a b : NodeRecord} (h : a.Precedes b) : a.span.start ≤ b.span.start := by
  unfold Precedes at h
  omega

theorem Precedes.trans {a b c : NodeRecord} (hab : a.Precedes b) (hbc : b.Precedes c) :
    a.Precedes c := by
  unfold Precedes at *
  omega

theorem Outranks.trans {a b c : NodeRecord} (hab : a.Outranks b) (hbc : b.Outranks c) :
    a.Outranks c := by
  have hprecedes : a.Precedes b → b.Precedes c → a.Precedes c := Precedes.trans
  unfold Outranks at *
  grind

theorem Outranks.length_le {a b : NodeRecord} (h : a.Outranks b) :
    a.length < b.length ∨ a.length = b.length ∧ b.depth ≤ a.depth := by
  unfold Outranks at h
  omega

theorem contains_eq_false_of_lt {n : NodeRecord} {offset : Nat} (h : offset < n.span.start) :
    n.contains offset = false := by
  simp only [contains, Span.contains, Bool.and_eq_false_imp, decide_eq_true_eq,
    decide_eq_false_iff_not]
  omega

end NodeRecord

/-- What starts behind an offset does not hold it, so a search through records sorted by
their start may end there. -/
theorem filter_takeWhile_contains {nodes : List NodeRecord} (offset : Nat)
    (h : nodes.Pairwise NodeRecord.Precedes) :
    (nodes.takeWhile (·.span.start ≤ offset)).filter (·.contains offset) =
      nodes.filter (·.contains offset) := by
  induction nodes with
  | nil => rfl
  | cons a rest ih =>
    obtain ⟨hfirst, hrest⟩ := List.pairwise_cons.mp h
    rw [List.takeWhile_cons]
    split
    · simp only [List.filter_cons, ih hrest]
    · next hbehind =>
      have hlt : offset < a.span.start := by simpa using hbehind
      have hnone : ∀ b ∈ a :: rest, b.contains offset = false := by
        intro b hb
        refine NodeRecord.contains_eq_false_of_lt (Nat.lt_of_lt_of_le hlt ?_)
        rcases List.mem_cons.mp hb with rfl | hb
        · exact Nat.le_refl _
        · exact (hfirst b hb).start_le
      have hfilter : (a :: rest).filter (·.contains offset) = [] := by
        rw [List.filter_eq_nil_iff]
        intro b hb
        simp [hnone b hb]
      rw [hfilter]
      rfl

namespace Index

theorem better_some {best n : NodeRecord} (h : best.Precedes n) :
    better (some best) n = some best ∧ best.Outranks n ∨
      better (some best) n = some n ∧ n.Outranks best := by
  simp only [better]
  split
  · next hkeep =>
    refine .inl ⟨rfl, ?_⟩
    simp only [Bool.or_eq_true, decide_eq_true_eq, Bool.and_eq_true, beq_iff_eq] at hkeep
    unfold NodeRecord.Outranks
    grind
  · next htake =>
    refine .inr ⟨rfl, ?_⟩
    simp only [Bool.or_eq_true, decide_eq_true_eq, Bool.and_eq_true, beq_iff_eq] at htake
    unfold NodeRecord.Outranks
    omega

theorem foldl_better {best : NodeRecord} {nodes : List NodeRecord}
    (h : (best :: nodes).Pairwise NodeRecord.Precedes) :
    ∃ n ∈ best :: nodes, nodes.foldl better (some best) = some n ∧
      ∀ m ∈ best :: nodes, m ≠ n → n.Outranks m := by
  induction nodes generalizing best with
  | nil => exact ⟨best, List.mem_cons_self, rfl, by simp⟩
  | cons a rest ih =>
    obtain ⟨hfirst, htail⟩ := List.pairwise_cons.mp h
    rw [List.foldl_cons]
    rcases better_some (hfirst a List.mem_cons_self) with ⟨hkeep, hbetter⟩ | ⟨htake, hbetter⟩
    · have hsub : (best :: rest).Sublist (best :: a :: rest) :=
        (List.sublist_cons_self a rest).cons_cons best
      obtain ⟨n, hn, hfold, hbest⟩ := ih (h.sublist hsub)
      rw [hkeep]
      refine ⟨n, hsub.subset hn, hfold, ?_⟩
      -- The record that has lost to the kept one loses to whatever beats the kept one.
      have hsecond : n.Outranks a := by
        by_cases hsame : best = n
        · exact hsame ▸ hbetter
        · exact (hbest best List.mem_cons_self hsame).trans hbetter
      intro m hm hne
      rcases List.mem_cons.mp hm with rfl | hm
      · exact hbest m List.mem_cons_self hne
      rcases List.mem_cons.mp hm with rfl | hm
      · exact hsecond
      · exact hbest m (List.mem_cons_of_mem _ hm) hne
    · obtain ⟨n, hn, hfold, hbest⟩ := ih htail
      rw [htake]
      refine ⟨n, List.mem_cons_of_mem _ hn, hfold, ?_⟩
      intro m hm hne
      rcases List.mem_cons.mp hm with rfl | hm
      · by_cases hsame : a = n
        · exact hsame ▸ hbetter
        · exact (hbest a List.mem_cons_self hsame).trans hbetter
      · exact hbest m hm hne

section Built

variable {tree : Tree} {source : String}

theorem ofTree_id {i : Nat} {n : NodeRecord} (hn : (ofTree tree source).node? i = some n) :
    n.id = i := by
  obtain ⟨b, hb, hnodes, _⟩ := ofTree_nested tree source
  rw [node?, hnodes] at hn
  exact hb.id_eq hn

theorem mem_nodes_iff {n : NodeRecord} :
    n ∈ (ofTree tree source).nodes ↔ (ofTree tree source).node? n.id = some n := by
  constructor
  · intro hn
    obtain ⟨i, hi⟩ := Array.mem_iff_getElem?.mp hn
    have hid : n.id = i := ofTree_id hi
    rw [hid]
    exact hi
  · exact Array.mem_of_getElem?

theorem ids_nodup : ((ofTree tree source).nodes.toList.map NodeRecord.id).Nodup := by
  rw [List.nodup_iff_getElem?_ne_getElem?]
  intro i j hij hj heq
  rw [List.length_map, Array.length_toList] at hj
  have hid : ∀ k, k < (ofTree tree source).nodes.size →
      ((ofTree tree source).nodes.toList.map NodeRecord.id)[k]? = some k := by
    intro k hk
    have hn : (ofTree tree source).node? k = some (ofTree tree source).nodes[k] :=
      Array.getElem?_eq_getElem hk
    rw [List.getElem?_map, Array.getElem?_toList, Array.getElem?_eq_getElem hk]
    exact congrArg some (ofTree_id hn)
  rw [hid i (Nat.lt_trans hij hj), hid j hj] at heq
  cases heq
  exact Nat.lt_irrefl _ hij

theorem nodes_nodup : (ofTree tree source).nodes.toList.Nodup := ids_nodup.of_map _

def searched (x : Index) : List NodeRecord := x.order.filterMap x.node?

theorem searched_eq :
    (ofTree tree source).searched =
      (ofTree tree source).nodes.toList.mergeSort NodeRecord.isBefore := by
  have horder : (ofTree tree source).order =
      ((ofTree tree source).nodes.toList.mergeSort NodeRecord.isBefore).map NodeRecord.id := rfl
  have hsame : ∀ n ∈ (ofTree tree source).nodes.toList.mergeSort NodeRecord.isBefore,
      ((ofTree tree source).node? ∘ NodeRecord.id) n = some n := by
    intro n hn
    rw [List.mem_mergeSort, Array.mem_toList_iff] at hn
    exact mem_nodes_iff.mp hn
  rw [searched, horder, List.filterMap_map, List.filterMap_congr hsame, List.filterMap_some]

theorem searched_perm : (ofTree tree source).searched.Perm (ofTree tree source).nodes.toList := by
  rw [searched_eq]
  exact List.mergeSort_perm _ _

theorem mem_searched {n : NodeRecord} :
    n ∈ (ofTree tree source).searched ↔ n ∈ (ofTree tree source).nodes :=
  searched_perm.mem_iff.trans Array.mem_toList_iff

theorem searched_pairwise : (ofTree tree source).searched.Pairwise NodeRecord.Precedes := by
  have hsorted := List.pairwise_mergeSort NodeRecord.isBefore_trans NodeRecord.isBefore_total
    (ofTree tree source).nodes.toList
  rw [← searched_eq] at hsorted
  have hids : ((ofTree tree source).searched.map NodeRecord.id).Nodup :=
    (searched_perm.map NodeRecord.id).nodup_iff.mpr ids_nodup
  refine (hsorted.and (List.pairwise_map.mp hids)).imp ?_
  rintro a b ⟨hbefore, hid⟩
  exact NodeRecord.precedes_of_isBefore hbefore hid

theorem nodeAt?_eq (offset : Nat) :
    (ofTree tree source).nodeAt? offset =
      ((ofTree tree source).searched.filter (·.contains offset)).foldl better none := by
  rw [nodeAt?, ← searched, filter_takeWhile_contains offset searched_pairwise]

theorem nodeAt?_spec (tree : Tree) (source : String) (offset : Nat) :
    ((ofTree tree source).nodeAt? offset = none ↔
      ∀ m ∈ (ofTree tree source).nodes, m.contains offset = false) ∧
    ∀ n, (ofTree tree source).nodeAt? offset = some n →
      n ∈ (ofTree tree source).nodes ∧ n.contains offset = true ∧
        ∀ m ∈ (ofTree tree source).nodes, m.contains offset = true → m ≠ n → n.Outranks m := by
  rw [nodeAt?_eq]
  have hmem : ∀ m, m ∈ (ofTree tree source).searched.filter (·.contains offset) ↔
      m ∈ (ofTree tree source).nodes ∧ m.contains offset = true := by
    intro m
    rw [List.mem_filter, mem_searched]
  have hsorted : ((ofTree tree source).searched.filter (·.contains offset)).Pairwise
      NodeRecord.Precedes := searched_pairwise.filter _
  cases hfound : (ofTree tree source).searched.filter (·.contains offset) with
  | nil =>
    rw [hfound] at hmem
    constructor
    · refine ⟨fun _ m hm => ?_, fun _ => rfl⟩
      have hnone := mt (hmem m).mpr List.not_mem_nil
      simpa [hm] using hnone
    · intro n hn
      cases hn
  | cons a rest =>
    rw [hfound] at hmem hsorted
    obtain ⟨n, hn, hfold, hbest⟩ := foldl_better hsorted
    have hstart : (a :: rest).foldl better none = rest.foldl better (some a) := rfl
    rw [hstart, hfold]
    obtain ⟨hnode, hcontains⟩ := (hmem n).mp hn
    constructor
    · constructor
      · intro h
        cases h
      · intro h
        rw [h n hnode] at hcontains
        cases hcontains
    · rintro _ ⟨⟩
      exact ⟨hnode, hcontains, fun m hm hmo => hbest m ((hmem m).mpr ⟨hm, hmo⟩)⟩

end Built

/-- The node under an offset is the shortest record that holds it, of the shortest the deepest,
and of these the first in the order of positions. There is none only if no record holds the
offset. All records are searched in that order, and those from the first one behind the offset
on do not hold it. -/
theorem ofTree_nodeAt?_outranks (tree : Tree) (source : String) (offset : Nat) :
    let x := ofTree tree source
    (x.nodeAt? offset = none ↔
      ∀ n ∈ x.nodes, ¬ (n.span.start ≤ offset ∧ offset < n.span.stop)) ∧
    (∀ r, x.nodeAt? offset = some r →
      r ∈ x.nodes ∧ (r.span.start ≤ offset ∧ offset < r.span.stop) ∧
      ∀ n ∈ x.nodes, n ≠ r → n.span.start ≤ offset → offset < n.span.stop → r.Outranks n) ∧
    (x.searched.Perm x.nodes.toList ∧ x.searched.Pairwise NodeRecord.Precedes) ∧
    ∀ before n behind, x.searched = before ++ n :: behind → offset < n.span.start →
      ∀ m ∈ n :: behind, ¬ (m.span.start ≤ offset ∧ offset < m.span.stop) := by
  intro x
  have hholds : ∀ n : NodeRecord,
      n.contains offset = true ↔ n.span.start ≤ offset ∧ offset < n.span.stop :=
    fun _ => Span.contains_iff
  obtain ⟨hnone, hsome⟩ := nodeAt?_spec tree source offset
  refine ⟨?_, ?_, ⟨searched_perm, searched_pairwise⟩, ?_⟩
  · simp only [x, hnone, ← hholds, Bool.not_eq_true]
  · intro r hr
    obtain ⟨hnode, hro, hbest⟩ := hsome r hr
    exact ⟨hnode, (hholds r).mp hro,
      fun n hn hne hstart hstop => hbest n hn ((hholds n).mpr ⟨hstart, hstop⟩) hne⟩
  · intro before n behind hsplit hlt m hm
    have hsorted : x.searched.Pairwise NodeRecord.Precedes := searched_pairwise
    rw [hsplit] at hsorted
    have hbehind := List.pairwise_cons.mp (List.pairwise_append.mp hsorted).2.1
    rcases List.mem_cons.mp hm with rfl | hm
    · omega
    · have hle := (hbehind.1 m hm).start_le
      omega

/-- Siblings that overlap: three nodes of one length share an offset, and one of them is a level
deeper. -/
def overlapping : Tree :=
  .inner .program ⟨1, 9⟩ "" [
    .leaf .thisExpression ⟨3, 6⟩ "" none, .leaf .superExpression ⟨2, 5⟩ "" none,
    .inner .expressionStatement ⟨4, 9⟩ "" [.leaf .nullLiteral ⟨4, 7⟩ "" none]]

theorem overlapping_nodeAt?_outranks :
    let x := ofTree overlapping "abcdefgh"
    (∃ r, x.nodeAt? 3 = some r ∧ r.id = 2) ∧ (∃ r, x.nodeAt? 4 = some r ∧ r.id = 4) ∧
      x.nodeAt? 9 = none := by
  intro x
  have hfound : ∀ offset id,
      (∃ n ∈ x.nodes.toList, n.span.start ≤ offset ∧ offset < n.span.stop) →
      (∀ r ∈ x.nodes.toList, r.span.start ≤ offset → offset < r.span.stop →
        (∀ n ∈ x.nodes.toList, n.id ≠ r.id → n.span.start ≤ offset → offset < n.span.stop →
          r.Outranks n) → r.id = id) →
      ∃ r, x.nodeAt? offset = some r ∧ r.id = id := by
    rintro offset id ⟨n, hn, hno⟩ honly
    obtain ⟨hnone, hsome, _⟩ := ofTree_nodeAt?_outranks overlapping "abcdefgh" offset
    obtain ⟨r, hr⟩ := Option.ne_none_iff_exists'.mp
      fun h => hnone.mp h n (Array.mem_toList_iff.mp hn) hno
    obtain ⟨hnode, ⟨hstart, hstop⟩, hbest⟩ := hsome r hr
    refine ⟨r, hr, honly r (Array.mem_toList_iff.mpr hnode) hstart hstop ?_⟩
    intro m hm hid
    exact hbest m (Array.mem_toList_iff.mp hm) fun heq => hid (congrArg NodeRecord.id heq)
  refine ⟨hfound 3 2 (by decide +kernel) (by decide +kernel),
    hfound 4 4 (by decide +kernel) (by decide +kernel), ?_⟩
  have hbehind : ∀ n ∈ x.nodes.toList, ¬ (n.span.start ≤ 9 ∧ 9 < n.span.stop) := by decide +kernel
  exact (ofTree_nodeAt?_outranks overlapping "abcdefgh" 9).1.mpr
    fun n hn => hbehind n (Array.mem_toList_iff.mpr hn)

end Index

end ScriptLens
