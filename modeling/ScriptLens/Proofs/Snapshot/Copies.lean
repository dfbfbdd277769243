import Mathlib.Data.List.Basic
import ScriptLens.Proofs.Snapshot.Ways

/-! # Texts of copies

In the copy of a tree the leaves have the texts that they cover in the source, and no other node
has a text. A copy of all levels has all leaves, so its text is that of the leaves of the tree.
-/
namespace ScriptLens

open Rose

/-- The text that a node covers, as far as it lies in the source. -/
def CstHead.covered (source : ByteArray) (h : CstHead) : String :=
  if h.start ≤ h.stop && h.stop ≤ source.size then Text.lossySlice source h.start h.stop else ""

theorem CstHead.covered_eq {source : ByteArray} {h : CstHead} (hle : h.start ≤ h.stop)
    (hsize : h.stop ≤ source.size) :
    h.covered source = Text.lossySlice source h.start h.stop := by
  rw [covered, if_pos]
  rw [Bool.and_eq_true, decide_eq_true_eq, decide_eq_true_eq]
  exact ⟨hle, hsize⟩

namespace Cst

def leafText (source : ByteArray) (t : Cst) : String :=
  String.ofList ((t.nodes.filter (·.children.isEmpty)).flatMap fun n =>
    (n.head.covered source).toList)

variable {source : ByteArray}

theorem text_copy (source : ByteArray) (levels : Nat) (t : Cst) :
    (t.copy source levels).head.text =
      if t.children.isEmpty then some (t.head.covered source) else none := by
  rw [head_copy]
  rfl

theorem leafText_of_leaf {t : Cst} (h : t.children = []) :
    t.leafText source = t.head.covered source := by
  rw [leafText, nodes_eq, h, List.flatMap_nil]
  simp [h]

/-- The copy of a whole tree has the texts of its leaves. -/
theorem leafText_copy {levels : Nat} {t : Cst} (h : t.height ≤ levels) :
    (t.copy source levels).leafText = t.leafText source := by
  rw [Snapshot.leafText, leafText]
  congr 1
  induction t using children_induction generalizing levels with
  | step t ih =>
    rw [nodes_eq, nodes_eq, List.flatMap_cons, head_copy, children_copy]
    cases hchildren : t.children with
    | nil => simp [hchildren, CstHead.snapshot, CstHead.covered]
    | cons c rest =>
      have hbound : ∀ d ∈ c :: rest, d.height ≤ levels - 1 := by
        intro d hd
        have hle := height_le_heights hd
        rw [height_eq, hchildren] at h
        omega
      have hlevels : ¬ levels ≤ 1 := by
        have hc := hbound c List.mem_cons_self
        rw [height_eq] at hc
        omega
      rw [if_neg hlevels]
      simp only [CstHead.snapshot, List.isEmpty_cons, Bool.false_eq_true, if_false,
        Option.getD_none, String.toList_empty, List.nil_append, List.filter_cons, hchildren,
        List.flatMap_map, List.flatMap_assoc, List.filter_flatMap]
      apply List.flatMap_congr
      intro d hd
      have hsame := ih d (by rw [hchildren]; exact hd) (hbound d hd)
      exact hsame

end Cst

end ScriptLens
