import Mathlib.Data.List.TakeWhile
import ScriptLens.Proofs.Text.Lines
import ScriptLens.Proofs.Text.Utf8
import ScriptLens.Snapshot.Basic

/-! # Points of bytes

The points of the bytes of a text come in the order of the bytes. Bytes with no line feed between
them stand on one row, and there the columns are as far apart as the bytes.
-/
namespace ScriptLens

namespace Text

variable {bytes : List UInt8} {i j : Nat}

/-- What stands on the line of a byte before it. -/
def lineBefore (bytes : List UInt8) (byte : Nat) : List UInt8 :=
  ((bytes.take byte).reverse.takeWhile (· ≠ 10)).reverse

theorem length_lineBefore (bytes : List UInt8) (byte : Nat) :
    (lineBefore bytes byte).length = columnAt bytes byte := List.length_reverse

theorem rowAt_add (hle : i ≤ j) :
    rowAt bytes j = rowAt bytes i + ((bytes.take j).drop i).count 10 := by
  rw [rowAt, rowAt, ← List.count_append, take_append_between hle]

theorem rowAt_eq_iff (hle : i ≤ j) :
    rowAt bytes i = rowAt bytes j ↔ 10 ∉ (bytes.take j).drop i := by
  rw [rowAt_add hle, ← List.count_eq_zero]
  omega

theorem lineBefore_append (hle : i ≤ j) (hfeed : 10 ∉ (bytes.take j).drop i) :
    lineBefore bytes j = lineBefore bytes i ++ (bytes.take j).drop i := by
  have hall : ∀ b ∈ ((bytes.take j).drop i).reverse, decide (b ≠ 10) = true := by
    intro b hb
    simp only [decide_eq_true_eq]
    rintro rfl
    exact hfeed (List.mem_reverse.mp hb)
  rw [lineBefore, ← take_append_between hle, List.reverse_append,
    List.takeWhile_append_of_pos hall, List.reverse_append, List.reverse_reverse, lineBefore,
    take_append_between hle]

theorem columnAt_eq_add (hle : i ≤ j) (hj : j ≤ bytes.length)
    (hrow : rowAt bytes i = rowAt bytes j) :
    columnAt bytes j = columnAt bytes i + (j - i) := by
  rw [← length_lineBefore, ← length_lineBefore,
    lineBefore_append hle ((rowAt_eq_iff hle).mp hrow), List.length_append, List.length_drop,
    List.length_take_of_le hj]

end Text

namespace Point

variable {bytes : List UInt8} {i j : Nat}

def ofByte (bytes : List UInt8) (byte : Nat) : Point :=
  ⟨Text.rowAt bytes byte, Text.columnAt bytes byte⟩

theorem upTo_ofByte_iff (hi : i ≤ bytes.length) (hj : j ≤ bytes.length) :
    (ofByte bytes i).upTo (ofByte bytes j) = true ↔ i ≤ j := by
  simp only [upTo, Bool.or_eq_true, Bool.and_eq_true, decide_eq_true_eq, beq_iff_eq]
  simp only [ofByte]
  rcases Nat.lt_or_ge j i with hlt | hle
  · have hle := Nat.le_of_lt hlt
    have hrow := @Text.rowAt_add bytes j i hle
    have hcol := Text.columnAt_eq_add hle hi
    omega
  · have hrow := @Text.rowAt_add bytes i j hle
    have hcol := Text.columnAt_eq_add hle hj
    omega

theorem before_ofByte_iff (hi : i ≤ bytes.length) (hj : j ≤ bytes.length) :
    (ofByte bytes i).before (ofByte bytes j) = true ↔ i < j := by
  have hupTo := upTo_ofByte_iff hj hi
  simp only [upTo, before, Bool.or_eq_true, Bool.and_eq_true, decide_eq_true_eq,
    beq_iff_eq] at hupTo ⊢
  omega

/-- One column to the left of a byte stands the byte before it. -/
theorem ofByte_pred (hj : j ≤ bytes.length) (hcol : (ofByte bytes j).col ≠ 0) :
    0 < j ∧ ofByte bytes (j - 1) = ⟨(ofByte bytes j).row, (ofByte bytes j).col - 1⟩ := by
  cases j with
  | zero => exact absurd rfl hcol
  | succ i =>
    have hfeed : bytes[i] ≠ 10 := by
      intro hfeed
      apply hcol
      rw [ofByte, Text.columnAt, List.take_succ_eq_append_getElem hj, List.reverse_concat,
        List.takeWhile_cons_of_neg (by simp [hfeed]), List.length_nil]
    have hbetween : (bytes.take (i + 1)).drop i = [bytes[i]] := by
      rw [List.take_succ_eq_append_getElem hj, List.drop_left' (List.length_take_of_le (by omega))]
    have hle : i ≤ i + 1 := Nat.le_succ i
    have hrow : Text.rowAt bytes i = Text.rowAt bytes (i + 1) := by
      rw [Text.rowAt_eq_iff hle, hbetween, List.mem_singleton]
      exact Ne.symm hfeed
    have hcolumn := Text.columnAt_eq_add hle hj hrow
    refine ⟨Nat.succ_pos i, ?_⟩
    simp only [ofByte, Nat.add_sub_cancel, mk.injEq]
    exact ⟨hrow, by omega⟩

end Point

/-- A node with the points of its bytes holds the points of the bytes in it. -/
theorem CstHead.contains_snapshot_iff {source : ByteArray} {h : CstHead} {isLeaf : Bool}
    {byte : Nat} (hstart : h.startPoint = .ofByte source.data.toList h.start)
    (hstop : h.stopPoint = .ofByte source.data.toList h.stop) (hle : h.start ≤ h.stop)
    (hsize : h.stop ≤ source.size) (hbyte : byte ≤ source.size) :
    (h.snapshot source isLeaf).contains (.ofByte source.data.toList byte) = true ↔
      h.start ≤ byte ∧ byte < h.stop := by
  have hlength : source.data.toList.length = source.size := Array.length_toList
  rw [SnapshotHead.contains, Bool.and_eq_true, snapshot, hstart, hstop,
    Point.upTo_ofByte_iff (by omega) (by omega), Point.before_ofByte_iff (by omega) (by omega)]

end ScriptLens
