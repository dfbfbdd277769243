import Mathlib.Algebra.Group.Nat.Defs
import Mathlib.Data.List.Induction
import Mathlib.Data.List.TakeWhile
import ScriptLens.Index.Build
import ScriptLens.Index.Query

/-! # Offsets by line and column

A byte stands on exactly one line: on the last one that starts no later than it. That line is
counted by the line feeds before the byte, and the column by the bytes behind the last of them.
So an offset and its line and column determine each other, for the line feed itself, on empty
lines and right behind the text, too; a line and column that no offset has are refused.
-/
namespace ScriptLens

namespace Text

theorem lineStartsAfter_append (pos : Nat) (as bs : List UInt8) :
    lineStartsAfter pos (as ++ bs) =
      lineStartsAfter pos as ++ lineStartsAfter (pos + as.length) bs := by
  induction as generalizing pos with
  | nil => rfl
  | cons a as ih =>
    have hpos : pos + 1 + as.length = pos + (a :: as).length := by
      rw [List.length_cons]
      omega
    rw [List.cons_append, lineStartsAfter, lineStartsAfter, ih, hpos]
    split <;> rfl

theorem length_lineStartsAfter (pos : Nat) (bytes : List UInt8) :
    (lineStartsAfter pos bytes).length = bytes.count 10 := by
  induction bytes generalizing pos with
  | nil => rfl
  | cons b bytes ih =>
    rw [lineStartsAfter, List.count_cons, ← ih (pos + 1)]
    split
    · next hfeed => simp [hfeed]
    · next hother => simp [hother]

theorem lineStartsAfter_bounds {pos start : Nat} {bytes : List UInt8}
    (h : start ∈ lineStartsAfter pos bytes) : pos < start ∧ start ≤ pos + bytes.length := by
  induction bytes generalizing pos with
  | nil => cases h
  | cons b bytes ih =>
    have hlater : start ∈ lineStartsAfter (pos + 1) bytes →
        pos < start ∧ start ≤ pos + (b :: bytes).length := by
      intro hmem
      obtain ⟨hlt, hle⟩ := ih hmem
      rw [List.length_cons]
      omega
    rw [lineStartsAfter] at h
    split at h
    · rcases List.mem_cons.mp h with rfl | hmem
      · rw [List.length_cons]
        omega
      · exact hlater hmem
    · exact hlater h

theorem lineStartsAfter_pairwise (pos : Nat) (bytes : List UInt8) :
    (lineStartsAfter pos bytes).Pairwise (· < ·) := by
  induction bytes generalizing pos with
  | nil => exact .nil
  | cons b bytes ih =>
    rw [lineStartsAfter]
    split
    · exact List.pairwise_cons.mpr ⟨fun start hmem => (lineStartsAfter_bounds hmem).1, ih _⟩
    · exact ih _

/-- The lines that start no later than a byte are those of the text before it. -/
theorem takeWhile_lineStartsAfter {bytes : List UInt8} {byte : Nat} (h : byte ≤ bytes.length) :
    (lineStartsAfter 0 bytes).takeWhile (· ≤ byte) = lineStartsAfter 0 (bytes.take byte) := by
  have hlength : (bytes.take byte).length = byte := List.length_take_of_le h
  have hbefore : ∀ start ∈ lineStartsAfter 0 (bytes.take byte), decide (start ≤ byte) = true := by
    intro start hmem
    have hle := (lineStartsAfter_bounds hmem).2
    simp only [decide_eq_true_eq]
    omega
  have hbehind : (lineStartsAfter (0 + (bytes.take byte).length) (bytes.drop byte)).takeWhile
      (· ≤ byte) = [] := by
    rw [List.takeWhile_eq_nil_iff]
    intro hpos hle
    have hlt := (lineStartsAfter_bounds (List.getElem_mem hpos)).1
    simp only [List.get_eq_getElem, decide_eq_true_eq] at hle
    omega
  conv_lhs => rw [← List.take_append_drop byte bytes]
  rw [lineStartsAfter_append, List.takeWhile_append_of_pos hbefore, hbehind, List.append_nil]

/-- The row of a byte: how many line feeds stand before it. -/
def rowAt (bytes : List UInt8) (byte : Nat) : Nat := (bytes.take byte).count 10

/-- The column of a byte: how many bytes stand between the last line feed before it and it. -/
def columnAt (bytes : List UInt8) (byte : Nat) : Nat :=
  ((bytes.take byte).reverse.takeWhile (· ≠ 10)).length

theorem rowAt_le (bytes : List UInt8) (byte : Nat) : rowAt bytes byte ≤ byte :=
  Nat.le_trans List.count_le_length (List.length_take_le _ _)

theorem getLastD_lineStartsAfter (bytes : List UInt8) :
    (0 :: lineStartsAfter 0 bytes).getLastD 0 + (bytes.reverse.takeWhile (· ≠ 10)).length =
      bytes.length := by
  induction bytes using List.reverseRecOn with
  | nil => rfl
  | append_singleton bytes b ih =>
    rw [lineStartsAfter_append, List.reverse_concat, List.takeWhile_cons, List.length_append]
    by_cases hfeed : b = 10
    · simp only [hfeed, lineStartsAfter, if_true, ← List.cons_append, List.getLastD_concat]
      simp
    · simp only [lineStartsAfter, hfeed, if_false, List.append_nil]
      simp only [List.length_singleton, ← ih]
      simp [hfeed]
      omega

namespace Lines

/-- The lines are in order, the first one starts the text, and none starts behind it. -/
structure Ordered (l : Lines) : Prop where
  first : l.starts[0]? = some 0
  ascending : l.starts.Pairwise (· < ·)
  bounded : ∀ start ∈ l.starts, start ≤ l.size

theorem ofBytes_ordered (source : ByteArray) : (ofBytes source).Ordered where
  first := rfl
  ascending := List.pairwise_cons.mpr
    ⟨fun _ hmem => (lineStartsAfter_bounds hmem).1, lineStartsAfter_pairwise _ _⟩
  bounded := by
    intro start hmem
    rcases List.mem_cons.mp hmem with rfl | hmem
    · exact Nat.zero_le _
    · have hle := (lineStartsAfter_bounds hmem).2
      rw [Array.length_toList, Nat.zero_add] at hle
      exact hle

/-- The line of this row starts there, and the byte belongs to it. -/
structure Stands (l : Lines) (byte row start : Nat) : Prop where
  begins : l.starts[row]? = some start
  start_le : start ≤ byte
  lt_limit : byte < l.limit row

variable {l : Lines} {byte row row' start start' : Nat}

theorem Ordered.limit_le (h : l.Ordered) (row : Nat) : l.limit row ≤ l.size + 1 := by
  rw [limit, List.getD_eq_getElem?_getD]
  cases hnext : l.starts[row + 1]? with
  | none => exact Nat.le_refl _
  | some next => exact Nat.le_succ_of_le (h.bounded next (List.mem_of_getElem? hnext))

theorem Stands.le_size (h : l.Ordered) (hs : l.Stands byte row start) : byte ≤ l.size := by
  have hlimit := h.limit_le row
  have hlt := hs.lt_limit
  omega

theorem Ordered.start_lt (h : l.Ordered) (hrow : l.starts[row]? = some start)
    (hrow' : l.starts[row']? = some start') (hlt : row < row') : start < start' := by
  obtain ⟨hi, rfl⟩ := List.getElem?_eq_some_iff.mp hrow
  obtain ⟨hj, rfl⟩ := List.getElem?_eq_some_iff.mp hrow'
  exact List.pairwise_iff_getElem.mp h.ascending row row' hi hj hlt

theorem Ordered.limit_le_start (h : l.Ordered) (hrow' : l.starts[row']? = some start')
    (hlt : row < row') : l.limit row ≤ start' := by
  have hnext : row + 1 < l.starts.length :=
    Nat.lt_of_le_of_lt hlt (List.getElem?_eq_some_iff.mp hrow').1
  have hlimit : l.starts[row + 1]? = some (l.limit row) := by
    rw [limit, List.getD_eq_getElem?_getD, List.getElem?_eq_getElem hnext, Option.getD_some]
  by_cases hsame : row' = row + 1
  · rw [hsame, hlimit] at hrow'
    exact Nat.le_of_eq (Option.some.inj hrow')
  · exact Nat.le_of_lt (h.start_lt hlimit hrow' (by omega))

theorem Stands.unique (h : l.Ordered) (hs : l.Stands byte row start)
    (hs' : l.Stands byte row' start') : row = row' ∧ start = start' := by
  have hlt := hs.lt_limit
  have hlt' := hs'.lt_limit
  have hle := hs.start_le
  have hle' := hs'.start_le
  have hrow : row = row' := by
    rcases Nat.lt_trichotomy row row' with hless | heq | hmore
    · have hbound := h.limit_le_start hs'.begins hless
      omega
    · exact heq
    · have hbound := h.limit_le_start hs.begins hmore
      omega
  subst hrow
  exact ⟨rfl, Option.some.inj (hs.begins.symm.trans hs'.begins)⟩

theorem Ordered.stands_rowCol (h : l.Ordered) (hbyte : byte ≤ l.size) :
    ∃ start, l.Stands byte (l.rowCol byte).1 start ∧ (l.rowCol byte).2 = byte - start := by
  obtain ⟨before, hbefore⟩ : ∃ before, before = l.starts.takeWhile (· ≤ byte) := ⟨_, rfl⟩
  obtain ⟨behind, hbehind⟩ : ∃ behind, behind = l.starts.dropWhile (· ≤ byte) := ⟨_, rfl⟩
  have hsplit : l.starts = before ++ behind := by
    rw [hbefore, hbehind, List.takeWhile_append_dropWhile]
  have hnonempty : before ≠ [] := by
    intro hnil
    obtain ⟨hpos, hzero⟩ := List.getElem?_eq_some_iff.mp h.first
    rw [hbefore, List.takeWhile_eq_nil_iff] at hnil
    exact hnil hpos (by simp [hzero])
  have hlength := List.length_pos_iff.mpr hnonempty
  have hlast : l.starts[before.length - 1]? = some (before.getLast hnonempty) := by
    rw [hsplit, List.getElem?_append_left (by omega), ← List.getLast?_eq_getElem?,
      List.getLast?_eq_some_getLast hnonempty]
  have hrowCol : l.rowCol byte = (before.length - 1, byte - before.getLast hnonempty) := by
    rw [rowCol, ← hbefore, List.getLastD_eq_getLast?, List.getLast?_eq_some_getLast hnonempty,
      Option.getD_some]
  rw [hrowCol]
  refine ⟨before.getLast hnonempty, ⟨hlast, ?_, ?_⟩, rfl⟩
  · have hmem := List.getLast_mem hnonempty
    conv at hmem => lhs; rw [hbefore]
    simpa using List.mem_takeWhile_imp hmem
  · rw [limit, Nat.sub_add_cancel hlength, hsplit, List.getD_eq_getElem?_getD,
      List.getElem?_append_right (Nat.le_refl _), Nat.sub_self]
    cases hnext : behind with
    | nil => exact Nat.lt_succ_of_le hbyte
    | cons next rest =>
      have hlater := List.head?_dropWhile_not (· ≤ byte) l.starts
      rw [← hbehind, hnext] at hlater
      simpa using hlater

theorem Ordered.rowCol_of_stands (h : l.Ordered) (hs : l.Stands byte row start) :
    l.rowCol byte = (row, byte - start) := by
  obtain ⟨start', hs', hcol⟩ := h.stands_rowCol (hs.le_size h)
  obtain ⟨hrow, rfl⟩ := hs.unique h hs'
  rw [hrow, ← hcol]

/-! ## Offsets of lines and columns -/

/-- Where a line starts, or zero if there is no such line. -/
def startOf (l : Lines) (line : UInt64) : Nat := l.starts.getD (line.toNat - 1) 0

theorem startOf_eq {line : UInt64} (h : l.starts[line.toNat - 1]? = some start) :
    l.startOf line = start := by
  rw [startOf, List.getD_eq_getElem?_getD, h, Option.getD_some]

theorem startOf_eq_zero {line : UInt64} (h : l.starts[line.toNat - 1]? = none) :
    l.startOf line = 0 := by
  rw [startOf, List.getD_eq_getElem?_getD, h, Option.getD_none]

theorem wordSum_of_lt {words a b : Nat} {overflow : Overflow} (h : a + b < words) :
    wordSum words overflow a b = .ok (a + b) := if_pos h

theorem wordSum_of_le {words a b : Nat} {overflow : Overflow} (h : words ≤ a + b) :
    wordSum words overflow a b = .error overflow := if_neg (Nat.not_lt_of_le h)

theorem eq_of_wordSum_error {words a b : Nat} {overflow other : Overflow}
    (h : wordSum words overflow a b = .error other) : overflow = other := by
  rw [wordSum] at h
  split at h
  · cases h
  · exact Except.error.inj h

theorem offsetAt?_of_zero {line col : UInt64} (h : line.toNat = 0 ∨ col.toNat = 0) :
    l.offsetAt? line col = .ok none := by
  apply if_pos
  simpa [← UInt64.toNat_inj] using h

theorem offsetAt?_of_none {line col : UInt64} (h : l.starts[line.toNat - 1]? = none) :
    l.offsetAt? line col = .ok none := by
  rw [offsetAt?]
  split
  · rfl
  · rw [h]

theorem offsetAt?_of_some {line col : UInt64} (hline : line.toNat ≠ 0) (hcol : col.toNat ≠ 0)
    (hstart : l.starts[line.toNat - 1]? = some start) :
    l.offsetAt? line col = do
      let byte := (← wordSum UInt64.size .byte start col.toNat) - 1
      if l.limit (line.toNat - 1) ≤ byte then return none
      else return some (← wordSum UInt32.size .offset (byte % UInt32.size) 1) := by
  have hsome : ¬ (line = 0 || col = 0) = true := by
    simpa [← UInt64.toNat_inj] using And.intro hline hcol
  rw [offsetAt?, if_neg hsome, hstart]

/-- The byte of a line and column is no word if and only if the start of the line and the column
add up to none. -/
theorem Ordered.offsetAt?_overflows_iff {line col : UInt64} (h : l.Ordered)
    (hsize : l.size < 2 ^ 64) :
    l.offsetAt? line col = .error .byte ↔ 2 ^ 64 ≤ l.startOf line + col.toNat := by
  have hcolumn := col.toNat_lt
  have hbound : l.startOf line < 2 ^ 64 := by
    cases hstart : l.starts[line.toNat - 1]? with
    | none => rw [startOf_eq_zero hstart]; omega
    | some start =>
      rw [startOf_eq hstart]
      exact Nat.lt_of_le_of_lt (h.bounded start (List.mem_of_getElem? hstart)) hsize
  by_cases hzero : line.toNat = 0 ∨ col.toNat = 0
  · rw [offsetAt?_of_zero hzero]
    have hfirst : line.toNat = 0 → l.startOf line = 0 := by
      intro hline
      apply startOf_eq
      rw [hline]
      exact h.first
    constructor
    · intro hoverflow
      cases hoverflow
    · intro hsum
      rcases hzero with hline | hcol
      · have hstart := hfirst hline
        omega
      · omega
  obtain ⟨hline, hcol⟩ := not_or.mp hzero
  cases hstart : l.starts[line.toNat - 1]? with
  | none =>
    rw [offsetAt?_of_none hstart, startOf_eq_zero hstart]
    constructor
    · intro hoverflow
      cases hoverflow
    · intro hsum
      omega
  | some start =>
    rw [offsetAt?_of_some hline hcol hstart, startOf_eq hstart]
    rcases Nat.lt_or_ge (start + col.toNat) (2 ^ 64) with hlt | hge
    · rw [wordSum_of_lt (show start + col.toNat < UInt64.size from hlt)]
      refine ⟨fun hoverflow => ?_, fun hge => absurd hlt (Nat.not_lt_of_le hge)⟩
      simp only [bind, Except.bind, pure, Except.pure] at hoverflow
      split at hoverflow
      · cases hoverflow
      · split at hoverflow
        · next herror =>
          cases hoverflow
          cases eq_of_wordSum_error herror
        · cases hoverflow
    · rw [wordSum_of_le (show UInt64.size ≤ start + col.toNat from hge)]
      exact ⟨fun _ => hge, fun _ => rfl⟩

/-- As long as the sum is a word there is an answer, and it is an offset if and only if its byte
stands on that line so far behind the start of it. -/
theorem Ordered.offsetAt?_ok {line col : UInt64} (h : l.Ordered) (hsize : l.size + 1 < 2 ^ 32)
    (hword : l.startOf line + col.toNat < 2 ^ 64) :
    ∃ found, l.offsetAt? line col = .ok found ∧ ∀ offset, found = some offset ↔
      ∃ byte row start, l.Stands byte row start ∧ line.toNat = row + 1 ∧
        col.toNat = byte - start + 1 ∧ offset = byte + 1 := by
  by_cases hzero : line.toNat = 0 ∨ col.toNat = 0
  · refine ⟨none, offsetAt?_of_zero hzero, fun offset => ⟨by simp, ?_⟩⟩
    rintro ⟨byte, row, start, _, hline, hcol, _⟩
    omega
  obtain ⟨hline, hcol⟩ := not_or.mp hzero
  cases hstart : l.starts[line.toNat - 1]? with
  | none =>
    refine ⟨none, offsetAt?_of_none hstart, fun offset => ⟨by simp, ?_⟩⟩
    rintro ⟨byte, row, start, hs, hrow, _, _⟩
    have hbegins := hs.begins
    rw [show row = line.toNat - 1 by omega, hstart] at hbegins
    cases hbegins
  | some start =>
    rw [startOf_eq hstart] at hword
    rw [offsetAt?_of_some hline hcol hstart,
      wordSum_of_lt (show start + col.toNat < UInt64.size from hword)]
    have hlimit := h.limit_le (line.toNat - 1)
    have hunique : ∀ {byte row start'}, l.Stands byte row start' → line.toNat = row + 1 →
        col.toNat = byte - start' + 1 → byte = start + col.toNat - 1 := by
      intro byte row start' hs hrow hcolumn
      have hbegins := hs.begins
      rw [show row = line.toNat - 1 by omega, hstart, Option.some.injEq] at hbegins
      have hle := hs.start_le
      omega
    by_cases hinside : start + col.toNat - 1 < l.limit (line.toNat - 1)
    · refine ⟨some (start + col.toNat), ?_, fun offset => ⟨?_, ?_⟩⟩
      · have hoffset : start + col.toNat - 1 < UInt32.size :=
          Nat.lt_of_lt_of_le hinside (by rw [UInt32.size]; omega)
        have hmod : (start + col.toNat - 1) % UInt32.size = start + col.toNat - 1 :=
          Nat.mod_eq_of_lt hoffset
        have hnext : start + col.toNat - 1 + 1 = start + col.toNat := by omega
        have hfits : start + col.toNat - 1 + 1 < UInt32.size := by rw [UInt32.size]; omega
        simp only [bind, Except.bind, if_neg (Nat.not_le_of_lt hinside), hmod,
          wordSum_of_lt hfits, hnext, pure,
          Except.pure]
      · intro hoffset
        cases hoffset
        exact ⟨start + col.toNat - 1, line.toNat - 1, start, ⟨hstart, by omega, hinside⟩,
          by omega, by omega, by omega⟩
      · rintro ⟨byte, row, start', hs, hrow, hcolumn, rfl⟩
        rw [hunique hs hrow hcolumn, Option.some.injEq]
        omega
    · refine ⟨none, ?_, fun offset => ⟨by simp, ?_⟩⟩
      · simp only [bind, Except.bind, if_pos (Nat.le_of_not_lt hinside), pure, Except.pure]
      · rintro ⟨byte, row, start', hs, hrow, hcolumn, rfl⟩
        have hlt := hs.lt_limit
        rw [hunique hs hrow hcolumn, show row = line.toNat - 1 by omega] at hlt
        exact absurd hlt hinside

theorem Stands.offsetAt? (hs : l.Stands byte row start) (h : l.Ordered)
    (hsize : l.size + 1 < 2 ^ 32) (hrow : row ≤ byte) :
    ∃ line col : UInt64, line.toNat = row + 1 ∧ col.toNat = byte - start + 1 ∧
      l.offsetAt? line col = .ok (some (byte + 1)) := by
  have hle := hs.start_le
  have hbyte := hs.le_size h
  have hline : (UInt64.ofNat (row + 1)).toNat = row + 1 := by
    rw [UInt64.toNat_ofNat', Nat.mod_eq_of_lt (by omega)]
  have hcol : (UInt64.ofNat (byte - start + 1)).toNat = byte - start + 1 := by
    rw [UInt64.toNat_ofNat', Nat.mod_eq_of_lt (by omega)]
  have hstart : l.startOf (UInt64.ofNat (row + 1)) = start := by
    apply startOf_eq
    rw [hline, Nat.add_sub_cancel]
    exact hs.begins
  have hword : l.startOf (UInt64.ofNat (row + 1)) + (UInt64.ofNat (byte - start + 1)).toNat <
      2 ^ 64 := by
    omega
  obtain ⟨found, hfound, hiff⟩ := h.offsetAt?_ok hsize hword
  refine ⟨_, _, hline, hcol, ?_⟩
  rw [hfound, (hiff (byte + 1)).mpr ⟨byte, row, start, hs, hline, hcol, rfl⟩]

theorem lineCol_succ (h : byte ≤ l.size) :
    l.lineCol (byte + 1) = ((l.rowCol byte).1 + 1, (l.rowCol byte).2 + 1) := by
  have hclamp : min (max (byte + 1) 1 - 1) l.size = byte := by omega
  rw [lineCol, hclamp]

theorem lineCol_of_lt {offset : Nat} (h : l.size + 1 < offset) :
    l.lineCol offset = l.lineCol (l.size + 1) := by
  have hclamp : min (max offset 1 - 1) l.size = l.size := by omega
  rw [lineCol_succ (Nat.le_refl _), lineCol, hclamp]

theorem rowCol_ofBytes (source : ByteArray) (h : byte ≤ source.size) :
    (ofBytes source).rowCol byte =
      (rowAt source.data.toList byte, columnAt source.data.toList byte) := by
  have hlength : byte ≤ source.data.toList.length := by
    rw [Array.length_toList]
    exact h
  have hbefore : (ofBytes source).starts.takeWhile (· ≤ byte) =
      0 :: lineStartsAfter 0 (source.data.toList.take byte) := by
    rw [ofBytes, List.takeWhile_cons_of_pos (by simp), takeWhile_lineStartsAfter hlength]
  have hlast := getLastD_lineStartsAfter (source.data.toList.take byte)
  rw [List.length_take_of_le hlength] at hlast
  rw [rowCol, hbefore, List.length_cons, length_lineStartsAfter, Nat.add_sub_cancel, rowAt,
    columnAt]
  exact congrArg _ (by omega)

end Lines

end Text

namespace Index

/-- Offset and line and column determine each other: each offset in the text or right behind it
has the row and column of its byte, counted from one, and these lead back to it; a line and
column whose sum is a word lead to an offset only if they are its line and column. All other
offsets are moved to the first or to the last of these. -/
theorem ofTree_lineCol_inverse (tree : Tree) (source : String)
    (hsize : source.toUTF8.size < 2 ^ 32 - 1) :
    let x := ofTree tree source
    let bytes := source.toUTF8.data.toList
    (∀ offset, 1 ≤ offset → offset ≤ bytes.length + 1 →
      x.lineCol offset =
        (Text.rowAt bytes (offset - 1) + 1, Text.columnAt bytes (offset - 1) + 1) ∧
      ∃ line col : UInt64, (line.toNat, col.toNat) = x.lineCol offset ∧
        x.offsetAt? line col = .ok (some offset)) ∧
    (∀ line col : UInt64, x.lines.starts.getD (line.toNat - 1) 0 + col.toNat < 2 ^ 64 →
      ∃ found, x.offsetAt? line col = .ok found ∧ ∀ offset, found = some offset →
        1 ≤ offset ∧ offset ≤ bytes.length + 1 ∧ x.lineCol offset = (line.toNat, col.toNat)) ∧
    x.lineCol 0 = x.lineCol 1 ∧
    ∀ offset, bytes.length + 1 < offset → x.lineCol offset = x.lineCol (bytes.length + 1) := by
  intro x bytes
  have hlength : bytes.length = x.lines.size := Array.length_toList
  have hfit : x.lines.size < 2 ^ 32 - 1 := hsize
  have hordered : x.lines.Ordered := Text.Lines.ofBytes_ordered source.toUTF8
  rw [hlength]
  refine ⟨?_, ?_, rfl, fun offset hlt => Text.Lines.lineCol_of_lt hlt⟩
  · intro offset hone hle
    obtain ⟨byte, rfl⟩ : ∃ byte, offset = byte + 1 := ⟨offset - 1, by omega⟩
    have hbyte : byte ≤ x.lines.size := by omega
    have hrowCol : x.lines.rowCol byte = (Text.rowAt bytes byte, Text.columnAt bytes byte) :=
      Text.Lines.rowCol_ofBytes source.toUTF8 hbyte
    have hrow := Text.rowAt_le bytes byte
    obtain ⟨start, hs, hcol⟩ := hordered.stands_rowCol hbyte
    rw [lineCol, Text.Lines.lineCol_succ hbyte]
    rw [hrowCol] at hs hcol ⊢
    obtain ⟨line, col, hline, hcolumn, hoffset⟩ := hs.offsetAt? hordered (by omega) hrow
    refine ⟨rfl, line, col, ?_, hoffset⟩
    rw [hline, hcolumn, hcol]
  · intro line col hword
    obtain ⟨found, hfound, hiff⟩ := hordered.offsetAt?_ok (by omega) hword
    refine ⟨found, hfound, fun offset hoffset => ?_⟩
    obtain ⟨byte, row, start, hs, hline, hcol, rfl⟩ := (hiff offset).mp hoffset
    have hbyte := hs.le_size hordered
    refine ⟨by omega, by omega, ?_⟩
    rw [lineCol, Text.Lines.lineCol_succ hbyte, hordered.rowCol_of_stands hs, hline, hcol]

/-- A text with a carriage return, a character of two bytes, an empty line and a line feed at its
end. -/
def brokenText : String := "a\r\né\n\n"

theorem brokenText_lineCol_inverse :
    let x := ofTree (.leaf .program ⟨1, 8⟩ "" none) brokenText
    brokenText.toUTF8.size < 2 ^ 32 - 1 ∧
    (x.lineCol 3 = (1, 3) ∧ x.lineCol 6 = (2, 3) ∧ x.lineCol 7 = (3, 1) ∧ x.lineCol 8 = (4, 1) ∧
      x.lineCol 9 = (4, 1)) ∧
    (∃ line col : UInt64, (line.toNat, col.toNat) = (3, 1) ∧ x.offsetAt? line col = .ok (some 7)) ∧
    x.offsetAt? 3 2 = .ok none := by
  intro x
  obtain ⟨bytes, hbytes⟩ : ∃ bytes, bytes = brokenText.toUTF8.data.toList := ⟨_, rfl⟩
  have hsize : brokenText.toUTF8.size < 2 ^ 32 - 1 := by decide +kernel
  obtain ⟨hforth, hback, _, hbehind⟩ :=
    ofTree_lineCol_inverse (.leaf .program ⟨1, 8⟩ "" none) brokenText hsize
  rw [← hbytes] at hforth hback hbehind
  have hvalue : bytes = [97, 13, 10, 195, 169, 10, 10] := by
    rw [hbytes]
    decide +kernel
  subst hvalue
  have hend := (hforth 8 (by decide) (by decide)).1
  refine ⟨hsize, ⟨?_, ?_, ?_, hend, ?_⟩, ?_, ?_⟩
  · exact (hforth 3 (by decide) (by decide)).1
  · exact (hforth 6 (by decide) (by decide)).1
  · exact (hforth 7 (by decide) (by decide)).1
  · rw [hbehind 9 (by decide)]
    exact hend
  · obtain ⟨hlineCol, line, col, hwords, hoffset⟩ := hforth 7 (by decide) (by decide)
    exact ⟨line, col, hwords.trans hlineCol, hoffset⟩
  · obtain ⟨found, hfound, hinverse⟩ := hback 3 2 (by decide +kernel)
    rw [hfound, Except.ok.injEq, Option.eq_none_iff_forall_ne_some]
    intro offset hoffset
    obtain ⟨hone, hle, hlineCol⟩ := hinverse offset hoffset
    rw [(hforth offset hone hle).1] at hlineCol
    have hnone : ∀ o ≤ 8, (Text.rowAt [97, 13, 10, 195, 169, 10, 10] (o - 1) + 1,
        Text.columnAt [97, 13, 10, 195, 169, 10, 10] (o - 1) + 1) ≠ (3, 2) := by
      decide
    exact hnone offset hle hlineCol

end Index

end ScriptLens
