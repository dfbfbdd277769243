import ScriptLens.Proofs.Text.Lines

/-! # Columns that do not fit

The byte of a line and column is the start of the line, the column added and one taken off. The sum
has to be a word before one is taken off. Where it is, the search finds the one offset of the line
and column or finds out that there is none; where it is not, there is no answer at all.
-/
namespace ScriptLens

namespace Text.Lines

variable {l : Lines} {line col : UInt64}

/-- Offsets are counted from one, and their lines and columns are those of their bytes. -/
theorem Ordered.exists_stands_iff (h : l.Ordered) {line col offset : Nat} :
    (∃ byte row start, l.Stands byte row start ∧ line = row + 1 ∧ col = byte - start + 1 ∧
      offset = byte + 1) ↔
      1 ≤ offset ∧ offset ≤ l.size + 1 ∧ l.lineCol offset = (line, col) := by
  constructor
  · rintro ⟨byte, row, start, hs, rfl, rfl, rfl⟩
    have hbyte := hs.le_size h
    rw [lineCol_succ hbyte, h.rowCol_of_stands hs]
    exact ⟨by omega, by omega, rfl⟩
  · rintro ⟨hone, hle, hlineCol⟩
    obtain ⟨byte, rfl⟩ : ∃ byte, offset = byte + 1 := ⟨offset - 1, by omega⟩
    have hbyte : byte ≤ l.size := by omega
    obtain ⟨start, hs, hcol⟩ := h.stands_rowCol hbyte
    rw [lineCol_succ hbyte, Prod.mk.injEq] at hlineCol
    exact ⟨byte, _, start, hs, hlineCol.1.symm, by rw [← hlineCol.2, hcol], rfl⟩

theorem Ordered.offsetAt?_exact (h : l.Ordered) (hsize : l.size + 1 < 2 ^ 32)
    (hword : l.startOf line + col.toNat < 2 ^ 64) :
    ∃ found, l.offsetAt? line col = .ok found ∧ ∀ offset, found = some offset ↔
      1 ≤ offset ∧ offset ≤ l.size + 1 ∧ l.lineCol offset = (line.toNat, col.toNat) := by
  obtain ⟨found, hfound, hiff⟩ := h.offsetAt?_ok hsize hword
  refine ⟨found, hfound, fun offset => ?_⟩
  rw [hiff, h.exists_stands_iff]

end Text.Lines

namespace Index

/-- A line and column are answered exactly as long as the start of the line and the column add up to
a word of 64 bits. The answer is then the one offset that is so many line feeds and then bytes into
the text, or that there is no such offset. -/
theorem ofTree_offsetAt?_overflows_iff (tree : Tree) (source : String)
    (hsize : source.toUTF8.size < 2 ^ 64) (line col : UInt64) :
    let x := ofTree tree source
    let bytes := source.toUTF8.data.toList
    let sum := x.lines.startOf line + col.toNat
    (x.offsetAt? line col = .error .byte ↔ 2 ^ 64 ≤ sum) ∧
    (source.toUTF8.size < 2 ^ 32 - 1 → sum < 2 ^ 64 →
      ∃ found, x.offsetAt? line col = .ok found ∧ ∀ offset, found = some offset ↔
        1 ≤ offset ∧ offset ≤ bytes.length + 1 ∧
          line.toNat = Text.rowAt bytes (offset - 1) + 1 ∧
          col.toNat = Text.columnAt bytes (offset - 1) + 1) := by
  intro x bytes sum
  have hordered : x.lines.Ordered := Text.Lines.ofBytes_ordered source.toUTF8
  refine ⟨hordered.offsetAt?_overflows_iff hsize, fun hfit hword => ?_⟩
  have hlength : bytes.length = x.lines.size := Array.length_toList
  have hshort : x.lines.size < 2 ^ 32 - 1 := hfit
  obtain ⟨found, hfound, hexact⟩ := hordered.offsetAt?_exact (by omega) hword
  refine ⟨found, hfound, fun offset => ?_⟩
  rw [hexact offset, hlength]
  apply and_congr_right
  intro hone
  apply and_congr_right
  intro hle
  obtain ⟨byte, rfl⟩ : ∃ byte, offset = byte + 1 := ⟨offset - 1, by omega⟩
  have hbyte : byte ≤ x.lines.size := by omega
  have hrowCol : x.lines.rowCol byte = (Text.rowAt bytes byte, Text.columnAt bytes byte) :=
    Text.Lines.rowCol_ofBytes source.toUTF8 hbyte
  rw [Text.Lines.lineCol_succ hbyte, hrowCol, Prod.mk.injEq, Nat.add_sub_cancel]
  exact ⟨fun h => ⟨h.1.symm, h.2.symm⟩, fun h => ⟨h.1.symm, h.2.symm⟩⟩

def twoLetters : String := "a\nb"

theorem twoLetters_offsetAt?_overflows :
    let x := ofTree (.leaf .program ⟨1, 4⟩ "" none) twoLetters
    x.offsetAt? 2 18446744073709551615 = .error .byte ∧
    ¬ ∀ line col : UInt64, ∃ found, x.offsetAt? line col = .ok found ∧
      ∀ offset, found = some offset → (x.lineCol offset).1 = line.toNat := by
  intro x
  have hoverflow : x.offsetAt? 2 18446744073709551615 = .error .byte := by decide +kernel
  refine ⟨hoverflow, fun hall => ?_⟩
  obtain ⟨found, hfound, _⟩ := hall 2 18446744073709551615
  rw [hoverflow] at hfound
  cases hfound

/-- The second line starts at byte two: two columns before the last there is an answer, and one
column before the last there is none any more. -/
theorem twoLetters_offsetAt?_overflows_iff :
    let x := ofTree (.leaf .program ⟨1, 4⟩ "" none) twoLetters
    twoLetters.toUTF8.size < 2 ^ 64 ∧ twoLetters.toUTF8.size < 2 ^ 32 - 1 ∧
    x.lines.startOf 2 = 2 ∧ x.offsetAt? 2 2 = .ok (some 4) ∧
    x.offsetAt? 2 18446744073709551613 = .ok none ∧
    x.offsetAt? 2 18446744073709551614 = .error .byte := by
  intro x
  have hsize : twoLetters.toUTF8.size < 2 ^ 64 := by decide +kernel
  have hfit : twoLetters.toUTF8.size < 2 ^ 32 - 1 := by decide +kernel
  have hstart : x.lines.startOf 2 = 2 := by decide +kernel
  have hall := ofTree_offsetAt?_overflows_iff (.leaf .program ⟨1, 4⟩ "" none) twoLetters hsize
  have hbytes : twoLetters.toUTF8.data.toList = [97, 10, 98] := by decide +kernel
  refine ⟨hsize, hfit, hstart, ?_, ?_, ?_⟩
  · obtain ⟨found, hfound, hexact⟩ := (hall 2 2).2 hfit (by rw [hstart]; decide)
    rw [hbytes] at hexact
    rw [hfound, (hexact 4).mpr (by decide)]
  · obtain ⟨found, hfound, hexact⟩ :=
      (hall 2 18446744073709551613).2 hfit (by rw [hstart]; decide)
    rw [hbytes] at hexact
    rw [hfound, Except.ok.injEq, Option.eq_none_iff_forall_ne_some]
    intro offset hoffset
    obtain ⟨_, hle, _, hcol⟩ := (hexact offset).mp hoffset
    have hshort : ∀ o ≤ 4, Text.columnAt [97, 10, 98] (o - 1) + 1 ≤ 4 := by decide
    have hcolumn := hshort offset hle
    rw [← hcol] at hcolumn
    exact absurd hcolumn (by decide)
  · exact (hall 2 18446744073709551614).1.mpr (by rw [hstart]; decide)

end Index

end ScriptLens
