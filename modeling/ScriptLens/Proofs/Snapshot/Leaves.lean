import ScriptLens.Proofs.Snapshot.Copies
import ScriptLens.Proofs.Snapshot.Walk
import ScriptLens.Proofs.Text.Utf8
import ScriptLens.Text.Blank

/-! # Leaves and gaps

The leaves of a tree over a text stand one after the other. If nothing but blanks stands between
them, in front of them and behind them, their texts put together are the text apart from blanks.
-/
namespace ScriptLens

open Rose

namespace Text

def visible (text : List Char) : List Char := text.filter (!isBlank ·)

/-- The character of a text to which a byte of it belongs. -/
def charAt? : List Char → Nat → Option Char
  | [], _ => none
  | c :: rest, byte => if byte < c.utf8Size then some c else charAt? rest (byte - c.utf8Size)

theorem visible_append (p q : List Char) : visible (p ++ q) = visible p ++ visible q :=
  List.filter_append p q

theorem charAt?_append (p q : List Char) (c : Char) :
    charAt? (p ++ c :: q) (encode p).length = some c := by
  induction p with
  | nil => exact if_pos c.utf8Size_pos
  | cons d p ih =>
    rw [encode_cons, List.length_append, String.length_utf8EncodeChar, List.cons_append, charAt?,
      if_neg (by omega), Nat.add_sub_cancel_left, ih]

variable {s : String} {start stop : Nat}

theorem size_toUTF8 (s : String) : s.toUTF8.size = s.toUTF8.data.toList.length :=
  Array.length_toList.symm

theorem isBoundary_zero (s : String) : isBoundary s.toUTF8 0 = true := by
  rw [isBoundary_eq, toUTF8_data]
  exact splits_encode_append [] s.toList

theorem isBoundary_size (s : String) : isBoundary s.toUTF8 s.toUTF8.size = true := by
  rw [isBoundary_eq, size_toUTF8]
  exact splits_length _

theorem lossySlice_size (s : String) : lossySlice s.toUTF8 0 s.toUTF8.size = s := by
  rw [lossySlice, bytesBetween_eq, size_toUTF8, List.take_length, List.drop_zero, toUTF8_data,
    decode_encode, String.ofList_toList]

theorem length_encode_lossySlice (hle : start ≤ stop)
    (hstart : isBoundary s.toUTF8 start = true) (hstop : isBoundary s.toUTF8 stop = true) :
    (encode (lossySlice s.toUTF8 start stop).toList).length = stop - start := by
  have hsize := le_size_of_isBoundary hstop
  rw [size_toUTF8] at hsize
  rw [← toUTF8_data, toUTF8_lossySlice hle hstart hstop, bytesBetween_eq, List.length_drop,
    List.length_take_of_le hsize]

/-- A slice all of whose bytes belong to blanks shows nothing. -/
theorem visible_lossySlice_eq_nil (hle : start ≤ stop)
    (hstart : isBoundary s.toUTF8 start = true) (hstop : isBoundary s.toUTF8 stop = true)
    (hblank : ∀ byte, start ≤ byte → byte < stop →
      (charAt? s.toList byte).any isBlank = true) :
    visible (lossySlice s.toUTF8 start stop).toList = [] := by
  have hsize := le_size_of_isBoundary hstop
  have hsplit := toList_lossySlice_append (Nat.zero_le start) (Nat.le_trans hle hsize)
    (isBoundary_zero s) hstart (isBoundary_size s)
  rw [lossySlice_size, toList_lossySlice_append hle hsize hstart hstop (isBoundary_size s)]
    at hsplit
  have hbefore := length_encode_lossySlice (Nat.zero_le start) (isBoundary_zero s) hstart
  have hlength := length_encode_lossySlice hle hstart hstop
  generalize (lossySlice s.toUTF8 0 start).toList = before at hsplit hbefore
  generalize (lossySlice s.toUTF8 start stop).toList = cs at hsplit hlength
  rw [visible, List.filter_eq_nil_iff]
  intro c hc
  obtain ⟨us, vs, rfl⟩ := List.append_of_mem hc
  have hchar : charAt? s.toList (encode (before ++ us)).length = some c := by
    rw [hsplit, ← List.append_assoc, ← List.append_assoc, List.append_assoc, List.cons_append]
    exact charAt?_append (before ++ us) _ c
  have hpos := c.utf8Size_pos
  simp only [encode_append, encode_cons, List.length_append, String.length_utf8EncodeChar] at *
  have hc := hblank (start + (encode us).length) (by omega) (by omega)
  rw [← Nat.sub_zero start, ← hbefore, hchar, Option.any_some] at hc
  simp [hc]

end Text

namespace Cst

/-- The children of every node lie in it, one after the other. -/
structure InOrder (t : Cst) : Prop where
  start_le : ∀ n ∈ t.nodes, n.head.start ≤ n.head.stop
  inside : ∀ n ∈ t.nodes, ∀ c ∈ n.children,
    n.head.start ≤ c.head.start ∧ c.head.stop ≤ n.head.stop
  ordered : ∀ n ∈ t.nodes, n.children.Pairwise fun c d => c.head.stop ≤ d.head.start

/-- A tree over a text: its leaves begin and end between characters, and all bytes that are in
none of them belong to blanks. -/
structure Tiles (t : Cst) (s : String) : Prop extends t.InOrder where
  leaves : ∀ n ∈ t.nodes, n.children = [] →
    Text.isBoundary s.toUTF8 n.head.start = true ∧ Text.isBoundary s.toUTF8 n.head.stop = true
  gaps : ∀ byte < s.toUTF8.size,
    (∀ n ∈ t.nodes, n.children = [] → ¬ (n.head.start ≤ byte ∧ byte < n.head.stop)) →
      (Text.charAt? s.toList byte).any Text.isBlank = true

variable {t n : Cst} {s : String}

theorem mem_leaves : n ∈ t.leaves ↔ n ∈ t.nodes ∧ n.children = [] := by
  rw [leaves, List.mem_filter, List.isEmpty_iff]

theorem leaves_of_children (h : t.children ≠ []) : t.leaves = t.children.flatMap leaves := by
  rw [leaves, nodes_eq, List.filter_cons_of_neg (by simpa using h), List.filter_flatMap]
  rfl

namespace InOrder

theorem child (h : t.InOrder) {c : Cst} (hc : c ∈ t.children) : c.InOrder :=
  ⟨fun m hm => h.start_le m (mem_nodes_of_child hc hm),
    fun m hm => h.inside m (mem_nodes_of_child hc hm),
    fun m hm => h.ordered m (mem_nodes_of_child hc hm)⟩

theorem within (h : t.InOrder) (hn : n ∈ t.nodes) :
    t.head.start ≤ n.head.start ∧ n.head.stop ≤ t.head.stop := by
  induction t using children_induction with
  | step t ih =>
    rw [nodes_eq] at hn
    rcases List.mem_cons.mp hn with rfl | hn
    · exact ⟨Nat.le_refl _, Nat.le_refl _⟩
    · obtain ⟨c, hc, hn⟩ := List.mem_flatMap.mp hn
      obtain ⟨hstart, hstop⟩ := h.inside t t.mem_nodes_self c hc
      obtain ⟨hstart', hstop'⟩ := ih c hc (h.child hc) hn
      exact ⟨Nat.le_trans hstart hstart', Nat.le_trans hstop' hstop⟩

theorem pairwise_leaves (h : t.InOrder) :
    t.leaves.Pairwise fun a b => a.head.stop ≤ b.head.start := by
  induction t using children_induction with
  | step t ih =>
    by_cases hchildren : t.children = []
    · have hself : t.leaves = [t] := by simp [leaves, nodes_eq t, hchildren]
      rw [hself]
      exact List.pairwise_singleton _ _
    · rw [leaves_of_children hchildren, List.pairwise_flatMap]
      refine ⟨fun c hc => ih c hc (h.child hc), ?_⟩
      refine (List.pairwise_iff_forall_sublist.mpr ?_)
      intro c d hcd a ha b hb
      have hle := List.pairwise_iff_forall_sublist.mp (h.ordered t t.mem_nodes_self) hcd
      have hc := h.child (hcd.subset List.mem_cons_self)
      have hd := h.child (hcd.subset (List.mem_cons_of_mem _ List.mem_cons_self))
      have hstop := (hc.within (mem_leaves.mp ha).1).2
      have hstart := (hd.within (mem_leaves.mp hb).1).1
      exact Nat.le_trans hstop (Nat.le_trans hle hstart)

end InOrder

end Cst

/-- What is shown of a slice is shown by the leaves in it, if all else in it belongs to blanks. -/
theorem Text.visible_lossySlice {s : String} {ts : List Cst} {start stop : Nat}
    (hle : start ≤ stop) (hstart : isBoundary s.toUTF8 start = true)
    (hstop : isBoundary s.toUTF8 stop = true)
    (hinside : ∀ n ∈ ts, start ≤ n.head.start ∧ n.head.start ≤ n.head.stop ∧ n.head.stop ≤ stop)
    (hbounds : ∀ n ∈ ts, isBoundary s.toUTF8 n.head.start = true ∧
      isBoundary s.toUTF8 n.head.stop = true)
    (hordered : ts.Pairwise fun a b => a.head.stop ≤ b.head.start)
    (hgaps : ∀ byte, start ≤ byte → byte < stop →
      (∀ n ∈ ts, ¬ (n.head.start ≤ byte ∧ byte < n.head.stop)) →
        (charAt? s.toList byte).any isBlank = true) :
    visible (lossySlice s.toUTF8 start stop).toList =
      ts.flatMap fun n => visible (lossySlice s.toUTF8 n.head.start n.head.stop).toList := by
  induction ts generalizing start with
  | nil =>
    refine visible_lossySlice_eq_nil hle hstart hstop fun byte hlow hhigh => ?_
    exact hgaps byte hlow hhigh fun n hn => by cases hn
  | cons n rest ih =>
    obtain ⟨⟨hfront, hwhole, hback⟩, hinside⟩ := List.forall_mem_cons.mp hinside
    obtain ⟨⟨hn, hn'⟩, hbounds⟩ := List.forall_mem_cons.mp hbounds
    obtain ⟨hlater, hordered⟩ := List.pairwise_cons.mp hordered
    have hgap : visible (lossySlice s.toUTF8 start n.head.start).toList = [] := by
      refine visible_lossySlice_eq_nil hfront hstart hn fun byte hlow hhigh => ?_
      refine hgaps byte hlow (by omega) fun m hm => ?_
      rcases List.mem_cons.mp hm with rfl | hm
      · omega
      · have hm := hlater m hm
        omega
    have hrest := ih hback hn'
      (fun m hm => ⟨hlater m hm, (hinside m hm).2⟩) hbounds hordered fun byte hlow hhigh hout => by
        refine hgaps byte (by omega) hhigh fun m hm => ?_
        rcases List.mem_cons.mp hm with rfl | hm
        · omega
        · exact hout m hm
    rw [toList_lossySlice_append hfront (Nat.le_trans hwhole hback) hstart hn hstop,
      toList_lossySlice_append hwhole hback hn hn' hstop, visible_append, visible_append, hgap,
      List.nil_append, hrest, List.flatMap_cons]

/-- The leaf text of a snapshot that is not cut off, which is what a walk through it meets of
texts, is the source but for blanks, if the source is nothing but leaves and blanks. -/
theorem Snapshot.leafText_visible (s : String) (t : Cst) (h : t.Tiles s) (maxDepth : Nat)
    (hdepth : ∀ way n, t.at? way = some n → way.length < maxDepth) :
    let copy := Snapshot.ofCst s.toUTF8 maxDepth t
    copy.leafText =
      String.ofList (copy.walk.toList.flatMap fun n => (n.head.text.getD "").toList) ∧
    Text.visible copy.leafText.toList = Text.visible s.toList := by
  intro copy
  refine ⟨by rw [toList_walk]; rfl, ?_⟩
  have hcopy : copy.leafText = t.leafText s.toUTF8 :=
    Cst.leafText_copy (Rose.height_le_iff.mpr hdepth)
  have hbounds : ∀ n ∈ t.leaves, Text.isBoundary s.toUTF8 n.head.start = true ∧
      Text.isBoundary s.toUTF8 n.head.stop = true := fun n hn =>
    h.leaves n (Cst.mem_leaves.mp hn).1 (Cst.mem_leaves.mp hn).2
  have hinside : ∀ n ∈ t.leaves, 0 ≤ n.head.start ∧ n.head.start ≤ n.head.stop ∧
      n.head.stop ≤ s.toUTF8.size := fun n hn =>
    ⟨Nat.zero_le _, h.start_le n (Cst.mem_leaves.mp hn).1,
      Text.le_size_of_isBoundary (hbounds n hn).2⟩
  have hwhole := Text.visible_lossySlice (Nat.zero_le _) (Text.isBoundary_zero s)
    (Text.isBoundary_size s) hinside hbounds h.pairwise_leaves fun byte _ hbyte hout =>
      h.gaps byte hbyte fun n hn hleaf => hout n (Cst.mem_leaves.mpr ⟨hn, hleaf⟩)
  rw [Text.lossySlice_size] at hwhole
  rw [hcopy, hwhole, Cst.leafText, String.toList_ofList, Text.visible, List.filter_flatMap]
  refine List.flatMap_congr fun n hn => ?_
  obtain ⟨_, hle, hsize⟩ := hinside n hn
  rw [CstHead.covered_eq hle hsize]
  rfl

/-- A bracket that is left open, with a wide letter, a wide blank and a line break after it. -/
def wideBlank : String := "(é +\u3000b\n"

/-- The tree of that text. The parser missed the closing bracket, which is a leaf without width. -/
def wideBlankTree : Cst :=
  .node (.onLine "program" none 0 10 true false false true) [
    .node (.onLine "expression_statement" none 0 9 true false false true) [
      .node (.onLine "parenthesized_expression" none 0 9 true false false true) [
        Cst.token "(" none 0 1,
        Cst.named "binary_expression" none 1 9 [
          .named "identifier" (some "left") 1 3 [], .token "+" (some "operator") 4 5,
          .named "identifier" (some "right") 8 9 []],
        .node (.onLine ")" none 9 9 false false true true) []]]]

theorem wideBlank_leafText :
    let copy := Snapshot.ofCst wideBlank.toUTF8 5 wideBlankTree
    wideBlankTree.Tiles wideBlank ∧ wideBlankTree.height = 5 ∧
    copy.leafText = "(é+b" ∧
    copy.walk.toList.filterMap (·.head.text) = ["(", "é", "+", "b", ""] ∧
    Text.visible copy.leafText.toList = Text.visible wideBlank.toList := by
  intro copy
  have htiles : wideBlankTree.Tiles wideBlank :=
    { start_le := by decide
      inside := by decide
      ordered := by decide
      leaves := by decide +kernel
      gaps := by decide +kernel }
  have hheight : wideBlankTree.height = 5 := by decide
  obtain ⟨_, hvisible⟩ := Snapshot.leafText_visible wideBlank wideBlankTree htiles 5
    (Rose.height_le_iff.mp (Nat.le_of_eq hheight))
  refine ⟨htiles, hheight, by decide +kernel, ?_, hvisible⟩
  rw [Snapshot.toList_walk]
  decide +kernel

end ScriptLens
