import ScriptLens.Proofs.Completion.Contexts
import ScriptLens.Proofs.Snapshot.Points

/-! # What has been typed

The token from which a context comes holds the byte of the cursor or the byte before it. So the
cursor stands in the token or right behind it, and what the context takes as typed is the part of
the token before the cursor.
-/
namespace ScriptLens

open Rose

/-- A word that contexts read: a name of a variable or of a property. -/
def CstHead.isWord (h : CstHead) : Bool :=
  ["identifier", "property_identifier", "private_property_identifier"].contains h.kind

/-- A tree over a text: its nodes have places in the text and the points of these, its
leaves begin and end between characters, and its words stand on one line each. -/
structure Cst.Over (t : Cst) (s : String) : Prop where
  ranges : ∀ n ∈ t.nodes, n.head.start ≤ n.head.stop ∧ n.head.stop ≤ s.toUTF8.size
  points : ∀ n ∈ t.nodes, n.head.startPoint = .ofByte s.toUTF8.data.toList n.head.start ∧
    n.head.stopPoint = .ofByte s.toUTF8.data.toList n.head.stop
  leaves : ∀ n ∈ t.nodes, n.children = [] →
    Text.isBoundary s.toUTF8 n.head.start = true ∧ Text.isBoundary s.toUTF8 n.head.stop = true
  words : ∀ n ∈ t.nodes, n.head.isWord = true →
    10 ∉ Text.bytesBetween s.toUTF8 n.head.start n.head.stop

/-- A leaf on one line, with a byte in it or right behind it that starts a character. -/
structure Cst.Touches (u : Cst) (s : String) (byte : Nat) : Prop where
  leaf : u.children = []
  start_le : u.head.start ≤ byte
  le_stop : byte ≤ u.head.stop
  stop_le : u.head.stop ≤ s.toUTF8.size
  startPoint : u.head.startPoint = .ofByte s.toUTF8.data.toList u.head.start
  stopPoint : u.head.stopPoint = .ofByte s.toUTF8.data.toList u.head.stop
  start : Text.isBoundary s.toUTF8 u.head.start = true
  byte : Text.isBoundary s.toUTF8 byte = true
  stop : Text.isBoundary s.toUTF8 u.head.stop = true
  feed : 10 ∉ Text.bytesBetween s.toUTF8 u.head.start u.head.stop

namespace Cst

variable {s : String} {t u : Cst} {maxDepth levels byte : Nat} {p : Point} {way : List Nat}

theorem typedBefore_of_inner {source : ByteArray} (hinner : u.children ≠ [])
    (cursor : Point) : (u.copy source levels).typedBefore cursor = "" := by
  have htext : (u.copy source levels).head.text.getD "" = "" := by
    rw [text_copy, if_neg (by rwa [List.isEmpty_iff])]
    rfl
  have hslice : ∀ stop, (Text.slice? "".toUTF8 0 stop).getD "" = "" := by
    intro stop
    rw [Text.slice?]
    split
    · have hnone : Text.bytesBetween "".toUTF8 0 stop = [] := by
        rw [Text.bytesBetween_eq, Text.toUTF8_data]
        simp [Text.encode]
      rw [Option.getD_some, Text.lossySlice, hnone]
      rfl
    · rfl
  rw [Snapshot.typedBefore, htext]
  split
  · rfl
  · exact hslice _

theorem Touches.typedBefore_copy (h : u.Touches s byte) :
    (u.copy s.toUTF8 levels).typedBefore (.ofByte s.toUTF8.data.toList byte) =
      Text.lossySlice s.toUTF8 u.head.start byte := by
  have hlength : s.toUTF8.data.toList.length = s.toUTF8.size := Array.length_toList
  obtain ⟨hleaf, hle, hle', hsize, hfrom, hto, hstart, hbyte, hstop, hfeed⟩ := h
  rw [Text.bytesBetween_append _ hle hle' (by omega), List.mem_append, not_or,
    Text.bytesBetween_eq, Text.bytesBetween_eq] at hfeed
  have hrow := (Text.rowAt_eq_iff hle).mpr hfeed.1
  have hrow' := (Text.rowAt_eq_iff hle').mpr hfeed.2
  have hcol := Text.columnAt_eq_add hle (by omega) hrow
  have hcol' := Text.columnAt_eq_add hle' (by omega) hrow'
  have hslice := Text.slice?_lossySlice hle hle' hstart hbyte hstop
  have htext : (u.copy s.toUTF8 levels).head.text.getD "" =
      Text.lossySlice s.toUTF8 u.head.start u.head.stop := by
    rw [text_copy, hleaf, List.isEmpty_nil, if_pos rfl, Option.getD_some,
      CstHead.covered_eq (Nat.le_trans hle hle') hsize]
  rw [Snapshot.typedBefore, htext, head_copy, CstHead.snapshot, hfrom, hto]
  simp only [Point.ofByte, ← hrow', hrow, ne_eq, not_true_eq_false, decide_false, Bool.false_or,
    decide_eq_true_eq]
  split
  · next hend =>
    have hsame : byte = u.head.stop := by omega
    rw [← hsame]
  · rw [show Text.columnAt s.toUTF8.data.toList byte -
      Text.columnAt s.toUTF8.data.toList u.head.start = byte - u.head.start by omega, hslice,
      Option.getD_some]

theorem Touches.typed_suffix (h : u.Touches s byte) :
    (Text.lossySlice s.toUTF8 u.head.start byte).toUTF8.data.toList <:+
        Text.lineBefore s.toUTF8.data.toList byte ∧
      (Text.lossySlice s.toUTF8 u.head.start byte).toList <+:
        (u.head.covered s.toUTF8).toList := by
  obtain ⟨hleaf, hle, hle', hsize, hfrom, hto, hstart, hbyte, hstop, hfeed⟩ := h
  rw [CstHead.covered_eq (Nat.le_trans hle hle') hsize]
  constructor
  · rw [Text.bytesBetween_append _ hle hle' (Nat.le_trans hle' hsize), List.mem_append, not_or,
      Text.bytesBetween_eq] at hfeed
    rw [Text.toUTF8_lossySlice hle hstart hbyte, Text.lineBefore_append hle hfeed.1,
      Text.bytesBetween_eq]
    exact List.suffix_append _ _
  · rw [Text.toList_lossySlice_append hle hle' hstart hbyte hstop]
    exact List.prefix_append _ _

theorem Under.between (h : t.Under s.toUTF8 maxDepth p way u)
    (hp : p ∈ Context.places (.ofByte s.toUTF8.data.toList byte))
    (hpoints : u.head.startPoint = .ofByte s.toUTF8.data.toList u.head.start ∧
      u.head.stopPoint = .ofByte s.toUTF8.data.toList u.head.stop)
    (hle : u.head.start ≤ u.head.stop) (hsize : u.head.stop ≤ s.toUTF8.size)
    (hbyte : byte ≤ s.toUTF8.size) : u.head.start ≤ byte ∧ byte ≤ u.head.stop := by
  have hlength : s.toUTF8.data.toList.length = s.toUTF8.size := Array.length_toList
  have hcursor : ∀ {k}, k ≤ s.toUTF8.size → p = .ofByte s.toUTF8.data.toList k →
      u.head.start ≤ k ∧ k < u.head.stop := by
    intro k hk hpk
    have hholds := h.holds
    rw [hpk] at hholds
    exact (CstHead.contains_snapshot_iff hpoints.1 hpoints.2 hle hsize hk).mp hholds
  rw [Context.places] at hp
  split at hp
  · obtain ⟨hstart, hstop⟩ := hcursor hbyte (List.mem_singleton.mp hp)
    omega
  · next hcol =>
    obtain ⟨hpos, hpred⟩ := Point.ofByte_pred (by omega) hcol
    rcases List.mem_cons.mp hp with hp | hp
    · obtain ⟨hstart, hstop⟩ := hcursor hbyte hp
      omega
    · obtain ⟨hstart, hstop⟩ := hcursor (by omega) ((List.mem_singleton.mp hp).trans hpred.symm)
      omega

theorem Over.typed_suffix (h : t.Over s) (hbyte : Text.isBoundary s.toUTF8 byte = true)
    (hp : p ∈ Context.places (.ofByte s.toUTF8.data.toList byte))
    (hunder : t.Under s.toUTF8 maxDepth p way u) (hword : u.head.isWord = true) :
    let typed := (u.copy s.toUTF8 levels).typedBefore
      (.ofByte s.toUTF8.data.toList byte)
    typed.toUTF8.data.toList <:+ Text.lineBefore s.toUTF8.data.toList byte ∧
      typed.toList <+: (u.head.covered s.toUTF8).toList := by
  intro typed
  have hu := mem_nodes_of_at? hunder.leads
  obtain ⟨hle, hstop⟩ := h.ranges u hu
  have hpoints := h.points u hu
  by_cases hleaf : u.children = []
  · have hsize : byte ≤ s.toUTF8.size := Text.le_size_of_isBoundary hbyte
    obtain ⟨hbefore, hbehind⟩ := hunder.between hp hpoints hle hstop hsize
    obtain ⟨hfirst, hlast⟩ := h.leaves u hu hleaf
    have htouches : u.Touches s byte :=
      ⟨hleaf, hbefore, hbehind, hstop, hpoints.1, hpoints.2, hfirst, hbyte, hlast,
        h.words u hu hword⟩
    have htyped : typed = Text.lossySlice s.toUTF8 u.head.start byte := htouches.typedBefore_copy
    rw [htyped]
    exact htouches.typed_suffix
  · have htyped : typed = "" := typedBefore_of_inner hleaf _
    rw [htyped, Text.toUTF8_data]
    exact ⟨List.nil_suffix, List.nil_prefix⟩

end Cst

namespace Context

/-- What a context takes as typed stands before the cursor on its line, and the identifier that
an identifier context comes from starts with it. -/
theorem ofCursor_typed (s : String) (t : Cst) (maxDepth byte : Nat) (h : t.Over s)
    (hbyte : Text.isBoundary s.toUTF8 byte = true) :
    let bytes := s.toUTF8.data.toList
    let cursor := Point.ofByte bytes byte
    let c := ofCursor (.ofCst s.toUTF8 maxDepth t) cursor
    c.kind ≠ .nothing →
      c.typed.toUTF8.data.toList <:+ Text.lineBefore bytes byte ∧
      (c.kind = .identifier → ∃ p ∈ places cursor, ∃ way token,
        t.Under s.toUTF8 maxDepth p way token ∧ token.head.kind = "identifier" ∧
        c.typed.toList <+: (token.head.covered s.toUTF8).toList) := by
  intro bytes cursor c hsome
  have hempty : ("" : String).toUTF8.data.toList <:+ Text.lineBefore bytes byte := by
    rw [Text.toUTF8_data]
    exact List.nil_suffix
  obtain ⟨p, hp, steps, hsteps, hclass⟩ := exists_of_ofCursor hsome
  obtain ⟨way, u, hunder, heq, hu⟩ := Cst.exists_under hsteps
  cases hclass with
  | property hc hkind =>
    obtain ⟨here, above, rest, base, rfl, hname, _, _, _, hc⟩ := inProperty?_eq_some hc
    have hnode := (Snapshot.steps_eq_cons hu heq.symm).1
    rw [hnode, SnapshotHead.isPropertyName, Cst.kind_copy] at hname
    have htyped : c.typed = here.node.typedBefore cursor := congrArg typed hc
    refine ⟨?_, fun hid => by cases hkind.symm.trans hid⟩
    rw [htyped, hnode]
    exact (h.typed_suffix hbyte hp hunder (by simp_all [CstHead.isWord])).1
  | dangling base _ hc =>
    have htyped : c.typed = "" := congrArg typed hc
    exact ⟨htyped ▸ hempty, fun hid => by cases hid.symm.trans (congrArg kind hc)⟩
  | identifier hc hkind =>
    obtain ⟨here, rest, rfl, hname, hc⟩ := inIdentifier?_eq_some hc
    have hnode := (Snapshot.steps_eq_cons hu heq.symm).1
    rw [hnode, Cst.kind_copy] at hname
    have htyped : c.typed = here.node.typedBefore cursor := congrArg typed hc
    rw [htyped, hnode]
    obtain ⟨hsuffix, hprefix⟩ := h.typed_suffix hbyte hp hunder (by simp [CstHead.isWord, hname])
    exact ⟨hsuffix, fun _ => ⟨p, hp, way, u, hunder, hname, hprefix⟩⟩
  | argument hc hkind =>
    obtain ⟨_, _, _, _, _, _, _, _, _, hc⟩ := inArguments?_eq_some hc
    have htyped : c.typed = "" := congrArg typed hc
    exact ⟨htyped ▸ hempty, fun hid => by cases hkind.symm.trans hid⟩

def wordLines : Cst :=
  let word (start stop : Nat) (startPoint stopPoint : Point) : Cst :=
    .node
      ⟨"expression_statement", none, start, stop, startPoint, stopPoint, true, false, false, false⟩
      [.node ⟨"identifier", none, start, stop, startPoint, stopPoint, true, false, false, false⟩ []]
  .node ⟨"program", none, 0, 7, ⟨0, 0⟩, ⟨1, 4⟩, true, false, false, false⟩
    [word 0 2 ⟨0, 0⟩ ⟨0, 2⟩, word 3 7 ⟨1, 0⟩ ⟨1, 4⟩]

def wordText : String := "é\nobé"

def wordContext : Context :=
  ofCursor (.ofCst wordText.toUTF8 Snapshot.defaultDepth wordLines)
    (.ofByte wordText.toUTF8.data.toList 5)

theorem wordContext_typed :
    wordLines.Over wordText ∧ Text.isBoundary wordText.toUTF8 5 = true ∧
    wordContext = ⟨.identifier, "", "", "ob", ⟨1, 2⟩⟩ ∧
    wordContext.typed.toUTF8.data.toList <:+ Text.lineBefore wordText.toUTF8.data.toList 5 ∧
    ∃ p ∈ places (.ofByte wordText.toUTF8.data.toList 5), ∃ way token,
      wordLines.Under wordText.toUTF8 Snapshot.defaultDepth p way token ∧
      token.head.kind = "identifier" ∧
      wordContext.typed.toList <+: (token.head.covered wordText.toUTF8).toList := by
  have hover : wordLines.Over wordText := by
    constructor
    all_goals decide +kernel
  have hbyte : Text.isBoundary wordText.toUTF8 5 = true := rfl
  have hc : wordContext = ⟨.identifier, "", "", "ob", ⟨1, 2⟩⟩ := rfl
  have hkind : wordContext.kind = .identifier := congrArg kind hc
  have hsome : wordContext.kind ≠ .nothing := by
    rw [hkind]
    exact ContextKind.noConfusion
  obtain ⟨hsuffix, htoken⟩ :=
    ofCursor_typed wordText wordLines Snapshot.defaultDepth 5 hover hbyte hsome
  exact ⟨hover, hbyte, hc, hsuffix, htoken hkind⟩

end Context

end ScriptLens
