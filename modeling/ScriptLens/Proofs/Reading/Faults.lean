import Mathlib.Data.List.Forall2
import ScriptLens.Diagnostic
import ScriptLens.Proofs.Index.Ways
import ScriptLens.Proofs.Reading.Nodes

/-! # Which faults are reported

The search for faults goes through a tree with a cursor. It passes over what lies below a node
that is free of faults or reported as a whole, so it meets the nodes with neither of these above
them, and it meets them in pre-order. What lies ahead of the cursor is the invariant: one move
takes the first node off it, whether the cursor goes down, on or up. Nodes ahead get fewer with
every move, so the search ends.
-/
namespace ScriptLens

open Rose

namespace CstHead

/-- A text that fits nowhere, which is reported as a whole. -/
def IsRegion (h : CstHead) : Prop := h.isError = true ∧ h.isMissing = false

def Reports (source : ByteArray) (h : CstHead) (d : Diagnostic) : Prop :=
  (h.isMissing = true ∧ d = ⟨⟨h.start + 1, h.start + 1⟩, .missing h.kind⟩) ∨
    (h.IsRegion ∧ d = ⟨⟨h.start + 1, h.stop + 1⟩, .unexpected (excerpt (h.text source))⟩)

theorem isSearched_iff {h : CstHead} :
    h.isSearched = true ↔ h.hasError = true ∧ ¬ h.IsRegion := by
  rw [isSearched, IsRegion]
  cases h.isError <;> cases h.isMissing <;> simp

theorem diagnostic?_eq_some_iff {source : ByteArray} {h : CstHead} {d : Diagnostic} :
    h.diagnostic? source = some d ↔ h.Reports source d := by
  rw [diagnostic?, Reports, IsRegion, span]
  cases h.isError <;> cases h.isMissing <;> simp [eq_comm]

def isFaulty (h : CstHead) : Bool := h.isMissing || h.isError

theorem isSome_diagnostic? (source : ByteArray) (h : CstHead) :
    (h.diagnostic? source).isSome = h.isFaulty := by
  rw [diagnostic?, isFaulty]
  cases h.isError <;> cases h.isMissing <;> rfl

end CstHead

/-- A fault with no region above it, below nodes that all have faults reported in them. -/
structure Cst.Outermost (root : Cst) (way : List Nat) : Prop where
  faulty : ∃ t, root.at? way = some t ∧ (t.head.isMissing = true ∨ t.head.isError = true)
  exposed : ∀ {above : List Nat} {t : Cst}, above <+: way → above ≠ way →
    root.at? above = some t → t.head.hasError = true ∧ ¬ t.head.IsRegion

/-! ## The nodes that the search meets -/

mutual

/-- The nodes that the search meets, each with its way. -/
def Cst.met : Cst → List (List Nat × Cst)
  | .node head children =>
    ([], .node head children) :: if head.isSearched then Cst.metBelow 0 children else []

def Cst.metBelow : Nat → List Cst → List (List Nat × Cst)
  | _, [] => []
  | i, t :: rest => t.met.map (fun m => (i :: m.1, m.2)) ++ Cst.metBelow (i + 1) rest

end

namespace Cst

theorem metBelow_eq (i : Nat) (ts : List Cst) :
    metBelow i ts =
      (ts.zipIdx i).flatMap fun c => c.1.met.map fun m => (c.2 :: m.1, m.2) := by
  induction ts generalizing i with
  | nil => rfl
  | cons t rest ih => rw [metBelow, ih, List.zipIdx_cons, List.flatMap_cons]

theorem met_eq (t : Cst) :
    t.met = ([], t) :: if t.head.isSearched then
      t.children.zipIdx.flatMap fun c => (Cst.met c.1).map fun m => (c.2 :: m.1, m.2) else [] := by
  cases t with
  | node head children => rw [met, metBelow_eq, head_node, children_node]

theorem mem_met {t u : Cst} {way : List Nat} :
    (way, u) ∈ t.met ↔ t.at? way = some u ∧ ∀ {above : List Nat} {v : Cst}, above <+: way →
      above ≠ way → t.at? above = some v → v.head.isSearched = true := by
  induction way generalizing t with
  | nil =>
    rw [met_eq]
    constructor
    · intro hmem
      have hsame : u = t := by
        rcases List.mem_cons.mp hmem with heq | hmem
        · cases heq
          rfl
        · split at hmem
          · obtain ⟨_, _, hmem⟩ := List.mem_flatMap.mp hmem
            obtain ⟨_, _, heq⟩ := List.mem_map.mp hmem
            cases heq
          · cases hmem
      refine ⟨by rw [hsame, at?], ?_⟩
      intro above v hle hne
      exact absurd (List.prefix_nil.mp hle) hne
    · rintro ⟨hat, _⟩
      cases hat
      exact List.mem_cons_self
  | cons i way ih =>
    have hstep : (i :: way, u) ∈ t.met ↔
        t.head.isSearched = true ∧ ∃ c, t.children[i]? = some c ∧ (way, u) ∈ Cst.met c := by
      rw [met_eq]
      split
      · next hsearched => simp [hsearched, List.mem_zipIdx_iff_getElem?]
      · next hpassed => simp [hpassed]
    rw [hstep]
    constructor
    · rintro ⟨hsearched, c, hc, hmem⟩
      obtain ⟨hat, habove⟩ := ih.mp hmem
      refine ⟨by rw [at?, hc, Option.bind_some, hat], ?_⟩
      intro above v hle hne hv
      cases above with
      | nil =>
        cases hv
        exact hsearched
      | cons j above =>
        obtain ⟨rfl, hrest⟩ := List.cons_prefix_cons.mp hle
        rw [at?, hc, Option.bind_some] at hv
        exact habove hrest (fun heq => hne (by rw [heq])) hv
    · rintro ⟨hat, habove⟩
      obtain ⟨c, hc, hat⟩ := Option.bind_eq_some_iff.mp hat
      have htop := habove List.nil_prefix (List.cons_ne_nil _ _).symm rfl
      refine ⟨htop, c, hc, ih.mpr ⟨hat, ?_⟩⟩
      intro above v hle hne hv
      refine habove (List.cons_prefix_cons.mpr ⟨rfl, hle⟩) (fun heq => hne (List.cons.inj heq).2) ?_
      rw [at?, hc, Option.bind_some, hv]

theorem met_pairwise (t : Cst) : (t.met.map Prod.fst).Pairwise (· < ·) := by
  induction t using children_induction with
  | step t ih =>
    rw [met_eq, List.map_cons]
    split
    · have hways : (t.children.zipIdx.flatMap fun c =>
          (Cst.met c.1).map fun m => (c.2 :: m.1, m.2)).map Prod.fst =
          t.children.zipIdx.flatMap fun c => ((Cst.met c.1).map Prod.fst).map (c.2 :: ·) := by
        simp [List.map_flatMap, Function.comp_def]
      rw [hways, List.pairwise_cons]
      refine ⟨?_, Tree.pairwise_siblings ih⟩
      intro way hway
      obtain ⟨_, _, hway⟩ := List.mem_flatMap.mp hway
      obtain ⟨_, _, rfl⟩ := List.mem_map.mp hway
      exact List.nil_lt_cons _ _
    · exact List.pairwise_singleton _ _

def metNodes (t : Cst) : List Cst := t.met.map Prod.snd

theorem metNodes_eq (t : Cst) :
    t.metNodes = t :: if t.head.isSearched then t.children.flatMap metNodes else [] := by
  rw [metNodes, met_eq, List.map_cons]
  congr 1
  split
  · conv_rhs => rw [← List.zipIdx_map_fst 0 t.children, List.flatMap_map]
    simp [List.map_flatMap, metNodes, Function.comp_def]
  · rfl

/-! ## The cursor meets them -/

namespace Cursor

/-- From a cursor on the search goes through these nodes, and then it ends. -/
inductive Runs : Cursor → List Cst → Prop
  | stop {c : Cursor} (h : c.advance? c.node.head.isSearched = none) : Runs c [c.node]
  | move {c d : Cursor} {visited : List Cst} (h : c.advance? c.node.head.isSearched = some d)
      (hd : Runs d visited) : Runs c (c.node :: visited)

theorem Runs.length_le {c : Cursor} {visited : List Cst} (h : c.Runs visited) :
    visited.length ≤ c.left + 1 := by
  induction h with
  | stop _ => simp
  | move hmove _ ih =>
    have hleft := left_of_advance? hmove
    rw [List.length_cons]
    omega

theorem Runs.collect {source : ByteArray} {c : Cursor} {visited : List Cst} (h : c.Runs visited)
    (found : Array Diagnostic) :
    (c.collect source found).toList =
      found.toList ++ visited.filterMap (·.head.diagnostic? source) := by
  induction h generalizing found with
  | @stop c hstop =>
    rw [Cursor.collect]
    split
    · next d hmove =>
      rw [hstop] at hmove
      cases hmove
    · cases hdiag : c.node.head.diagnostic? source <;> simp [hdiag]
  | @move c d visited hmove _ ih =>
    rw [Cursor.collect]
    split
    · next d' hmove' =>
      rw [hmove] at hmove'
      cases hmove'
      rw [ih]
      cases hdiag : c.node.head.diagnostic? source <;> simp [hdiag]
    · next hstop =>
      rw [hmove] at hstop
      cases hstop

/-- The nodes that the search is going to meet when it has passed over what is below the node. -/
def nodesAhead (c : Cursor) : List Cst :=
  c.later.flatMap metNodes ++ c.above.flatMap fun a => a.2.flatMap metNodes

theorem nodesAhead_of_next? (c : Cursor) :
    c.nodesAhead = (c.next?.map fun d => d.node.metNodes ++ d.nodesAhead).getD [] := by
  fun_induction next? c with
  | case1 c d hsibling =>
    rw [nextSibling?] at hsibling
    split at hsibling
    · cases hsibling
    · next hlater =>
      cases hsibling
      simp [nodesAhead, hlater]
  | case2 c hnone p hparent ih =>
    rw [← ih]
    rw [nextSibling?] at hnone
    split at hnone
    · next hlater =>
      rw [parent?] at hparent
      split at hparent
      · cases hparent
      · next habove =>
        cases hparent
        simp [nodesAhead, hlater, habove]
    · cases hnone
  | case3 c hnone htop =>
    rw [nextSibling?] at hnone
    split at hnone
    · next hlater =>
      rw [parent?] at htop
      split at htop
      · next habove => simp [nodesAhead, hlater, habove]
      · cases htop
    · cases hnone

theorem nodesAhead_of_advance? (c : Cursor) :
    c.node.metNodes ++ c.nodesAhead = c.node ::
      ((c.advance? c.node.head.isSearched).map fun d =>
        d.node.metNodes ++ d.nodesAhead).getD [] := by
  rw [metNodes_eq, advance?, List.cons_append]
  congr 1
  split
  · rw [firstChild?]
    split
    · next hleaf =>
      rw [hleaf, Option.none_or, ← nodesAhead_of_next?, List.flatMap_nil, List.nil_append]
    · next t rest hchildren => simp [hchildren, nodesAhead]
  · rw [Option.none_or, ← nodesAhead_of_next?, List.nil_append]

theorem runs (c : Cursor) : c.Runs (c.node.metNodes ++ c.nodesAhead) := by
  induction hleft : c.left using Nat.strongRecOn generalizing c with
  | ind left ih =>
    rw [nodesAhead_of_advance?]
    cases hmove : c.advance? c.node.head.isSearched with
    | none => exact .stop hmove
    | some d =>
      have hlt := left_of_advance? hmove
      exact .move hmove (ih d.left (hleft ▸ hlt) d rfl)

theorem runs_ofRoot (root : Cst) : (ofRoot root).Runs root.metNodes := by
  have hruns := (ofRoot root).runs
  simpa [ofRoot, nodesAhead] using hruns

end Cursor

/-! ## What is reported -/

def faultWays (root : Cst) : List (List Nat) :=
  (root.met.filter (·.2.head.isFaulty)).map Prod.fst

theorem mem_faultWays {root : Cst} {way : List Nat} :
    way ∈ root.faultWays ↔ root.Outermost way := by
  simp only [faultWays, List.mem_map, List.mem_filter, Prod.exists, exists_and_right,
    exists_eq_right, mem_met, CstHead.isFaulty, Bool.or_eq_true, CstHead.isSearched_iff]
  constructor
  · rintro ⟨t, ⟨hat, habove⟩, hfaulty⟩
    exact ⟨⟨t, hat, hfaulty⟩, habove⟩
  · rintro ⟨⟨t, hat, hfaulty⟩, habove⟩
    exact ⟨t, ⟨hat, habove⟩, hfaulty⟩

theorem faultWays_pairwise (root : Cst) : root.faultWays.Pairwise (· < ·) :=
  root.met_pairwise.sublist (List.filter_sublist.map Prod.fst)

theorem forall₂_reports {source : ByteArray} {root : Cst} {ms : List (List Nat × Cst)}
    (h : ∀ m ∈ ms, root.at? m.1 = some m.2) :
    List.Forall₂ (fun way d => ∃ t, root.at? way = some t ∧ t.head.Reports source d)
      ((ms.filter (·.2.head.isFaulty)).map Prod.fst)
      ((ms.map Prod.snd).filterMap (·.head.diagnostic? source)) := by
  induction ms with
  | nil => exact .nil
  | cons m ms ih =>
    have hrest := ih fun k hk => h k (List.mem_cons_of_mem m hk)
    have hsome := m.2.head.isSome_diagnostic? source
    rw [List.map_cons, List.filterMap_cons, List.filter_cons]
    cases hdiag : m.2.head.diagnostic? source with
    | none =>
      rw [hdiag, Option.isSome_none] at hsome
      rw [← hsome, if_neg Bool.false_ne_true]
      exact hrest
    | some d =>
      rw [hdiag, Option.isSome_some] at hsome
      have hfirst : ∃ t, root.at? m.1 = some t ∧ t.head.Reports source d :=
        ⟨m.2, h m List.mem_cons_self, CstHead.diagnostic?_eq_some_iff.mp hdiag⟩
      rw [← hsome, if_pos rfl, List.map_cons]
      exact .cons hfirst hrest

end Cst

/-- A tree whose root is free of faults has no diagnostics. In any other the search ends, after
no more nodes than there are, and the diagnostics are those of the outermost faults, one for
each and in pre-order; below a region that is reported nothing else is. -/
theorem Parsed.ofCst_diagnostics (source : ByteArray) (root : Cst) :
    (root.head.hasError = false → (ofCst source root).diagnostics = []) ∧
    (root.head.hasError = true →
      (∃ visited, (Cst.Cursor.ofRoot root).Runs visited ∧ visited.length ≤ root.size ∧
        (ofCst source root).diagnostics = visited.filterMap (·.head.diagnostic? source)) ∧
      ∃ ways : List (List Nat), ways.Pairwise (· < ·) ∧
        (∀ way, way ∈ ways ↔ root.Outermost way) ∧
        List.Forall₂ (fun way d => ∃ t, root.at? way = some t ∧ t.head.Reports source d) ways
          (ofCst source root).diagnostics ∧
        ∀ above ∈ ways, ∀ way ∈ ways, above <+: way → above ≠ way → ∀ t,
          root.at? above = some t → ¬ t.head.IsRegion) := by
  constructor
  · intro hfree
    simp [ofCst, Cst.diagnostics, hfree]
  · intro hfaulty
    have hruns := Cst.Cursor.runs_ofRoot root
    have hds : (ofCst source root).diagnostics =
        root.metNodes.filterMap (·.head.diagnostic? source) := by
      simp [ofCst, Cst.diagnostics, hfaulty, hruns.collect #[]]
    have hlength : root.metNodes.length ≤ root.size := by
      have hle := hruns.length_le
      have hleft : (Cst.Cursor.ofRoot root).left = Rose.sizes root.children := rfl
      rw [hleft] at hle
      rw [root.size_eq]
      omega
    refine ⟨⟨root.metNodes, hruns, hlength, hds⟩, root.faultWays, root.faultWays_pairwise,
      fun way => Cst.mem_faultWays, ?_, ?_⟩
    · rw [hds]
      exact Cst.forall₂_reports fun m hm => (Cst.mem_met.mp hm).1
    · intro above _ way hway hle hne t ht
      exact ((Cst.mem_faultWays.mp hway).exposed hle hne ht).2

/-- A region within a region, a missing token that comes last on two levels, and another one below
a node that is said to be free of faults. -/
def brokenScript : Cst :=
  .node (.onLine "program" none 0 16 true false false true) [
    .node (.onLine "ERROR" none 0 5 true true false true) [
      .node (.onLine "ERROR" none 1 3 true true false true) []],
    .node (.onLine "expression_statement" none 6 9 true false false false) [
      .node (.onLine ";" none 9 9 false false true true) []],
    .node (.onLine "statement_block" none 10 16 true false false true) [
      .node (.onLine "break_statement" none 11 16 true false false true) [
        Cst.token "break" none 11 16, .node (.onLine ";" none 16 16 false false true true) []]]]

theorem brokenScript_diagnostics :
    brokenScript.head.hasError = true ∧
    ((Parsed.ofCst "((a)( b; \x7bbreak".toUTF8 brokenScript).diagnostics.map Diagnostic.span =
      [⟨1, 6⟩, ⟨17, 17⟩]) ∧
    (∃ visited, (Cst.Cursor.ofRoot brokenScript).Runs visited ∧ visited.length ≤ 9) ∧
    ∃ ways : List (List Nat), ways.Pairwise (· < ·) ∧ ways.length = 2 ∧
      ∀ way, way ∈ ways ↔ brokenScript.Outermost way := by
  have hfaulty : brokenScript.head.hasError = true := rfl
  have hspans : (Parsed.ofCst "((a)( b; \x7bbreak".toUTF8 brokenScript).diagnostics.map
      Diagnostic.span = [⟨1, 6⟩, ⟨17, 17⟩] := by
    decide +kernel
  obtain ⟨⟨visited, hruns, hlength, _⟩, ways, hsorted, hways, hreports, _⟩ :=
    (Parsed.ofCst_diagnostics "((a)( b; \x7bbreak".toUTF8 brokenScript).2 hfaulty
  have htwo := hreports.length_eq
  rw [← List.length_map Diagnostic.span, hspans] at htwo
  exact ⟨hfaulty, hspans, ⟨visited, hruns, hlength⟩, ways, hsorted, htwo, hways⟩

end ScriptLens
