import Mathlib.Data.List.Forall2
import ScriptLens.Completion.Offer
import ScriptLens.Proofs.Snapshot.Copies
import ScriptLens.Proofs.Snapshot.Walk

/-! # Snapshots cut at a depth

A snapshot shows the upper levels of a tree, node by node as they are. Whether a node has a text is
decided by its children in the tree, so a node whose children are cut off has neither. What is read
off a snapshot is read off these levels, and a deeper snapshot, cut again, is the shallower one.
-/
namespace ScriptLens

open Rose

/-- How a node of this depth is shown in a snapshot of some levels. -/
structure Cst.ShownAs (source : ByteArray) (levels depth : Nat) (n : Cst) (s : Snapshot) :
    Prop where
  kind : s.head.kind = n.head.kind
  bytes : (s.head.startByte, s.head.stopByte) = (n.head.start, n.head.stop)
  points : (s.head.start, s.head.stop) = (n.head.startPoint, n.head.stopPoint)
  flags : (s.head.isError, s.head.isMissing) = (n.head.isError, n.head.isMissing)
  text : s.head.text = if n.children = [] then some (n.head.covered source) else none
  children : s.children.length = if depth + 1 < levels then n.children.length else 0

namespace Snapshot

/-- A snapshot without the nodes that are deeper than this. -/
def cutBelow : Nat → Snapshot → Snapshot
  | 0, s => .node s.head []
  | depth + 1, s => .node s.head (s.children.map (cutBelow depth))

def candidate? (s : Snapshot) : Option Candidate :=
  s.declares?.bind fun kind => s.declaredName?.map (⟨·, kind, "buffer"⟩)

theorem declared_eq (s : Snapshot) : s.declared = s.nodes.filterMap candidate? := rfl

/-- What a node declares is told by its kind and by its children, each without what is below it. -/
theorem candidate?_congr {s u : Snapshot} (kind : s.head.kind = u.head.kind)
    (children : s.children.map head = u.children.map head) : s.candidate? = u.candidate? := by
  have hfirst : ∀ v : Snapshot, v.children.head?.bind identifierText? =
      (v.children.map head).head?.bind fun h => identifierText? (.node h []) := by
    intro v
    rw [List.head?_map, Option.bind_map]
    rfl
  have hfound : ∀ v : Snapshot, ((v.children.find? fun c =>
      c.head.kind == "identifier" && !c.head.isMissing).bind (·.head.text)) =
      ((v.children.map head).find? fun h => h.kind == "identifier" && !h.isMissing).bind
        (·.text) := by
    intro v
    rw [List.find?_map, Option.bind_map]
    rfl
  have hname : s.declaredName? = u.declaredName? := by
    simp only [declaredName?, hfirst, hfound, kind, children]
  have hdeclares : s.declares? = u.declares? := by rw [declares?, declares?, kind]
  rw [candidate?, candidate?, hname, hdeclares]

theorem candidate?_of_leaf {s : Snapshot} (h : s.children = []) : s.candidate? = none := by
  have hname : s.declaredName? = none := by simp [declaredName?, h]
  simp [candidate?, hname]

end Snapshot

namespace Cst

variable {source : ByteArray}

theorem copy_max_one (source : ByteArray) (levels : Nat) (t : Cst) :
    t.copy source (max levels 1) = t.copy source levels := by
  refine Rose.eq_of_parts (by rw [head_copy, head_copy]) ?_
  rw [children_copy, children_copy]
  rcases Nat.eq_zero_or_pos levels with rfl | hpos
  · rfl
  · rw [Nat.max_eq_left hpos]

/-- The nodes of a copy are the copies of the nodes of the upper levels, each of the levels that are
left at its depth. -/
theorem nodes_copy (t : Cst) (depth below : Nat) :
    (t.copy source (below + 1)).nodes =
      ((t.leveled depth).filter (·.1 < depth + (below + 1))).map fun n =>
        Cst.copy source (depth + (below + 1) - n.1) n.2 := by
  induction below generalizing t depth with
  | zero =>
    have hrest :
        (t.children.flatMap (leveled (depth + 1))).filter (·.1 < depth + (0 + 1)) = [] := by
      rw [List.filter_eq_nil_iff]
      intro n hn
      obtain ⟨c, _, hn⟩ := List.mem_flatMap.mp hn
      have hle := le_of_mem_leveled hn
      simp only [decide_eq_true_eq]
      omega
    rw [nodes_eq, children_copy, if_pos (Nat.le_refl _), List.flatMap_nil, leveled_eq,
      List.filter_cons_of_pos (by simp), hrest, List.map_singleton, Nat.add_sub_cancel_left]
  | succ below ih =>
    have hbound : ∀ d, depth + 1 + (below + 1) - d = depth + (below + 1 + 1) - d := by
      intro d
      omega
    have hlt : ∀ d, d < depth + 1 + (below + 1) ↔ d < depth + (below + 1 + 1) := by
      intro d
      omega
    rw [nodes_eq, children_copy, if_neg (by omega), leveled_eq,
      List.filter_cons_of_pos (by simp), List.map_cons, Nat.add_sub_cancel_left]
    congr 1
    rw [List.flatMap_map, List.filter_flatMap, List.map_flatMap]
    refine List.flatMap_congr fun c _ => ?_
    rw [Nat.add_sub_cancel, ih c (depth + 1)]
    simp only [hbound, hlt]

theorem shownAs_copy (source : ByteArray) (n : Cst) {levels depth : Nat} (h : depth < levels) :
    n.ShownAs source levels depth
      (n.copy source (levels - depth)) := by
  constructor
  case children =>
    rw [children_copy]
    split
    · next hlast => rw [if_neg (by omega), List.length_nil]
    · next hmore => rw [if_pos (by omega), List.length_map]
  case text => simp only [text_copy, List.isEmpty_iff]
  all_goals rw [head_copy]; rfl

theorem cutBelow_copy (depth levels : Nat) (t : Cst) :
    (t.copy source levels).cutBelow depth =
      t.copy source (min levels (depth + 1)) := by
  induction depth generalizing levels t with
  | zero =>
    refine Rose.eq_of_parts ?_ ?_
    · rw [head_copy]
      exact head_copy source levels t
    · rw [children_copy, if_pos (Nat.min_le_right _ _)]
      rfl
  | succ depth ih =>
    refine Rose.eq_of_parts ?_ ?_
    · rw [head_copy]
      exact head_copy source levels t
    · have hsteps : min levels (depth + 1 + 1) - 1 = min (levels - 1) (depth + 1) := by omega
      have hlast : min levels (depth + 1 + 1) ≤ 1 ↔ levels ≤ 1 := by omega
      have hchildren : ((t.copy source levels).cutBelow (depth + 1)).children =
          (t.copy source levels).children.map (Snapshot.cutBelow depth) := rfl
      rw [hchildren, children_copy, children_copy, hsteps]
      simp only [hlast]
      split
      · rfl
      · rw [List.map_map]
        exact List.map_congr_left fun c _ => ih (levels - 1) c

theorem candidate?_copy (n : Cst) {levels : Nat} (h : 1 < levels) :
    (n.copy source levels).candidate? = (n.copy source 2).candidate? := by
  refine Snapshot.candidate?_congr (by rw [kind_copy, kind_copy]) ?_
  rw [children_copy, children_copy, if_neg (by omega), if_neg (by omega), List.map_map,
    List.map_map]
  refine List.map_congr_left fun c _ => ?_
  exact (head_copy source (levels - 1) c).trans (head_copy source 1 c).symm

end Cst

namespace Snapshot

variable (source : ByteArray) (maxDepth : Nat) (t : Cst)

/-- The nodes of a tree that a snapshot of it shows, with their depths. -/
def shown (t : Cst) : List (Nat × Cst) := (t.leveled 0).filter (·.1 < max maxDepth 1)

theorem lt_of_mem_shown {n : Nat × Cst} (h : n ∈ shown maxDepth t) : n.1 < max maxDepth 1 :=
  of_decide_eq_true (List.mem_filter.mp h).2

theorem nodes_ofCst :
    (ofCst source maxDepth t).nodes = (shown maxDepth t).map fun n =>
      n.2.copy source (max maxDepth 1 - n.1) := by
  obtain ⟨below, hbelow⟩ : ∃ below, max maxDepth 1 = below + 1 := ⟨max maxDepth 1 - 1, by omega⟩
  rw [ofCst, ← Cst.copy_max_one, shown, hbelow, Cst.nodes_copy t 0 below]
  simp only [Nat.zero_add]

theorem hasError_ofCst :
    (ofCst source maxDepth t).hasError = (shown maxDepth t).any (·.2.head.isError) := by
  have hself : ((·.head.isError) : Snapshot → Bool) ∘ (fun n : Nat × Cst =>
      n.2.copy source (max maxDepth 1 - n.1)) =
      (·.2.head.isError) := by
    funext n
    rw [Function.comp_apply, Cst.head_copy]
    rfl
  rw [hasError, nodes_ofCst, List.any_map, hself]

theorem leafText_ofCst :
    (ofCst source maxDepth t).leafText = String.ofList
      (((shown maxDepth t).filter (·.2.children.isEmpty)).flatMap fun n =>
        (n.2.head.covered source).toList) := by
  rw [leafText, nodes_ofCst, List.flatMap_map]
  congr 1
  induction shown maxDepth t with
  | nil => rfl
  | cons n rest ih =>
    rw [List.flatMap_cons, ih, Cst.text_copy, List.filter_cons]
    split
    · rfl
    · rfl

theorem declared_ofCst :
    (ofCst source maxDepth t).declared =
      ((shown maxDepth t).filter (·.1 + 1 < max maxDepth 1)).filterMap fun n =>
        (ofCst source 2 n.2).candidate? := by
  rw [declared_eq, nodes_ofCst, List.filterMap_map, List.filterMap_filter]
  refine List.filterMap_congr fun n hn => ?_
  have hlt := lt_of_mem_shown maxDepth t hn
  by_cases hlast : n.1 + 1 < max maxDepth 1
  · rw [if_pos (decide_eq_true hlast)]
    exact Cst.candidate?_copy n.2 (by omega)
  · rw [if_neg (by simpa using hlast)]
    exact candidate?_of_leaf (by rw [Cst.children_copy, if_pos (by omega)])

theorem ofCst_cutBelow {deeper : Nat} (h : maxDepth ≤ deeper) :
    (ofCst source deeper t).cutBelow (max maxDepth 1 - 1) = ofCst source maxDepth t := by
  rw [ofCst, Cst.cutBelow_copy, ofCst, ← Cst.copy_max_one source maxDepth,
    ← Cst.copy_max_one source (min _ _)]
  congr 1
  omega

/-- A snapshot cut at a depth shows, in pre-order, exactly the nodes of the tree that are less deep,
and what is read off it is read off these: a fault is one of theirs, the texts are those of the
nodes without children among them, and names are declared by those whose children are among them.
It is the same as a deeper snapshot that is cut to this depth, and that one has its faults. -/
theorem ofCst_truncates :
    List.Forall₂ (fun n s => n.2.ShownAs source (max maxDepth 1) n.1 s) (shown maxDepth t)
      (ofCst source maxDepth t).walk.toList ∧
    (ofCst source maxDepth t).hasError = (shown maxDepth t).any (·.2.head.isError) ∧
    (ofCst source maxDepth t).leafText = String.ofList
      (((shown maxDepth t).filter (·.2.children.isEmpty)).flatMap fun n =>
        (n.2.head.covered source).toList) ∧
    (ofCst source maxDepth t).declared =
      ((shown maxDepth t).filter (·.1 + 1 < max maxDepth 1)).filterMap
        (fun n => (ofCst source 2 n.2).candidate?) ∧
    ∀ deeper, maxDepth ≤ deeper →
      ofCst source maxDepth t = (ofCst source deeper t).cutBelow (max maxDepth 1 - 1) ∧
      ((ofCst source maxDepth t).hasError = true → (ofCst source deeper t).hasError = true) := by
  refine ⟨?_, hasError_ofCst source maxDepth t, leafText_ofCst source maxDepth t,
    declared_ofCst source maxDepth t, fun deeper hle =>
      ⟨(ofCst_cutBelow source maxDepth t hle).symm, ?_⟩⟩
  · rw [toList_walk, nodes_ofCst, List.forall₂_map_right_iff]
    refine List.forall₂_same.mpr ?_
    exact fun n hn => n.2.shownAs_copy source (lt_of_mem_shown maxDepth t hn)
  · rw [hasError_ofCst, hasError_ofCst, List.any_eq_true, List.any_eq_true]
    rintro ⟨n, hn, herror⟩
    refine ⟨n, List.mem_filter.mpr ⟨(List.mem_filter.mp hn).1, decide_eq_true ?_⟩, herror⟩
    have hlt := lt_of_mem_shown maxDepth t hn
    omega

end Snapshot

def strayBracket : String := "let a)=1"

def strayBracketTree : Cst :=
  .node (.onLine "program" none 0 8 true false false true) [
    .node (.onLine "lexical_declaration" none 0 8 true false false true) [
      Cst.token "let" (some "kind") 0 3,
      .node (.onLine "variable_declarator" none 4 8 true false false true) [
        Cst.named "identifier" (some "name") 4 5 [],
        .node (.onLine "ERROR" none 5 6 true true false true) [Cst.token ")" none 5 6],
        Cst.token "=" none 6 7, Cst.named "number" (some "value") 7 8 []]]]

/-- Four levels show the fault, but not the bracket below it, and three do not show the name. -/
theorem strayBracket_truncates :
    let copy (depth : Nat) := Snapshot.ofCst strayBracket.toUTF8 depth strayBracketTree
    (copy 4).walk.toList.map (fun s => (s.head.kind, s.head.text)) =
      [("program", none), ("lexical_declaration", none), ("let", some "let"),
        ("variable_declarator", none), ("identifier", some "a"), ("ERROR", none), ("=", some "="),
        ("number", some "1")] ∧
    (copy 4).leafText = "leta=1" ∧ (copy 4).declared.map (·.label) = ["a"] ∧
    (copy 3).leafText = "let" ∧ (copy 3).declared = [] ∧ (copy 3).hasError = false ∧
    (copy 4).hasError = true ∧ (copy 5).hasError = true ∧
    4 ≤ 5 ∧ copy 4 = (copy 5).cutBelow 3 := by
  intro copy
  obtain ⟨_, herror, htext, hdeclared, hdeeper⟩ :=
    Snapshot.ofCst_truncates strayBracket.toUTF8 4 strayBracketTree
  obtain ⟨_, herror', htext', hdeclared', _⟩ :=
    Snapshot.ofCst_truncates strayBracket.toUTF8 3 strayBracketTree
  have hfault : (copy 4).hasError = true := herror.trans (by decide)
  obtain ⟨hcut, hkept⟩ := hdeeper 5 (by decide)
  refine ⟨?_, ?_, ?_, ?_, ?_, herror'.trans (by decide), hfault, hkept hfault, by decide, hcut⟩
  · rw [Snapshot.toList_walk]
    decide +kernel
  · exact htext.trans (by decide +kernel)
  · rw [hdeclared]
    decide +kernel
  · exact htext'.trans (by decide +kernel)
  · exact hdeclared'.trans (by decide +kernel)

end ScriptLens
