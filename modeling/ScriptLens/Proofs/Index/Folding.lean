import ScriptLens.Index.Fold
import ScriptLens.Proofs.Index.Ancestors
import ScriptLens.Proofs.Index.Offsets

/-! # Folding and what is shown

Folding changes flags only, so in every index that comes from one of a tree by folding the
nodes above a node are what they were. A node is shown if it is a root or its parent is shown
and expanded; from this the shown nodes are those with nothing folded above them. They come in
the order of their numbers, because all that is shown below a node is numbered before the next
sibling of that node.
-/
namespace ScriptLens

inductive Folding where
  | toggle (id : Nat)
  | expandTo (id : Nat)

def NodeRecord.folded (n : NodeRecord) : NodeRecord := { n with isExpanded := false }

theorem NodeRecord.numbersUnder_folded (nodes : Array NodeRecord) (parent : Option Nat) :
    numbersUnder (nodes.map folded) parent = numbersUnder nodes parent := by
  rw [numbersUnder, numbersUnder, Array.size_map]
  congr 1
  funext i
  rw [Array.getElem?_map, Option.any_map]
  rfl

namespace Index

def fold (x : Index) : Folding → Index
  | .toggle id => x.toggle id
  | .expandTo id => x.expandTo id

def foldAll (x : Index) (steps : List Folding) : Index := steps.foldl fold x

/-- The index with all nodes folded. Two indexes that are the same when folded differ in flags
only. -/
def folded (x : Index) : Index := { x with nodes := x.nodes.map NodeRecord.folded }

/-! ## Only flags change -/

theorem node?_folded (x : Index) (id : Nat) :
    x.folded.node? id = (x.node? id).map NodeRecord.folded := Array.getElem?_map

theorem chain_folded (x : Index) (id : Nat) : x.folded.chain id = x.chain id := by
  induction id using Nat.strongRecOn with
  | ind id ih =>
    rw [chain, chain, node?_folded]
    cases x.node? id with
    | none => rfl
    | some n =>
      cases hparent : n.parent with
      | none => simp [NodeRecord.folded, hparent]
      | some p =>
        by_cases hlt : p < id
        · simp [NodeRecord.folded, hparent, hlt, ih p hlt]
        · simp [NodeRecord.folded, hparent, hlt]

theorem path_folded (x : Index) (id : Nat) : x.folded.path id = x.path id := by
  rw [path, path, chain_folded]

theorem node?_setExpanded (x : Index) (id : Nat) (flag : Bool → Bool) (i : Nat) :
    (x.setExpanded id flag).node? i = (x.node? i).map fun n =>
      if i = id then { n with isExpanded := flag n.isExpanded } else n := by
  simp only [node?, setExpanded, Array.getElem?_modify]
  by_cases h : id = i
  · simp [h]
  · simp [h, Ne.symm h]

theorem folded_setExpanded (x : Index) (id : Nat) (flag : Bool → Bool) :
    (x.setExpanded id flag).folded = x.folded := by
  have hnodes : (x.setExpanded id flag).nodes.map NodeRecord.folded =
      x.nodes.map NodeRecord.folded := by
    apply Array.ext_getElem?
    intro i
    have hnode := x.node?_setExpanded id flag i
    rw [node?, node?] at hnode
    rw [Array.getElem?_map, Array.getElem?_map, hnode, Option.map_map]
    congr 1
    funext n
    rw [Function.comp_apply]
    split <;> rfl
  rw [folded, hnodes]
  rfl

theorem folded_toggle (x : Index) (id : Nat) : (x.toggle id).folded = x.folded :=
  x.folded_setExpanded id _

theorem folded_expand (x : Index) (id : Nat) : (x.expand id).folded = x.folded := by
  unfold expand
  split
  · split
    · rfl
    · exact x.folded_setExpanded id _
  · rfl

theorem folded_foldl_expand (x : Index) (ids : List Nat) :
    (ids.foldl expand x).folded = x.folded := by
  induction ids generalizing x with
  | nil => rfl
  | cons id ids ih => rw [List.foldl_cons, ih, folded_expand]

theorem folded_expandTo (x : Index) (id : Nat) : (x.expandTo id).folded = x.folded :=
  x.folded_foldl_expand _

theorem folded_fold (x : Index) (step : Folding) : (x.fold step).folded = x.folded := by
  cases step with
  | toggle id => exact x.folded_toggle id
  | expandTo id => exact x.folded_expandTo id

/-- No row of foldings changes anything but flags. -/
theorem folded_foldAll (x : Index) (steps : List Folding) :
    (x.foldAll steps).folded = x.folded := by
  induction steps generalizing x with
  | nil => rfl
  | cons step steps ih => rw [foldAll, List.foldl_cons, ← foldAll, ih, folded_fold]

section SameButFlags

variable {x y : Index} (h : y.folded = x.folded)
include h

theorem exists_node_of_folded {id : Nat} {n : NodeRecord} (hn : y.node? id = some n) :
    ∃ m, x.node? id = some m ∧ m.folded = n.folded := by
  have hnode := y.node?_folded id
  rw [h, node?_folded, hn, Option.map_some] at hnode
  exact Option.map_eq_some_iff.mp hnode

theorem path_eq_of_folded (id : Nat) : y.path id = x.path id := by
  rw [← path_folded, h, path_folded]

theorem numbersUnder_eq_of_folded (parent : Option Nat) :
    NodeRecord.numbersUnder y.nodes parent = NodeRecord.numbersUnder x.nodes parent := by
  have hnodes : y.nodes.map NodeRecord.folded = x.nodes.map NodeRecord.folded :=
    congrArg Index.nodes h
  rw [← NodeRecord.numbersUnder_folded, hnodes, NodeRecord.numbersUnder_folded]

theorem Forest.of_folded (hx : x.Forest) : y.Forest := by
  refine ⟨?_, ?_, ?_, ?_⟩
  · intro id p n hn hparent
    obtain ⟨m, hm, heq⟩ := exists_node_of_folded h hn
    have hsame : m.folded.parent = n.folded.parent := congrArg NodeRecord.parent heq
    obtain ⟨hlt, k, hk⟩ := hx.parent_lt hm (hsame.trans hparent)
    obtain ⟨k', hk', _⟩ := exists_node_of_folded h.symm hk
    exact ⟨hlt, k', hk'⟩
  · intro id n hn
    obtain ⟨m, hm, heq⟩ := exists_node_of_folded h hn
    have hsame : m.folded.children = n.folded.children := congrArg NodeRecord.children heq
    have hchildren : m.children = n.children := hsame
    rw [← hchildren, hx.children_eq hm, numbersUnder_eq_of_folded h]
  · have hsame : y.folded.roots = x.folded.roots := congrArg Index.roots h
    have hroots : y.roots = x.roots := hsame
    rw [hroots, hx.roots_eq, numbersUnder_eq_of_folded h]
  · intro above id k
    rw [path_eq_of_folded h, path_eq_of_folded h]
    exact hx.between

theorem above_iff_of_folded (hx : x.Forest) {above id : Nat} :
    y.Above above id ↔ x.Above above id := by
  rw [← hx.mem_dropLast_path, ← (hx.of_folded h).mem_dropLast_path, path_eq_of_folded h]

end SameButFlags

/-! ## What is shown -/

theorem toList_showAll (x : Index) (shown : Array Nat) (pending : List Nat) :
    (x.showAll shown pending).toList = shown.toList ++ pending.flatMap x.visibleFrom := by
  fun_induction showAll x shown pending with
  | case1 => simp
  | case2 shown id pending hnode ih =>
    rw [ih, List.flatMap_cons, visibleFrom_of_none hnode, List.nil_append]
  | case3 shown id pending n hnode ih =>
    rw [ih, List.flatMap_cons, visibleFrom_eq hnode]
    simp

theorem visible_eq (x : Index) : x.visible = x.roots.toList.flatMap x.visibleFrom := by
  rw [visible, toList_showAll]
  rfl

theorem downward_induction (x : Index) {motive : Nat → Prop}
    (step : ∀ id, (∀ c, id < c → c < x.size → motive c) → motive id) (id : Nat) : motive id :=
  step id fun c _ _ => downward_induction x step c
termination_by x.size - id
decreasing_by omega

namespace Forest

variable {x : Index} (h : x.Forest)
include h

theorem mem_unfolded {id c : Nat} {n : NodeRecord} (hn : x.node? id = some n) :
    c ∈ unfolded id n ↔
      n.isExpanded = true ∧ ∃ m, x.node? c = some m ∧ m.parent = some id := by
  rw [unfolded]
  split
  · next hopen =>
    rw [List.mem_filter, h.children_eq hn, NodeRecord.mem_numbersUnder, decide_eq_true_eq]
    constructor
    · rintro ⟨hchild, _⟩
      exact ⟨hopen, hchild⟩
    · rintro ⟨_, m, hm, hparent⟩
      exact ⟨⟨m, hm, hparent⟩, (h.parent_lt hm hparent).1⟩
  · next hclosed => simp [hclosed]

theorem lt_of_mem_unfolded {id c : Nat} {n : NodeRecord} (hn : x.node? id = some n)
    (hc : c ∈ unfolded id n) : id < c ∧ c < x.size := by
  obtain ⟨_, m, hm, hparent⟩ := (h.mem_unfolded hn).mp hc
  exact ⟨(h.parent_lt hm hparent).1, lt_size_of_node? hm⟩

/-- Below a node its own number is shown, and what has a parent that is shown and expanded. -/
theorem mem_visibleFrom {id j : Nat} :
    j ∈ x.visibleFrom id ↔ ∃ n, x.node? j = some n ∧ (j = id ∨ ∃ p m, n.parent = some p ∧
      x.node? p = some m ∧ m.isExpanded = true ∧ p ∈ x.visibleFrom id) := by
  induction id using x.downward_induction generalizing j with
  | step id ih =>
    cases hnode : x.node? id with
    | none =>
      rw [visibleFrom_of_none hnode]
      constructor
      · intro hj
        cases hj
      · rintro ⟨n, hn, rfl | ⟨_, _, _, _, _, hp⟩⟩
        · rw [hnode] at hn
          cases hn
        · cases hp
    | some n =>
      have hbelow : ∀ j, j ∈ x.visibleFrom id ↔
          j = id ∨ ∃ c ∈ unfolded id n, j ∈ x.visibleFrom c := by
        intro j
        rw [visibleFrom_eq hnode, List.mem_cons, List.mem_flatMap]
      have hchild := fun c => h.lt_of_mem_unfolded hnode (c := c)
      rw [hbelow]
      constructor
      · rintro (rfl | ⟨c, hc, hj⟩)
        · exact ⟨n, hnode, .inl rfl⟩
        · obtain ⟨hlt, hsize⟩ := hchild c hc
          obtain ⟨m, hm, rfl | ⟨p, k, hparent, hk, hopen, hp⟩⟩ := (ih c hlt hsize).mp hj
          · obtain ⟨hopen, m', hm', hparent⟩ := (h.mem_unfolded hnode).mp hc
            rw [hm] at hm'
            cases hm'
            exact ⟨m, hm, .inr ⟨id, n, hparent, hnode, hopen, (hbelow id).mpr (.inl rfl)⟩⟩
          · exact ⟨m, hm, .inr ⟨p, k, hparent, hk, hopen, (hbelow p).mpr (.inr ⟨c, hc, hp⟩)⟩⟩
      · rintro ⟨m, hm, rfl | ⟨p, k, hparent, hk, hopen, hp⟩⟩
        · exact .inl rfl
        · rcases (hbelow p).mp hp with rfl | ⟨c, hc, hp⟩
          · rw [hnode] at hk
            cases hk
            have hj := (h.mem_unfolded hnode).mpr ⟨hopen, m, hm, hparent⟩
            obtain ⟨hlt, hsize⟩ := hchild j hj
            exact .inr ⟨j, hj, (ih j hlt hsize).mpr ⟨m, hm, .inl rfl⟩⟩
          · obtain ⟨hlt, hsize⟩ := hchild c hc
            exact .inr ⟨c, hc, (ih c hlt hsize).mpr ⟨m, hm, .inr ⟨p, k, hparent, hk, hopen, hp⟩⟩⟩

/-- A node is shown if it is a root or its parent is shown and expanded. -/
theorem mem_visible_step {j : Nat} :
    j ∈ x.visible ↔ ∃ n, x.node? j = some n ∧ (n.parent = none ∨ ∃ p m, n.parent = some p ∧
      x.node? p = some m ∧ m.isExpanded = true ∧ p ∈ x.visible) := by
  simp only [visible_eq, List.mem_flatMap, h.roots_eq, NodeRecord.mem_numbersUnder]
  constructor
  · rintro ⟨r, ⟨k, hk, hroot⟩, hj⟩
    obtain ⟨n, hn, rfl | ⟨p, m, hparent, hm, hopen, hp⟩⟩ := h.mem_visibleFrom.mp hj
    · rw [← node?, hn] at hk
      cases hk
      exact ⟨_, hn, .inl hroot⟩
    · exact ⟨n, hn, .inr ⟨p, m, hparent, hm, hopen, r, ⟨k, hk, hroot⟩, hp⟩⟩
  · rintro ⟨n, hn, hroot | ⟨p, m, hparent, hm, hopen, r, hr, hp⟩⟩
    · exact ⟨j, ⟨n, hn, hroot⟩, h.mem_visibleFrom.mpr ⟨n, hn, .inl rfl⟩⟩
    · exact ⟨r, hr, h.mem_visibleFrom.mpr ⟨n, hn, .inr ⟨p, m, hparent, hm, hopen, hp⟩⟩⟩

/-- A node is shown if nothing above it is folded. -/
theorem mem_visible {id : Nat} :
    id ∈ x.visible ↔ id < x.size ∧ ∀ a, x.Above a id → x.isExpanded? a = some true := by
  induction id using Nat.strongRecOn with
  | ind id ih =>
    rw [h.mem_visible_step]
    constructor
    · rintro ⟨n, hn, hshown⟩
      refine ⟨lt_size_of_node? hn, ?_⟩
      intro a ha
      obtain ⟨p, hparent, hup⟩ := (above_iff hn).mp ha
      rcases hshown with hroot | ⟨q, m, hq, hm, hopen, hvisible⟩
      · rw [hparent] at hroot
        cases hroot
      · rw [hparent] at hq
        cases hq
        rcases hup with rfl | hup
        · rw [isExpanded?, hm, Option.map_some, hopen]
        · exact ((ih p (h.parent_lt hn hparent).1).mp hvisible).2 a hup
    · rintro ⟨hlt, habove⟩
      have hn : x.node? id = some x.nodes[id] := Array.getElem?_eq_getElem hlt
      refine ⟨x.nodes[id], hn, ?_⟩
      cases hparent : x.nodes[id].parent with
      | none => exact .inl rfl
      | some p =>
        obtain ⟨hp, m, hm⟩ := h.parent_lt hn hparent
        have hopen := habove p (.parent hn hparent)
        rw [isExpanded?, hm, Option.map_some, Option.some.injEq] at hopen
        have hvisible : p ∈ x.visible := (ih p hp).mpr
          ⟨lt_size_of_node? hm, fun a ha => habove a (.beyond hn hparent ha)⟩
        exact .inr ⟨p, m, rfl, hm, hopen, hvisible⟩

/-! ## The order of the shown nodes -/

theorem mem_path_of_visibleFrom {id j : Nat} (hj : j ∈ x.visibleFrom id) : id ∈ x.path j := by
  induction j using Nat.strongRecOn with
  | ind j ih =>
    obtain ⟨n, hn, rfl | ⟨p, m, hparent, _, _, hp⟩⟩ := h.mem_visibleFrom.mp hj
    · exact h.mem_path_self hn
    · rw [h.path_of_child hn hparent]
      exact List.mem_append_left _ (ih p (h.parent_lt hn hparent).1 hp)

theorem le_of_visibleFrom {id j : Nat} (hj : j ∈ x.visibleFrom id) : id ≤ j := by
  obtain ⟨n, hn, _⟩ := h.mem_visibleFrom.mp hj
  rcases (h.mem_path_iff hn).mp (h.mem_path_of_visibleFrom hj) with rfl | habove
  · exact Nat.le_refl _
  · exact Nat.le_of_lt (h.lt_of_above habove)

theorem pairwise_siblings {ids : List Nat} {parent : Option Nat}
    (hids : ids.Sublist (NodeRecord.numbersUnder x.nodes parent))
    (heach : ∀ id ∈ ids, (x.visibleFrom id).Pairwise (· < ·)) :
    (ids.flatMap x.visibleFrom).Pairwise (· < ·) := by
  have hsorted : ids.Pairwise (· < ·) :=
    (List.pairwise_lt_range.filter _).sublist hids
  rw [List.pairwise_flatMap]
  refine ⟨heach, hsorted.imp_of_mem ?_⟩
  intro a b ha hb hlt j hj k hk
  obtain ⟨n, hn, hparent⟩ := NodeRecord.mem_numbersUnder.mp (hids.subset ha)
  obtain ⟨m, hm, hparent'⟩ := NodeRecord.mem_numbersUnder.mp (hids.subset hb)
  have hjb :=
    h.lt_of_siblings hn hm (hparent.trans hparent'.symm) hlt (h.mem_path_of_visibleFrom hj)
  exact Nat.lt_of_lt_of_le hjb (h.le_of_visibleFrom hk)

theorem visibleFrom_pairwise (id : Nat) : (x.visibleFrom id).Pairwise (· < ·) := by
  induction id using x.downward_induction with
  | step id ih =>
    cases hnode : x.node? id with
    | none =>
      rw [visibleFrom_of_none hnode]
      exact .nil
    | some n =>
      have hchild := fun c => h.lt_of_mem_unfolded hnode (c := c)
      have hids : (unfolded id n).Sublist (NodeRecord.numbersUnder x.nodes (some id)) := by
        rw [unfolded, h.children_eq hnode]
        split
        · exact List.filter_sublist
        · exact List.nil_sublist _
      rw [visibleFrom_eq hnode, List.pairwise_cons]
      constructor
      · intro j hj
        obtain ⟨c, hc, hj⟩ := List.mem_flatMap.mp hj
        exact Nat.lt_of_lt_of_le (hchild c hc).1 (h.le_of_visibleFrom hj)
      · exact h.pairwise_siblings hids fun c hc => ih c (hchild c hc).1 (hchild c hc).2

theorem visible_pairwise : x.visible.Pairwise (· < ·) := by
  rw [visible_eq, h.roots_eq]
  exact h.pairwise_siblings (List.Sublist.refl _) fun id _ => h.visibleFrom_pairwise id

/-! ## Making a node visible -/

theorem children_of_above {above id : Nat} (habove : x.Above above id) {m : NodeRecord}
    (hm : x.node? above = some m) : m.children.isEmpty = false := by
  obtain ⟨c, n, hn, hparent⟩ := habove.exists_child
  have hc : c ∈ m.children.toList := by
    rw [h.children_eq hm]
    exact NodeRecord.mem_numbersUnder.mpr ⟨n, hn, hparent⟩
  rw [Bool.eq_false_iff, ne_eq, Array.isEmpty_iff]
  intro hnone
  rw [hnone] at hc
  cases hc

end Forest

theorem node?_expand {x : Index} {a : Nat}
    (hchild : ∀ m, x.node? a = some m → m.children.isEmpty = false) (i : Nat) :
    (x.expand a).node? i = (x.node? i).map fun n =>
      if i = a then { n with isExpanded := true } else n := by
  unfold expand
  cases hnode : x.node? a with
  | none =>
    by_cases hi : i = a
    · simp [hi, hnode]
    · simp [hi]
  | some m =>
    simp only [hchild m hnode, Bool.false_eq_true, if_false]
    exact x.node?_setExpanded a _ i

theorem node?_foldl_expand {x : Index} {ids : List Nat}
    (hchild : ∀ a ∈ ids, ∀ m, x.node? a = some m → m.children.isEmpty = false) (i : Nat) :
    (ids.foldl expand x).node? i = (x.node? i).map fun n =>
      if i ∈ ids then { n with isExpanded := true } else n := by
  induction ids generalizing x with
  | nil => simp
  | cons a ids ih =>
    have hfirst := hchild a List.mem_cons_self
    have hrest : ∀ b ∈ ids, ∀ m, (x.expand a).node? b = some m → m.children.isEmpty = false := by
      intro b hb m hm
      rw [node?_expand hfirst] at hm
      obtain ⟨n, hn, rfl⟩ := Option.map_eq_some_iff.mp hm
      have hsame := hchild b (List.mem_cons_of_mem a hb) n hn
      split <;> exact hsame
    rw [List.foldl_cons, ih hrest, node?_expand hfirst, Option.map_map]
    congr 1
    funext n
    by_cases hia : i = a <;> by_cases hi : i ∈ ids <;> simp [hia, hi]

namespace Forest

variable {x : Index} (h : x.Forest)
include h

theorem node?_expandTo (id i : Nat) :
    (x.expandTo id).node? i = (x.node? i).map fun n =>
      if i ∈ (x.path id).dropLast then { n with isExpanded := true } else n := by
  apply node?_foldl_expand
  intro a ha m hm
  exact h.children_of_above (h.mem_dropLast_path.mp ha) hm

theorem isExpanded?_expandTo {id a : Nat}
    (ha : x.Above a id ∨ x.isExpanded? a = some true) (hnode : ∃ m, x.node? a = some m) :
    (x.expandTo id).isExpanded? a = some true := by
  obtain ⟨m, hm⟩ := hnode
  rw [isExpanded?, h.node?_expandTo, hm, Option.map_some, Option.map_some]
  split
  · rfl
  · next hnot =>
    rcases ha with ha | ha
    · exact absurd (h.mem_dropLast_path.mpr ha) hnot
    · rw [isExpanded?, hm, Option.map_some] at ha
      exact ha

end Forest

theorem size_eq_of_folded {x y : Index} (h : y.folded = x.folded) : y.size = x.size := by
  have hsize := congrArg size h
  simpa [size, folded] using hsize

theorem toggle_toggle (x : Index) (id : Nat) : (x.toggle id).toggle id = x := by
  have hnode : ∀ i, ((x.toggle id).toggle id).node? i = x.node? i := by
    intro i
    simp only [toggle, node?_setExpanded, Option.map_map]
    cases x.node? i with
    | none => rfl
    | some n => by_cases hi : i = id <;> simp [hi]
  have hnodes : ((x.toggle id).toggle id).nodes = x.nodes := Array.ext_getElem? hnode
  calc (x.toggle id).toggle id
      = { x with nodes := ((x.toggle id).toggle id).nodes } := rfl
    _ = x := by rw [hnodes]

theorem isExpanded?_toggle (x : Index) (id : Nat) :
    (x.toggle id).isExpanded? id = (x.isExpanded? id).map (!·) := by
  rw [isExpanded?, toggle, node?_setExpanded, isExpanded?, Option.map_map, Option.map_map]
  congr 1
  funext n
  simp

/-- After any row of foldings the shown nodes come in the order of their numbers and are those
with nothing folded above them. Making a node visible shows it and all that was shown before,
and nothing but flags of nodes above it is changed by that. To toggle a flag changes its
state, and to toggle it again takes that back. -/
theorem ofTree_foldAll_visible (tree : Tree) (source : String) (steps : List Folding) :
    let x := (ofTree tree source).foldAll steps
    (x.visible.Pairwise (· < ·) ∧ ∀ id, id ∈ x.visible ↔
      id < x.size ∧ ∀ a, x.Above a id → x.isExpanded? a = some true) ∧
    (∀ id < x.size, id ∈ (x.expandTo id).visible ∧ x.visible ⊆ (x.expandTo id).visible ∧
      (x.expandTo id).folded = x.folded ∧
      ∀ i, ¬ x.Above i id → (x.expandTo id).node? i = x.node? i) ∧
    ∀ id, (x.toggle id).isExpanded? id = (x.isExpanded? id).map (!·) ∧
      (x.toggle id).toggle id = x := by
  intro x
  have hx : x.Forest := (ofTree_forest tree source).of_folded (folded_foldAll _ steps)
  refine ⟨⟨hx.visible_pairwise, fun id => hx.mem_visible⟩, ?_,
    fun id => ⟨x.isExpanded?_toggle id, x.toggle_toggle id⟩⟩
  intro id hid
  have hflags := x.folded_expandTo id
  have hsize := size_eq_of_folded hflags
  have hy : (x.expandTo id).Forest := hx.of_folded hflags
  have habove : ∀ a j, (x.expandTo id).Above a j ↔ x.Above a j := fun a j =>
    above_iff_of_folded hflags hx
  refine ⟨?_, ?_, hflags, ?_⟩
  · rw [hy.mem_visible, hsize]
    refine ⟨hid, fun a ha => ?_⟩
    rw [habove] at ha
    exact hx.isExpanded?_expandTo (.inl ha) (hx.exists_above ha)
  · intro j hj
    obtain ⟨hlt, hopen⟩ := hx.mem_visible.mp hj
    rw [hy.mem_visible, hsize]
    refine ⟨hlt, fun a ha => ?_⟩
    rw [habove] at ha
    exact hx.isExpanded?_expandTo (.inr (hopen a ha)) (hx.exists_above ha)
  · intro i hi
    simp [hx.node?_expandTo, mt hx.mem_dropLast_path.mp hi]

/-- Two roots; the second one is folded, a leaf below it is made visible, the node between them
is folded again, and a number that no node has is toggled. -/
theorem stacked_foldAll_visible :
    let x := (ofTree stacked "this+abc").foldAll [.toggle 1, .expandTo 5, .toggle 2, .toggle 9]
    x.visible = [0, 1, 2] ∧ x.isExpanded? 1 = some true ∧
      4 < x.size ∧ 4 ∈ (x.expandTo 4).visible ∧ x.visible ⊆ (x.expandTo 4).visible ∧
      (x.expandTo 4).folded = x.folded ∧ (x.expandTo 4).node? 0 = x.node? 0 := by
  intro x
  have hlt : 4 < x.size := by decide +kernel
  have hbefore : x.visible = [0, 1, 2] := by
    rw [visible_eq]
    decide +kernel
  have hpath : (x.path 4).dropLast = [1, 2] := by decide +kernel
  have hx : x.Forest := (ofTree_forest stacked "this+abc").of_folded (folded_foldAll _ _)
  obtain ⟨_, hmake, _⟩ := ofTree_foldAll_visible stacked "this+abc"
    [.toggle 1, .expandTo 5, .toggle 2, .toggle 9]
  obtain ⟨hshown, hkept, hflags, hrest⟩ := hmake 4 hlt
  have hnot : ¬ x.Above 0 4 := by
    rw [← hx.mem_dropLast_path, hpath]
    decide
  exact ⟨hbefore, by decide +kernel, hlt, hshown, hkept, hflags, hrest 0 hnot⟩

end Index

end ScriptLens
