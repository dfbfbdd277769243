import ScriptLens.Proofs.Snapshot.Ways

/-! # Chains of nodes

Where children lie in their parent and share no point with each other, the nodes that hold a
point are the nodes on one way from the root. The search for the point goes this way to its end,
although at each node it looks no further than the first child that holds the point. The path to
the node it finds is found again by a search through the whole snapshot for the place of the node.
-/
namespace ScriptLens

open Rose

namespace Point

variable {p q r : Point}

theorem upTo_trans (h : p.upTo q = true) (h' : q.upTo r = true) : p.upTo r = true := by
  simp only [upTo, Bool.or_eq_true, Bool.and_eq_true, decide_eq_true_eq, beq_iff_eq] at *
  omega

theorem before_of_upTo (h : p.before q = true) (h' : q.upTo r = true) : p.before r = true := by
  simp only [upTo, before, Bool.or_eq_true, Bool.and_eq_true, decide_eq_true_eq,
    beq_iff_eq] at *
  omega

end Point

namespace Snapshot

variable {s u : Snapshot} {p : Point} {way : List Nat}

/-! ## The search for a place -/

mutual

/-- The path to the node in a place, searched from a node on: the node itself if it is there, or
else what is found below the first child below which there is something. -/
def pathFrom? (target here : List Nat) : Snapshot → Option (List Snapshot)
  | .node head children =>
    if here = target then some [.node head children]
    else (pathInto? target here 0 children).map (.node head children :: ·)

def pathInto? (target here : List Nat) (index : Nat) : List Snapshot → Option (List Snapshot)
  | [] => none
  | s :: rest =>
    (pathFrom? target (here ++ [index]) s).or (pathInto? target here (index + 1) rest)

end

def pathTo? (s : Snapshot) (target : List Nat) : Option (List Snapshot) := s.pathFrom? target []

mutual

theorem pathFrom?_of_elsewhere {target here : List Nat} (h : ¬ here <+: target) :
    (s : Snapshot) → s.pathFrom? target here = none
  | .node head children => by
    have hne : here ≠ target := by
      rintro rfl
      exact h List.prefix_rfl
    have hbelow : ∀ index, ¬ here ++ [index] <+: target := fun _ hp =>
      h ((List.prefix_append _ _).trans hp)
    rw [pathFrom?, if_neg hne, pathInto?_of_elsewhere 0 (fun i _ => hbelow i) children]
    rfl

theorem pathInto?_of_elsewhere {target here : List Nat} (index : Nat)
    (h : ∀ i, index ≤ i → ¬ here ++ [i] <+: target) :
    (siblings : List Snapshot) → pathInto? target here index siblings = none
  | [] => rfl
  | s :: rest => by
    rw [pathInto?, pathFrom?_of_elsewhere (h index (Nat.le_refl _)) s,
      pathInto?_of_elsewhere (index + 1) (fun i hi => h i (Nat.le_of_succ_le hi)) rest]
    rfl

end

mutual

/-- The search finds the path along a way to the place where the way leads. -/
theorem pathFrom?_append (here : List Nat) :
    (way : List Nat) → (s : Snapshot) → s.pathFrom? (here ++ way) here = s.along? way
  | [], .node head children => by
    rw [List.append_nil, pathFrom?, if_pos rfl]
    rfl
  | i :: way, .node head children => by
    have hne : here ≠ here ++ i :: way := by simp
    have hinto := pathInto?_append here 0 i way children
    rw [Nat.zero_add] at hinto
    rw [pathFrom?, if_neg hne, hinto, Option.map_bind]
    rfl

theorem pathInto?_append (here : List Nat) (index i : Nat) (way : List Nat) :
    (siblings : List Snapshot) →
      pathInto? (here ++ (index + i) :: way) here index siblings =
        siblings[i]?.bind (·.along? way)
  | [] => rfl
  | s :: rest => by
    have hother : ∀ j, j ≠ index + i → ¬ here ++ [j] <+: here ++ (index + i) :: way := by
      intro j hj hp
      rw [List.prefix_append_right_inj, List.cons_prefix_cons] at hp
      exact hj hp.1
    rw [pathInto?]
    cases i with
    | zero =>
      have hsplit : here ++ (index + 0) :: way = (here ++ [index]) ++ way := by simp
      rw [pathInto?_of_elsewhere (index + 1) (fun j hj => hother j (by omega)) rest, Option.or_none,
        hsplit, pathFrom?_append (here ++ [index]) way s]
      rfl
    | succ i =>
      have hinto := pathInto?_append here (index + 1) i way rest
      rw [Nat.add_right_comm, Nat.add_assoc] at hinto
      rw [pathFrom?_of_elsewhere (hother index (by omega)) s, Option.none_or, hinto,
        List.getElem?_cons_succ]

end

theorem pathTo?_eq (s : Snapshot) (way : List Nat) : s.pathTo? way = s.along? way :=
  pathFrom?_append [] way s

theorem ends_of_along? {path : List Snapshot} (hpath : s.along? way = some path)
    (hu : s.at? way = some u) : path.head? = some s ∧ path.getLast? = some u := by
  induction way generalizing s path with
  | nil =>
    cases hpath
    cases hu
    exact ⟨rfl, rfl⟩
  | cons i way ih =>
    obtain ⟨c, hc, hu⟩ := Option.bind_eq_some_iff.mp hu
    obtain ⟨d, hd, hpath⟩ := Option.bind_eq_some_iff.mp hpath
    obtain ⟨rest, hrest, rfl⟩ := Option.map_eq_some_iff.mp hpath
    obtain rfl := Option.some.inj (hc.symm.trans hd)
    have hlast := (ih hrest hu).2
    exact ⟨rfl, by rw [List.getLast?_cons, hlast, Option.getD_some]⟩

/-! ## The nodes that hold a point -/

/-- The children of every node lie in it, and no two of them share a point. -/
structure Nested (s : Snapshot) : Prop where
  inside : ∀ u ∈ s.nodes, ∀ c ∈ u.children,
    u.head.start.upTo c.head.start = true ∧ c.head.stop.upTo u.head.stop = true
  apart : ∀ u ∈ s.nodes, u.children.Pairwise fun c d =>
    ∀ p, ¬ (c.head.contains p = true ∧ d.head.contains p = true)

namespace Nested

theorem child (h : s.Nested) {c : Snapshot} (hc : c ∈ s.children) : c.Nested :=
  ⟨fun u hu => h.inside u (mem_nodes_of_child hc hu),
    fun u hu => h.apart u (mem_nodes_of_child hc hu)⟩

theorem of_ordered
    (inside : ∀ u ∈ s.nodes, ∀ c ∈ u.children,
      u.head.start.upTo c.head.start = true ∧ c.head.stop.upTo u.head.stop = true)
    (ordered : ∀ u ∈ s.nodes, u.children.Pairwise fun c d => c.head.stop.upTo d.head.start = true) :
    s.Nested := by
  refine ⟨inside, fun u hu => (ordered u hu).imp fun hle p ⟨hc, hd⟩ => ?_⟩
  simp only [SnapshotHead.contains, Bool.and_eq_true] at hc hd
  have hlt := Point.before_of_upTo (Point.before_of_upTo hc.2 hle) hd.1
  simp only [Point.before, Bool.or_eq_true, Bool.and_eq_true, decide_eq_true_eq, Nat.lt_irrefl,
    and_false, or_false] at hlt

theorem contains (h : s.Nested) (hu : u ∈ s.nodes) (hp : u.head.contains p = true) :
    s.head.contains p = true := by
  induction s using children_induction with
  | step s ih =>
    rw [nodes_eq] at hu
    rcases List.mem_cons.mp hu with rfl | hu
    · exact hp
    · obtain ⟨c, hc, hu⟩ := List.mem_flatMap.mp hu
      obtain ⟨hstart, hstop⟩ := h.inside s s.mem_nodes_self c hc
      have hcp := ih c hc (h.child hc) hu
      simp only [SnapshotHead.contains, Bool.and_eq_true] at hcp ⊢
      exact ⟨Point.upTo_trans hstart hcp.1, Point.before_of_upTo hcp.2 hstop⟩

theorem filter_nodes_eq_nil (h : s.Nested) (hp : s.head.contains p = false) :
    s.nodes.filter (·.head.contains p) = [] := by
  rw [List.filter_eq_nil_iff]
  intro u hu hup
  rw [h.contains hu hup] at hp
  cases hp

theorem filter_flatMap_nodes_eq_nil {siblings : List Snapshot}
    (h : ∀ c ∈ siblings, c.Nested ∧ c.head.contains p = false) :
    (siblings.flatMap nodes).filter (·.head.contains p) = [] := by
  rw [List.filter_flatMap, List.flatMap_eq_nil_iff]
  exact fun c hc => (h c hc).1.filter_nodes_eq_nil (h c hc).2

theorem eq_of_contains (h : s.Nested) {i j : Nat} {c d : Snapshot}
    (hc : s.children[i]? = some c) (hd : s.children[j]? = some d)
    (hcp : c.head.contains p = true) (hdp : d.head.contains p = true) : i = j := by
  have hapart := List.pairwise_iff_getElem.mp (h.apart s s.mem_nodes_self)
  obtain ⟨hi, rfl⟩ := List.getElem?_eq_some_iff.mp hc
  obtain ⟨hj, rfl⟩ := List.getElem?_eq_some_iff.mp hd
  rcases Nat.lt_trichotomy i j with hlt | heq | hlt
  · exact absurd ⟨hcp, hdp⟩ (hapart i j hi hj hlt p)
  · exact heq
  · exact absurd ⟨hdp, hcp⟩ (hapart j i hj hi hlt p)

/-- The way of the search passes exactly the nodes that hold the point. -/
theorem along?_descend (h : s.Nested) (hp : s.head.contains p = true) :
    s.along? (s.descend p) = some (s.nodes.filter (·.head.contains p)) := by
  induction s using children_induction with
  | step s ih =>
    have hdescend : descend p s = descendInto p 0 s.children := by
      cases s
      rfl
    rw [hdescend, nodes_eq, List.filter_cons, if_pos hp]
    rcases descendInto_spec p 0 s.children with ⟨hnone, hrest⟩ | ⟨i, c, hi, hcp, hway⟩
    · rw [hnone, filter_flatMap_nodes_eq_nil fun c hc => ⟨h.child hc, hrest c hc⟩]
      rfl
    · have hc := List.mem_of_getElem? hi
      rw [hway, Nat.zero_add, along?, hi, Option.bind_some, ih c hc (h.child hc) hcp,
        Option.map_some]
      obtain ⟨before, after, hsplit⟩ := List.append_of_mem hc
      have hapart := h.apart s s.mem_nodes_self
      rw [hsplit, List.pairwise_append, List.pairwise_cons] at hapart
      obtain ⟨_, ⟨hafter, _⟩, hbefore⟩ := hapart
      have hnested : ∀ d ∈ before ++ c :: after, d.Nested := fun d hd => h.child (hsplit ▸ hd)
      rw [hsplit, List.flatMap_append, List.flatMap_cons, List.filter_append, List.filter_append,
        filter_flatMap_nodes_eq_nil, filter_flatMap_nodes_eq_nil, List.append_nil, List.nil_append]
      · exact fun d hd => ⟨hnested d (by simp [hd]),
          Bool.eq_false_iff.mpr fun hdp => hafter d hd p ⟨hcp, hdp⟩⟩
      · exact fun d hd => ⟨hnested d (by simp [hd]),
          Bool.eq_false_iff.mpr fun hdp => hbefore d hd c List.mem_cons_self p ⟨hdp, hcp⟩⟩

/-- A node holds the point if and only if the search comes through its place. -/
theorem contains_iff_on_way (h : s.Nested) (hp : s.head.contains p = true)
    (hu : s.at? way = some u) : u.head.contains p = true ↔ way <+: s.descend p := by
  induction s using children_induction generalizing way with
  | step s ih =>
    have hdescend : descend p s = descendInto p 0 s.children := by
      cases s
      rfl
    rw [hdescend]
    cases way with
    | nil =>
      cases hu
      exact iff_of_true hp List.nil_prefix
    | cons j way =>
      obtain ⟨d, hd, hu⟩ := Option.bind_eq_some_iff.mp hu
      have hdmem := List.mem_of_getElem? hd
      have hholds : u.head.contains p = true → d.head.contains p = true :=
        (h.child hdmem).contains (mem_nodes_of_at? hu)
      rcases descendInto_spec p 0 s.children with ⟨hnone, hrest⟩ | ⟨i, c, hi, hcp, hway⟩
      · rw [hnone]
        refine iff_of_false (fun hup => ?_) (by simp)
        have hdp := hholds hup
        rw [hrest d hdmem] at hdp
        cases hdp
      · rw [hway, Nat.zero_add, List.cons_prefix_cons]
        constructor
        · intro hup
          obtain rfl := h.eq_of_contains hd hi (hholds hup) hcp
          obtain rfl := Option.some.inj (hd.symm.trans hi)
          exact ⟨rfl, (ih d hdmem (h.child hdmem) hcp hu).mp hup⟩
        · rintro ⟨rfl, hpassed⟩
          obtain rfl := Option.some.inj (hd.symm.trans hi)
          exact (ih d hdmem (h.child hdmem) hcp hu).mpr hpassed

end Nested

/-- In a snapshot whose children lie in their parents and apart from each other, no node is found
under a point exactly if no node holds the point. Otherwise the path to the place of the node that
is found starts at the root, ends at the node and consists of the nodes that hold the point, and
every other of these is less deep. -/
theorem nodeAt?_chain (s : Snapshot) (h : s.Nested) (p : Point) :
    (s.nodeAt? p = none ↔ ∀ u ∈ s.nodes, u.head.contains p = false) ∧
    ∀ u, s.nodeAt? p = some u → ∃ way path, s.wayTo? p = some way ∧ s.at? way = some u ∧
      s.pathTo? way = some path ∧ path.head? = some s ∧ path.getLast? = some u ∧
      path = s.nodes.filter (·.head.contains p) ∧
      ∀ w v, s.at? w = some v →
        (v.head.contains p = true ↔ w <+: way) ∧
        (v.head.contains p = true → w ≠ way → w.length < way.length) := by
  cases hp : s.head.contains p with
  | false =>
    have hnone : s.nodeAt? p = none := by rw [nodeAt?, wayTo?, hp]; rfl
    have hall : ∀ u ∈ s.nodes, u.head.contains p = false := fun u hu =>
      Bool.eq_false_iff.mpr fun hup => by rw [h.contains hu hup] at hp; cases hp
    refine ⟨iff_of_true hnone hall, fun u hu => ?_⟩
    rw [hnone] at hu
    cases hu
  | true =>
    obtain ⟨found, hfound, _, _⟩ := exists_at?_descend hp
    have hway : s.wayTo? p = some (s.descend p) := by rw [wayTo?, hp]; rfl
    have hsome : s.nodeAt? p = some found := by rw [nodeAt?, hway, Option.bind_some, hfound]
    have hpath := h.along?_descend hp
    constructor
    · refine iff_of_false (by rw [hsome]; exact Option.some_ne_none _) fun hall => ?_
      rw [hall s s.mem_nodes_self] at hp
      cases hp
    · intro u hu
      obtain rfl := Option.some.inj (hsome.symm.trans hu)
      obtain ⟨hhead, hlast⟩ := ends_of_along? hpath hfound
      refine ⟨_, _, hway, hfound, (pathTo?_eq s _).trans hpath, hhead, hlast, rfl, ?_⟩
      intro w v hv
      have hpassed := h.contains_iff_on_way hp hv
      refine ⟨hpassed, fun hvp hne => ?_⟩
      have hle := (hpassed.mp hvp).length_le
      refine Nat.lt_of_le_of_ne hle fun heq => hne ?_
      exact (hpassed.mp hvp).eq_of_length heq

/-- A node between two points, of which nothing else matters. -/
def between (kind : String) (start stop : Point) (children : List Snapshot) : Snapshot :=
  .node { (default : SnapshotHead) with kind := kind, start := start, stop := stop } children

/-- A snapshot with a node that goes over the end of a line, behind an empty one. -/
def brokenLine : Snapshot :=
  between "program" ⟨0, 0⟩ ⟨2, 1⟩
    [between "sum" ⟨0, 0⟩ ⟨1, 2⟩
        [between "number" ⟨0, 0⟩ ⟨0, 3⟩ [], between "missing" ⟨0, 3⟩ ⟨0, 3⟩ [],
          between "comment" ⟨0, 3⟩ ⟨1, 2⟩ []],
      between "name" ⟨1, 2⟩ ⟨2, 1⟩ []]

theorem brokenLine_chain :
    brokenLine.Nested ∧ brokenLine.nodeAt? ⟨2, 1⟩ = none ∧
    ∃ u path, brokenLine.nodeAt? ⟨0, 3⟩ = some u ∧ u.head.kind = "comment" ∧
      brokenLine.pathTo? [0, 2] = some path ∧ path.getLast? = some u ∧
      path = brokenLine.nodes.filter (·.head.contains ⟨0, 3⟩) ∧
      path.map (·.head.kind) = ["program", "sum", "comment"] ∧
      (u.head.contains ⟨0, 3⟩ = true ↔ [0, 2] <+: [0, 2]) ∧
      ([0].length < [0, 2].length) := by
  have hnested : brokenLine.Nested := .of_ordered (by decide) (by decide)
  obtain ⟨hnone, _⟩ := brokenLine.nodeAt?_chain hnested ⟨2, 1⟩
  obtain ⟨_, hsome⟩ := brokenLine.nodeAt?_chain hnested ⟨0, 3⟩
  obtain ⟨way, path, hway, hu, hpath, _, hlast, hnodes, hholds⟩ := hsome _ rfl
  obtain rfl := Option.some.inj (hway.symm.trans (by rfl : _ = some [0, 2]))
  refine ⟨hnested, hnone.mpr (by decide), _, path, rfl, rfl, hpath, hlast, hnodes, ?_,
    (hholds _ _ hu).1, (hholds [0] _ rfl).2 (by decide) (by decide)⟩
  rw [hnodes]
  rfl

end Snapshot

end ScriptLens
