import ScriptLens.Rose

/-! # Nodes of rose trees

Statements about every node of a tree, and induction over a tree from the children of a node
to the node. The nodes of a tree are those that its ways lead to.
-/
namespace ScriptLens.Rose

variable {α : Type}

@[simp] theorem head_node (head : α) (children : List (Rose α)) :
    (node head children).head = head := rfl

@[simp] theorem children_node (head : α) (children : List (Rose α)) :
    (node head children).children = children := rfl

theorem eq_of_parts {t u : Rose α} (head : t.head = u.head) (children : t.children = u.children) :
    t = u := by
  cases t
  cases u
  cases head
  cases children
  rfl

theorem nodesOf_eq (ts : List (Rose α)) : nodesOf ts = ts.flatMap nodes := by
  induction ts with
  | nil => rfl
  | cons t rest ih => rw [nodesOf, ih, List.flatMap_cons]

theorem nodes_eq (t : Rose α) : t.nodes = t :: t.children.flatMap nodes := by
  cases t with
  | node head children => rw [nodes, nodesOf_eq, children_node]

theorem mem_nodes_self (t : Rose α) : t ∈ t.nodes := by
  rw [nodes_eq]
  exact List.mem_cons_self

theorem mem_nodes_of_child {t c n : Rose α} (hc : c ∈ t.children) (hn : n ∈ c.nodes) :
    n ∈ t.nodes := by
  rw [nodes_eq]
  exact List.mem_cons_of_mem _ (List.mem_flatMap.mpr ⟨c, hc, hn⟩)

theorem at?_concat (t : Rose α) (way : List Nat) (i : Nat) :
    t.at? (way ++ [i]) = (t.at? way).bind (·.children[i]?) := by
  induction way generalizing t with
  | nil => simp [at?]
  | cons j way ih => simp only [List.cons_append, at?, Option.bind_assoc, ih]

theorem mem_nodes_of_at? {t u : Rose α} {way : List Nat} (h : t.at? way = some u) :
    u ∈ t.nodes := by
  induction way generalizing t with
  | nil =>
    cases h
    exact mem_nodes_self _
  | cons i way ih =>
    obtain ⟨c, hc, hu⟩ := Option.bind_eq_some_iff.mp h
    exact mem_nodes_of_child (List.mem_of_getElem? hc) (ih hu)

theorem child_mem_nodes {t u c : Rose α} {way : List Nat} (h : t.at? way = some u)
    (hc : c ∈ u.children) : c ∈ t.nodes := by
  obtain ⟨i, hi⟩ := List.mem_iff_getElem?.mp hc
  have hway : t.at? (way ++ [i]) = some c := by rw [at?_concat, h, Option.bind_some, hi]
  exact mem_nodes_of_at? hway

/-- What holds of a node whenever it holds of its children holds of every node. -/
theorem children_induction {motive : Rose α → Prop}
    (step : ∀ t, (∀ c ∈ t.children, motive c) → motive t) (t : Rose α) : motive t :=
  step t fun c _ => children_induction step c
termination_by sizeOf t
decreasing_by
  have hlt := List.sizeOf_lt_of_mem (by assumption : c ∈ t.children)
  cases t
  simp only [node.sizeOf_spec, children_node] at *
  omega

theorem mem_nodes_trans {t u n : Rose α} (hu : u ∈ t.nodes) (hn : n ∈ u.nodes) : n ∈ t.nodes := by
  induction t using children_induction with
  | step t ih =>
    rw [nodes_eq] at hu
    rcases List.mem_cons.mp hu with rfl | hu
    · exact hn
    · obtain ⟨c, hc, hu⟩ := List.mem_flatMap.mp hu
      exact mem_nodes_of_child hc (ih c hc hu)

/-! ## Levels -/

mutual

def height : Rose α → Nat
  | .node _ children => 1 + heights children

def heights : List (Rose α) → Nat
  | [] => 0
  | t :: rest => max t.height (heights rest)

end

theorem height_eq (t : Rose α) : t.height = 1 + heights t.children := by
  cases t
  rfl

theorem height_le_heights {c : Rose α} {ts : List (Rose α)} (hc : c ∈ ts) :
    c.height ≤ heights ts := by
  induction ts with
  | nil => cases hc
  | cons t rest ih =>
    rw [heights]
    rcases List.mem_cons.mp hc with rfl | hc
    · exact Nat.le_max_left _ _
    · exact Nat.le_trans (ih hc) (Nat.le_max_right _ _)

theorem heights_le_iff {ts : List (Rose α)} {d : Nat} :
    heights ts ≤ d ↔ ∀ c ∈ ts, c.height ≤ d := by
  induction ts with
  | nil => simp [heights]
  | cons t rest ih => rw [heights, Nat.max_le, ih, List.forall_mem_cons]

theorem height_le_iff {t : Rose α} {d : Nat} :
    t.height ≤ d ↔ ∀ way n, t.at? way = some n → way.length < d := by
  induction t using children_induction generalizing d with
  | step t ih =>
    rw [height_eq]
    constructor
    · intro hle way n hn
      cases way with
      | nil =>
        rw [List.length_nil]
        omega
      | cons i way =>
        obtain ⟨c, hc, hn⟩ := Option.bind_eq_some_iff.mp hn
        have hmem := List.mem_of_getElem? hc
        have hbelow := (ih c hmem).mp (height_le_heights hmem) way n hn
        rw [List.length_cons]
        omega
    · intro hways
      have hpos := hways [] t rfl
      have hbelow : heights t.children ≤ d - 1 := by
        rw [heights_le_iff]
        intro c hc
        rw [ih c hc]
        intro way n hn
        obtain ⟨i, hi⟩ := List.mem_iff_getElem?.mp hc
        have hlt := hways (i :: way) n (by rw [at?, hi, Option.bind_some, hn])
        rw [List.length_cons] at hlt
        omega
      rw [List.length_nil] at hpos
      omega

mutual

/-- The node itself, which has this depth, and all nodes below it, in pre-order and each with its
own depth. -/
def leveled (depth : Nat) : Rose α → List (Nat × Rose α)
  | .node head children => (depth, .node head children) :: leveledOf (depth + 1) children

def leveledOf (depth : Nat) : List (Rose α) → List (Nat × Rose α)
  | [] => []
  | t :: rest => t.leveled depth ++ leveledOf depth rest

end

theorem leveledOf_eq (depth : Nat) (ts : List (Rose α)) :
    leveledOf depth ts = ts.flatMap (leveled depth) := by
  induction ts with
  | nil => rfl
  | cons t rest ih => rw [leveledOf, ih, List.flatMap_cons]

theorem leveled_eq (depth : Nat) (t : Rose α) :
    t.leveled depth = (depth, t) :: t.children.flatMap (leveled (depth + 1)) := by
  cases t with
  | node head children => rw [leveled, leveledOf_eq, children_node]

theorem le_of_mem_leveled {depth : Nat} {t : Rose α} {n : Nat × Rose α} (h : n ∈ t.leveled depth) :
    depth ≤ n.1 := by
  induction t using children_induction generalizing depth with
  | step t ih =>
    rw [leveled_eq] at h
    rcases List.mem_cons.mp h with rfl | h
    · exact Nat.le_refl _
    · obtain ⟨c, hc, hn⟩ := List.mem_flatMap.mp h
      exact Nat.le_of_succ_le (ih c hc hn)

/-! ## Pruning -/

mutual

/-- The tree without the nodes below its root that are to be dropped. -/
def prune (drop : α → Bool) : Rose α → Rose α
  | .node head children => .node head (prunes drop children)

def prunes (drop : α → Bool) : List (Rose α) → List (Rose α)
  | [] => []
  | t :: rest => if drop t.head then prunes drop rest else t.prune drop :: prunes drop rest

end

theorem prunes_eq (drop : α → Bool) (ts : List (Rose α)) :
    prunes drop ts = (ts.filter (!drop ·.head)).map (prune drop) := by
  induction ts with
  | nil => rfl
  | cons t rest ih =>
    rw [prunes]
    split <;> simp_all

@[simp] theorem head_prune (drop : α → Bool) (t : Rose α) : (t.prune drop).head = t.head := by
  cases t
  rw [prune, head_node, head_node]

theorem children_prune (drop : α → Bool) (t : Rose α) :
    (t.prune drop).children = (t.children.filter (!drop ·.head)).map (prune drop) := by
  cases t
  rw [prune, children_node, children_node, prunes_eq]

theorem prune_congr {drop drop' : α → Bool} {t : Rose α}
    (h : ∀ n ∈ t.nodes, drop n.head = drop' n.head) : t.prune drop = t.prune drop' := by
  induction t using children_induction with
  | step t ih =>
    cases t with
    | node head children =>
      have hbelow : ∀ c ∈ children, drop c.head = drop' c.head ∧ c.prune drop = c.prune drop' := by
        intro c hc
        refine ⟨h c (mem_nodes_of_child hc c.mem_nodes_self), ih c hc ?_⟩
        intro n hn
        exact h n (mem_nodes_of_child hc hn)
      have hkept : children.filter (!drop ·.head) = children.filter (!drop' ·.head) := by
        apply List.filter_congr
        intro c hc
        rw [(hbelow c hc).1]
      rw [prune, prune, prunes_eq, prunes_eq, hkept]
      congr 1
      apply List.map_congr_left
      intro c hc
      exact (hbelow c (List.mem_filter.mp hc).1).2

/-- If only leaves are dropped, all other nodes below the root stay as they are. -/
theorem heads_prune {drop : α → Bool} {t : Rose α}
    (h : ∀ n ∈ t.nodes, drop n.head = true → n.children = []) :
    (t.prune drop).nodes.tail.map head = (t.nodes.tail.map head).filter (!drop ·) := by
  induction t using children_induction with
  | step t ih =>
    rw [nodes_eq, nodes_eq t, List.tail_cons, List.tail_cons, children_prune]
    have hbelow : ∀ c ∈ t.children, ∀ n ∈ c.nodes, drop n.head = true → n.children = [] :=
      fun c hc n hn => h n (mem_nodes_of_child hc hn)
    generalize t.children = children at ih hbelow
    induction children with
    | nil => rfl
    | cons c rest ihrest =>
      have hrest := ihrest (fun d hd => ih d (List.mem_cons_of_mem _ hd))
        (fun d hd => hbelow d (List.mem_cons_of_mem _ hd))
      have hfirst := ih c List.mem_cons_self (hbelow c List.mem_cons_self)
      rw [List.flatMap_cons, List.map_append, List.filter_append, ← hrest, nodes_eq c,
        List.map_cons, List.filter_cons, List.filter_cons]
      cases hdrop : drop c.head with
      | true =>
        have hleaf := hbelow c List.mem_cons_self c c.mem_nodes_self hdrop
        simp [hleaf]
      | false =>
        rw [nodes_eq c, nodes_eq (c.prune drop), List.tail_cons, List.tail_cons] at hfirst
        simp [nodes_eq (c.prune drop), ← hfirst]

end ScriptLens.Rose
