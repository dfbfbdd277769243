import ScriptLens.Index.Query

/-! # Folding

A node is shown if all its ancestors are expanded. Only the flags of records change
here; the tree stays as it is.
-/
namespace ScriptLens.Index

def setExpanded (x : Index) (id : Nat) (flag : Bool → Bool) : Index :=
  { x with nodes := x.nodes.modify id fun n => { n with isExpanded := flag n.isExpanded } }

def toggle (x : Index) (id : Nat) : Index := x.setExpanded id (!·)

def isExpanded? (x : Index) (id : Nat) : Option Bool := (x.node? id).map (·.isExpanded)

/-- Expands a node if it has children. -/
def expand (x : Index) (id : Nat) : Index :=
  match x.node? id with
  | some n => if n.children.isEmpty then x else x.setExpanded id fun _ => true
  | none => x

def expandTo (x : Index) (id : Nat) : Index := (x.path id).dropLast.foldl expand x

/-- The shown nodes from a node on, in pre-order. Children have greater numbers than
their parent. -/
def visibleFrom (x : Index) (id : Nat) : List Nat :=
  match _h : x.node? id with
  | none => []
  | some n =>
    if n.isExpanded then
      id :: n.children.toList.flatMap fun c =>
        if _later : id < c then visibleFrom x c else []
    else [id]
termination_by x.size - id
decreasing_by
  have := lt_size_of_node? _h
  omega

theorem flatMap_ite_nil {α β : Type} (p : α → Prop) [DecidablePred p] (f : α → List β)
    (items : List α) :
    (items.flatMap fun a => if p a then f a else []) = (items.filter p).flatMap f := by
  induction items with
  | nil => rfl
  | cons a items ih =>
    rw [List.flatMap_cons, ih, List.filter_cons]
    by_cases h : p a <;> simp [h]

/-- The nodes that a shown node puts in front of the pending ones. -/
def unfolded (id : Nat) (n : NodeRecord) : List Nat :=
  if n.isExpanded then n.children.toList.filter (id < ·) else []

theorem visibleFrom_of_none {x : Index} {id : Nat} (h : x.node? id = none) :
    x.visibleFrom id = [] := by
  rw [visibleFrom]
  split <;> simp_all

theorem visibleFrom_eq {x : Index} {id : Nat} {n : NodeRecord} (h : x.node? id = some n) :
    x.visibleFrom id = id :: (unfolded id n).flatMap x.visibleFrom := by
  rw [visibleFrom, unfolded]
  split
  · next hnone =>
    rw [h] at hnone
    cases hnone
  · next m hm =>
    rw [h] at hm
    cases hm
    split
    · simp only [dite_eq_ite, flatMap_ite_nil]
    · rfl

def showAll (x : Index) (shown : Array Nat) : List Nat → Array Nat
  | [] => shown
  | id :: pending =>
    match _h : x.node? id with
    | none => showAll x shown pending
    | some n => showAll x (shown.push id) (unfolded id n ++ pending)
termination_by pending => ((pending.flatMap x.visibleFrom).length, pending.length)
decreasing_by
  · simp only [List.flatMap_cons, visibleFrom_of_none _h, List.nil_append, List.length_cons]
    exact .right _ (Nat.lt_succ_self _)
  · simp only [List.flatMap_cons, visibleFrom_eq _h, List.flatMap_append, List.cons_append,
      List.length_cons]
    exact .left _ _ (Nat.lt_succ_self _)

def visible (x : Index) : List Nat := (x.showAll #[] x.roots.toList).toList

end ScriptLens.Index
