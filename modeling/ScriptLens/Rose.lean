/-! # Rose trees

A node has a head and any number of children. A node is named by the way to it from the root:
which child is taken at each node.
-/
namespace ScriptLens

inductive Rose (α : Type) where
  | node (head : α) (children : List (Rose α))

namespace Rose

variable {α : Type}

instance [Inhabited α] : Inhabited (Rose α) := ⟨.node default []⟩

def head : Rose α → α
  | .node head _ => head

def children : Rose α → List (Rose α)
  | .node _ children => children

mutual

/-- All nodes in pre-order. -/
def nodes : Rose α → List (Rose α)
  | .node head children => .node head children :: nodesOf children

def nodesOf : List (Rose α) → List (Rose α)
  | [] => []
  | t :: rest => t.nodes ++ nodesOf rest

end

def leaves (t : Rose α) : List (Rose α) := t.nodes.filter (·.children.isEmpty)

mutual

def size : Rose α → Nat
  | .node _ children => 1 + sizes children

def sizes : List (Rose α) → Nat
  | [] => 0
  | t :: rest => t.size + sizes rest

end

theorem sizes_append (ts us : List (Rose α)) : sizes (ts ++ us) = sizes ts + sizes us := by
  induction ts with
  | nil => exact (Nat.zero_add _).symm
  | cons t rest ih => rw [List.cons_append, sizes, sizes, ih, Nat.add_assoc]

theorem size_eq (t : Rose α) : t.size = 1 + sizes t.children := by
  cases t
  rfl

/-- The node at the end of a way. -/
def at? (t : Rose α) : List Nat → Option (Rose α)
  | [] => some t
  | i :: way => (t.children[i]?).bind (·.at? way)

/-- The nodes along a way, the root first, if the way stays inside the tree. -/
def along? (t : Rose α) : List Nat → Option (List (Rose α))
  | [] => some [t]
  | i :: way => (t.children[i]?).bind fun child => (child.along? way).map (t :: ·)

end Rose

end ScriptLens
