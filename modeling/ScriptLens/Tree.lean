import ScriptLens.NodeKind
import ScriptLens.Span

/-! # Uniform trees

A tree in which every node has a kind, a span, a label and perhaps a name. A node
may be unable to tell its span, and a sealed node does not give its children; both
happen in trees put together while a program is being repaired.
-/
namespace ScriptLens

structure TreeHead where
  kind : NodeKind
  span : Option Span
  label : String
  name : Option String

inductive Tree where
  | node (head : TreeHead) (isSealed : Bool) (children : List Tree)

namespace Tree

def inner (kind : NodeKind) (span : Span) (label : String) (children : List Tree) : Tree :=
  .node ⟨kind, some span, label, none⟩ false children

def leaf (kind : NodeKind) (span : Span) (label : String) (name : Option String) : Tree :=
  .node ⟨kind, some span, label, name⟩ false []

def head : Tree → TreeHead
  | .node head _ _ => head

/-- The children that a walk can reach. -/
def children : Tree → List Tree
  | .node _ true _ => []
  | .node _ false children => children

/-- The span of a node that can be placed in the text. -/
def placed? (t : Tree) : Option Span := t.head.span.filter (!·.isNowhere)

end Tree

mutual

/-- The number of nodes of a tree, those below sealed nodes included. -/
def Tree.size : Tree → Nat
  | .node _ _ children => 1 + Tree.sizes children

def Tree.sizes : List Tree → Nat
  | [] => 0
  | t :: rest => t.size + Tree.sizes rest

end

theorem Tree.sizes_children_lt (t : Tree) : Tree.sizes t.children < t.size := by
  cases t with
  | node head isSealed children =>
    cases isSealed <;> simp only [Tree.children, Tree.size, Tree.sizes] <;> omega

end ScriptLens
