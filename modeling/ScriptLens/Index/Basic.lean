import ScriptLens.NodeKind
import ScriptLens.Span
import ScriptLens.Text.Lines
import ScriptLens.Text.Utf8
import Std.Data.HashMap

/-! # The node index

The nodes of a tree, numbered from zero in pre-order. A record knows its parent and
its children by number, lies inside its parent and carries a flag that says whether
its children are shown. The span that a node had before it was fitted into its
parent finds the first node of that kind and span.
-/
namespace ScriptLens

structure NodeRecord where
  id : Nat
  kind : NodeKind
  span : Span
  /-- Line and column of the first byte. -/
  first : Nat × Nat
  /-- Line and column of the byte after the last. -/
  last : Nat × Nat
  label : String
  name : Option String
  parent : Option Nat
  children : Array Nat
  depth : Nat
  isExpanded : Bool

structure Index where
  nodes : Array NodeRecord
  roots : Array Nat
  /-- All numbers by ascending start, then descending end, then number. -/
  order : List Nat
  keys : Std.HashMap (NodeKind × Span) Nat
  source : String
  lines : Text.Lines

namespace NodeRecord

def length (n : NodeRecord) : Nat := n.span.length

def isEmpty (n : NodeRecord) : Bool := n.span.start == n.span.stop

def contains (n : NodeRecord) (offset : Nat) : Bool := n.span.contains offset

def isRoot (n : NodeRecord) : Bool := n.parent.isNone

/-- The order in which positions are searched. -/
def isBefore (a b : NodeRecord) : Bool :=
  if a.span.start ≠ b.span.start then a.span.start < b.span.start
  else if a.span.stop ≠ b.span.stop then b.span.stop < a.span.stop
  else a.id ≤ b.id

end NodeRecord

namespace Index

def size (x : Index) : Nat := x.nodes.size

def isEmpty (x : Index) : Bool := x.nodes.isEmpty

def root? (x : Index) : Option Nat := x.roots[0]?

def node? (x : Index) (id : Nat) : Option NodeRecord := x.nodes[id]?

def parent? (x : Index) (id : Nat) : Option NodeRecord :=
  (x.node? id).bind fun n => n.parent.bind x.node?

def children (x : Index) (id : Nat) : List NodeRecord :=
  ((x.node? id).map fun n => n.children.toList.filterMap x.node?).getD []

/-- The first node that had this kind and span in its tree. -/
def find? (x : Index) (kind : NodeKind) (span : Span) : Option Nat := x.keys[(kind, span)]?

theorem lt_size_of_node? {x : Index} {id : Nat} {n : NodeRecord} (h : x.node? id = some n) :
    id < x.size := by
  simp only [node?, Array.getElem?_eq_some_iff] at h
  exact h.1

end Index

end ScriptLens
