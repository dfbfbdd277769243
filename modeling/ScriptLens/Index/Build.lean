import ScriptLens.Index.Basic
import ScriptLens.Tree

/-! # Building an index

A walk over a list of pending nodes, each with the number of the nearest ancestor
that has a record. A node without a place gets no record, and its children take its
ancestor for theirs; a sealed node keeps its children to itself.
-/
namespace ScriptLens

structure IndexBuilder where
  nodes : Array NodeRecord
  roots : Array Nat
  keys : Std.HashMap (NodeKind × Span) Nat
  lines : Text.Lines

namespace IndexBuilder

def empty (lines : Text.Lines) : IndexBuilder := ⟨#[], #[], ∅, lines⟩

/-- A span that starts in the text and does not end before it starts. -/
def straighten (raw : Span) : Span :=
  let start := max raw.start 1
  ⟨start, max raw.stop start⟩

/-- A span moved into the span of its parent. -/
def fit (parent s : Span) : Span :=
  let start := max parent.start (min s.start parent.stop)
  ⟨start, max start (min s.stop parent.stop)⟩

def record (b : IndexBuilder) (head : TreeHead) (raw : Span) (parent : Option NodeRecord) :
    NodeRecord :=
  let span := match parent with
    | some p => fit p.span (straighten raw)
    | none => straighten raw
  { id := b.nodes.size
    kind := head.kind
    span := span
    first := b.lines.lineCol span.start
    last := b.lines.lineCol span.stop
    label := head.label
    name := head.name
    parent := parent.map NodeRecord.id
    children := #[]
    depth := (parent.map (·.depth + 1)).getD 0
    isExpanded := parent.isNone }

/-- Adds a record, and its number to its parent or to the roots. -/
def insert (b : IndexBuilder) (head : TreeHead) (raw : Span) (parent : Option Nat) :
    IndexBuilder :=
  let id := b.nodes.size
  let above := parent.bind fun p => b.nodes[p]?
  let added := b.record head raw above
  { b with
    nodes := match above with
      | some p =>
        (b.nodes.modify p.id fun n => { n with children := n.children.push id }).push added
      | none => b.nodes.push added
    roots := if above.isNone then b.roots.push id else b.roots
    keys := b.keys.insertIfNew (head.kind, raw) id }

/-- One node of the walk: the builder after it and the ancestor of its children. -/
def visit (b : IndexBuilder) (parent : Option Nat) (t : Tree) :
    IndexBuilder × Option Nat :=
  match t.placed? with
  | some raw => (b.insert t.head raw parent, some b.nodes.size)
  | none => (b, parent)

end IndexBuilder

def pendingSize : List (Option Nat × Tree) → Nat
  | [] => 0
  | (_, t) :: rest => t.size + pendingSize rest

theorem pendingSize_map (parent : Option Nat) (trees : List Tree) :
    pendingSize (trees.map (parent, ·)) = Tree.sizes trees := by
  induction trees with
  | nil => rfl
  | cons t rest ih => rw [List.map_cons, pendingSize, ih, Tree.sizes]

theorem pendingSize_append (p q : List (Option Nat × Tree)) :
    pendingSize (p ++ q) = pendingSize p + pendingSize q := by
  induction p with
  | nil => exact (Nat.zero_add _).symm
  | cons t rest ih => rw [List.cons_append, pendingSize, pendingSize, ih, Nat.add_assoc]

namespace IndexBuilder

def walk (b : IndexBuilder) : List (Option Nat × Tree) → IndexBuilder
  | [] => b
  | (parent, t) :: rest =>
    let (b, attach) := b.visit parent t
    walk b (t.children.map (attach, ·) ++ rest)
termination_by pending => pendingSize pending
decreasing_by
  rw [pendingSize_append, pendingSize_map]
  have := t.sizes_children_lt
  rw [pendingSize]
  omega

end IndexBuilder

namespace Index

/-- The index of a tree over the text it was read from. -/
def ofTree (tree : Tree) (source : String) : Index :=
  let lines := Text.Lines.ofBytes source.toUTF8
  let built := (IndexBuilder.empty lines).walk [(none, tree)]
  { nodes := built.nodes
    roots := built.roots
    order := (built.nodes.toList.mergeSort NodeRecord.isBefore).map NodeRecord.id
    keys := built.keys
    source := source
    lines := lines }

end Index

end ScriptLens
