import ScriptLens.Index.Basic

/-! # Queries by position

The node under an offset, the way from a root to a node, and the passage between
offsets, lines and texts.
-/
namespace ScriptLens.Index

/-- Of two nodes that hold an offset the shorter is better, then the deeper, then
the one found first. -/
def better (best : Option NodeRecord) (n : NodeRecord) : Option NodeRecord :=
  match best with
  | none => some n
  | some current =>
    if current.length < n.length || (n.length == current.length && n.depth ≤ current.depth) then
      some current
    else some n

/-- The best node that holds an offset. The search ends with the first node that
starts behind it. -/
def nodeAt? (x : Index) (offset : Nat) : Option NodeRecord :=
  (((x.order.filterMap x.node?).takeWhile (·.span.start ≤ offset)).filter
    (·.contains offset)).foldl better none

/-- A node and its ancestors, the node first. A parent has a smaller number than its
children. -/
def chain (x : Index) (id : Nat) : List Nat :=
  match x.node? id with
  | none => []
  | some n =>
    match n.parent with
    | none => [id]
    | some p => if p < id then id :: chain x p else [id]
termination_by id

def path (x : Index) (id : Nat) : List Nat := (x.chain id).reverse

def lineCol (x : Index) (offset : Nat) : Nat × Nat := x.lines.lineCol offset

def offsetAt? (x : Index) (line col : UInt64) : Except Text.Overflow (Option Nat) :=
  x.lines.offsetAt? line col

def textOf? (x : Index) (id : Nat) : Option String :=
  (x.node? id).bind fun n =>
    let bytes := x.source.toUTF8
    Text.slice? bytes (n.span.start - 1) (min (n.span.stop - 1) bytes.size)

end ScriptLens.Index
