import ScriptLens.Cst.Basic

/-! # Snapshots

A copy of a concrete tree that needs no source any more. Positions are rows and
columns, and only leaves have a text. Copies may be cut at a depth; a node whose
children were cut off has neither text nor children.
-/
namespace ScriptLens

structure SnapshotHead where
  kind : String
  text : Option String
  start : Point
  stop : Point
  startByte : Nat
  stopByte : Nat
  isError : Bool
  isMissing : Bool
deriving DecidableEq, Inhabited

abbrev Snapshot := Rose SnapshotHead

/-- Whether a node holds a point; its end is no part of it. -/
def SnapshotHead.contains (h : SnapshotHead) (p : Point) : Bool :=
  h.start.upTo p && p.before h.stop

namespace Snapshot

def defaultDepth : Nat := 512

def hasError (s : Snapshot) : Bool := s.nodes.any (·.head.isError)

def leafText (s : Snapshot) : String :=
  String.ofList (s.nodes.flatMap fun n => (n.head.text.getD "").toList)

/-- A leaf's own text, the leaf texts of any other node. -/
def source (s : Snapshot) : String := s.head.text.getD s.leafText

end Snapshot

def CstHead.snapshot (source : ByteArray) (isLeaf : Bool) (h : CstHead) : SnapshotHead :=
  { kind := h.kind
    text :=
      if isLeaf then
        some (if h.start ≤ h.stop && h.stop ≤ source.size
          then Text.lossySlice source h.start h.stop else "")
      else none
    start := h.startPoint
    stop := h.stopPoint
    startByte := h.start
    stopByte := h.stop
    isError := h.isError
    isMissing := h.isMissing }

mutual

/-- The first `levels` levels of a tree, and at least one. -/
def Cst.copy (source : ByteArray) (levels : Nat) : Cst → Snapshot
  | .node head children =>
    .node (head.snapshot source children.isEmpty)
      (if levels ≤ 1 then [] else Cst.copyList source (levels - 1) children)

def Cst.copyList (source : ByteArray) (levels : Nat) : List Cst → List Snapshot
  | [] => []
  | tree :: rest => tree.copy source levels :: Cst.copyList source levels rest

end

def Snapshot.ofCst (source : ByteArray) (maxDepth : Nat) (root : Cst) : Snapshot :=
  root.copy source maxDepth

end ScriptLens
