import ScriptLens.Snapshot.Basic

/-! # Places in a snapshot

A node of a snapshot is identified by the way to it: from the root on, which child
is taken at each node. Two nodes with the same content in different places are
told apart by it.
-/
namespace ScriptLens

/-- A node on a way and its number among the children of the node before it. -/
structure Step where
  index : Nat
  node : Snapshot
deriving Inhabited

namespace Snapshot

mutual

/-- The way from below a node to the deepest node that holds a point, where at each
level the first child that holds it is taken. -/
def descend (p : Point) : Snapshot → List Nat
  | .node _ children => descendInto p 0 children

def descendInto (p : Point) (index : Nat) : List Snapshot → List Nat
  | [] => []
  | s :: rest => if s.head.contains p then index :: s.descend p else descendInto p (index + 1) rest

end

def wayTo? (s : Snapshot) (p : Point) : Option (List Nat) :=
  if s.head.contains p then some (s.descend p) else none

def nodeAt? (s : Snapshot) (p : Point) : Option Snapshot := (s.wayTo? p).bind s.at?

/-- The steps of a way below some steps, the last node first. -/
def stepsFrom (above : List Step) (s : Snapshot) : List Nat → List Step
  | [] => above
  | i :: way =>
    match s.children[i]? with
    | none => above
    | some child => stepsFrom (⟨i, child⟩ :: above) child way

def stepsTo? (s : Snapshot) (p : Point) : Option (List Step) :=
  (s.wayTo? p).map (stepsFrom [⟨0, s⟩] s)

end Snapshot

end ScriptLens
