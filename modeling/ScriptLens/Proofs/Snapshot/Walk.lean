import ScriptLens.Proofs.Snapshot.Ways

/-! # Walks

A walk through a snapshot keeps a stack of the nodes that it still has to take. It takes the node
on top and puts the children of that node in its place, the first one on top, and so takes all
nodes in pre-order.
-/
namespace ScriptLens.Snapshot

open Rose

/-- A walk under way: the nodes on its stack, from the top on. -/
structure Walk where
  stack : List Snapshot

def walk (s : Snapshot) : Walk := ⟨[s]⟩

namespace Walk

/-- Takes the node on top of the stack and pushes its children, the last one first. -/
def next? (w : Walk) : Option (Snapshot × Walk) :=
  match w.stack with
  | [] => none
  | s :: rest => some (s, ⟨s.children.reverse.foldl (fun stack c => c :: stack) rest⟩)

/-- The nodes of the stack, each followed by those below it. -/
def ahead (w : Walk) : List Snapshot := w.stack.flatMap nodes

theorem next?_eq_none {w : Walk} (h : w.next? = none) : w.ahead = [] := by
  obtain ⟨stack⟩ := w
  cases stack with
  | nil => rfl
  | cons s rest => cases h

theorem ahead_of_next? {w v : Walk} {s : Snapshot} (h : w.next? = some (s, v)) :
    w.ahead = s :: v.ahead := by
  obtain ⟨stack⟩ := w
  cases stack with
  | nil => cases h
  | cons s rest =>
    cases h
    rw [ahead, ahead, List.foldl_flip_cons_eq_append', List.reverse_reverse, List.flatMap_cons,
      List.flatMap_append, nodes_eq, List.cons_append]

def toList (w : Walk) : List Snapshot :=
  match _h : w.next? with
  | none => []
  | some (s, v) => s :: v.toList
termination_by w.ahead.length
decreasing_by
  rw [ahead_of_next? _h]
  exact Nat.lt_succ_self _

theorem toList_eq (w : Walk) : w.toList = w.ahead := by
  fun_induction toList w with
  | case1 w h => exact (next?_eq_none h).symm
  | case2 w s v h ih => rw [ih, ahead_of_next? h]

end Walk

theorem toList_walk (s : Snapshot) : s.walk.toList = s.nodes := by
  rw [Walk.toList_eq]
  exact List.append_nil _

end ScriptLens.Snapshot
