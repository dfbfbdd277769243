import ScriptLens.Cst.Basic

/-! # Cursors

A place in a concrete tree, with what lies ahead of it: the siblings after its node and after
each node above it. A cursor goes down to the first child of its node, on to the next sibling
or up to the parent, and never leaves the tree in which it was set.
-/
namespace ScriptLens

structure Cst.Cursor where
  node : Cst
  /-- The siblings after the node. -/
  later : List Cst
  /-- The nodes above, the parent first, each with the siblings after it. -/
  above : List (Cst × List Cst)

namespace Cst.Cursor

def ofRoot (root : Cst) : Cursor := ⟨root, [], []⟩

def firstChild? (c : Cursor) : Option Cursor :=
  match c.node.children with
  | [] => none
  | t :: rest => some ⟨t, rest, (c.node, c.later) :: c.above⟩

def nextSibling? (c : Cursor) : Option Cursor :=
  match c.later with
  | [] => none
  | t :: rest => some ⟨t, rest, c.above⟩

def parent? (c : Cursor) : Option Cursor :=
  match c.above with
  | [] => none
  | (t, rest) :: above => some ⟨t, rest, above⟩

theorem length_above_parent? {c p : Cursor} (h : c.parent? = some p) :
    p.above.length < c.above.length := by
  rw [parent?] at h
  split at h
  · cases h
  · next _ _ _ habove =>
    cases h
    rw [habove]
    exact Nat.lt_succ_self _

/-- The next sibling of the node or, if it has none, of the nearest node above that has one. -/
def next? (c : Cursor) : Option Cursor :=
  match c.nextSibling? with
  | some d => some d
  | none =>
    match _h : c.parent? with
    | some p => p.next?
    | none => none
termination_by c.above.length
decreasing_by exact length_above_parent? _h

/-- The next node in pre-order, where the nodes below a node may be passed over. -/
def advance? (c : Cursor) (goesDown : Bool) : Option Cursor :=
  (if goesDown then c.firstChild? else none).or c.next?

/-- The number of nodes ahead that are not below the node. -/
def ahead (c : Cursor) : Nat := Rose.sizes (c.later ++ c.above.flatMap Prod.snd)

def left (c : Cursor) : Nat := Rose.sizes c.node.children + c.ahead

theorem left_of_firstChild? {c d : Cursor} (h : c.firstChild? = some d) : d.left + 1 = c.left := by
  rw [firstChild?] at h
  split at h
  · cases h
  · next t rest hchildren =>
    cases h
    simp only [left, ahead, hchildren, Rose.sizes, t.size_eq, List.flatMap_cons, Rose.sizes_append]
    omega

theorem left_of_next? {c d : Cursor} (h : c.next? = some d) : d.left + 1 = c.ahead := by
  fun_induction next? c with
  | case1 c d' hsibling =>
    cases h
    rw [nextSibling?] at hsibling
    split at hsibling
    · cases hsibling
    · next t rest hlater =>
      cases hsibling
      simp only [left, ahead, hlater, Rose.sizes, t.size_eq, List.cons_append]
      omega
  | case2 c hnone p hparent ih =>
    rw [ih h]
    rw [nextSibling?] at hnone
    split at hnone
    · next hlater =>
      rw [parent?] at hparent
      split at hparent
      · cases hparent
      · next _ _ _ habove =>
        cases hparent
        simp [ahead, hlater, habove]
    · cases hnone
  | case3 => cases h

theorem left_of_advance? {c d : Cursor} {goesDown : Bool} (h : c.advance? goesDown = some d) :
    d.left < c.left := by
  rw [advance?, Option.or_eq_some_iff] at h
  rcases h with h | ⟨_, h⟩
  · split at h
    · have hleft := left_of_firstChild? h
      omega
    · cases h
  · have hleft := left_of_next? h
    have hbelow : c.left = Rose.sizes c.node.children + c.ahead := rfl
    omega

end Cst.Cursor

end ScriptLens
