/-! # Points

A place in a text as an editor names it: a row and a column, both from zero, where a
column counts the bytes since the start of the row.
-/
namespace ScriptLens

structure Point where
  row : Nat
  col : Nat
deriving DecidableEq, Inhabited

namespace Point

/-- Whether a point does not come after another, by row and then by column. -/
def upTo (p q : Point) : Bool := p.row < q.row || (p.row == q.row && p.col ≤ q.col)

def before (p q : Point) : Bool := p.row < q.row || (p.row == q.row && p.col < q.col)

end Point

end ScriptLens
