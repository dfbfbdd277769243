/-! # Source spans

A span is a half-open range of byte offsets counted from one. Offset zero is no
place in a text, and the span from zero to zero stands for a node that the text
does not hold.
-/
namespace ScriptLens

structure Span where
  start : Nat
  stop : Nat
deriving DecidableEq, Hashable, Inhabited

namespace Span

def nowhere : Span := ⟨0, 0⟩

def isNowhere (s : Span) : Bool := s.start == 0 && s.stop == 0

def length (s : Span) : Nat := s.stop - s.start

def isEmpty (s : Span) : Bool := s.length == 0

def contains (s : Span) (offset : Nat) : Bool :=
  s.start ≤ offset && offset < s.stop

/-- The least span that holds both, where a span without a place holds nothing. -/
def cover (s t : Span) : Span :=
  if s.isNowhere then t
  else if t.isNowhere then s
  else ⟨min s.start t.start, max s.stop t.stop⟩

theorem contains_iff {s : Span} {offset : Nat} :
    s.contains offset = true ↔ s.start ≤ offset ∧ offset < s.stop := by
  simp [contains]

end Span

end ScriptLens
