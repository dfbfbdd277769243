/-! # Lines of a text

A line ends after each line feed, and nothing else ends a line. The starts of the
lines are kept in ascending order; the first is always zero. Offsets, lines and
columns count from one, rows and bytes from zero, and a column counts bytes.
Bytes are words of 64 bits and offsets words of 32; a sum that is none ends the
search for an offset.
-/
namespace ScriptLens.Text

/-- The positions right after a line feed, for bytes that stand at `pos`. -/
def lineStartsAfter (pos : Nat) : List UInt8 → List Nat
  | [] => []
  | b :: rest =>
    if b = 10 then (pos + 1) :: lineStartsAfter (pos + 1) rest
    else lineStartsAfter (pos + 1) rest

/-- What did not fit into its machine word. -/
inductive Overflow where
  | byte
  | offset
deriving DecidableEq

def wordSum (words : Nat) (overflow : Overflow) (a b : Nat) : Except Overflow Nat :=
  if a + b < words then .ok (a + b) else .error overflow

structure Lines where
  size : Nat
  starts : List Nat

namespace Lines

def ofBytes (source : ByteArray) : Lines :=
  ⟨source.size, 0 :: lineStartsAfter 0 source.data.toList⟩

/-- Row and column of a byte: how many lines start later than the first and no
later than the byte, and the distance from the last of them. -/
def rowCol (l : Lines) (byte : Nat) : Nat × Nat :=
  let before := l.starts.takeWhile (· ≤ byte)
  (before.length - 1, byte - before.getLastD 0)

/-- Line and column of an offset, which is first moved into the text. -/
def lineCol (l : Lines) (offset : Nat) : Nat × Nat :=
  let (row, col) := l.rowCol (min (max offset 1 - 1) l.size)
  (row + 1, col + 1)

/-- The first byte past the line that has this row; the last line may address one
position past the text. -/
def limit (l : Lines) (row : Nat) : Nat := l.starts.getD (row + 1) (l.size + 1)

/-- The offset of a line and column, if the line exists and is long enough. -/
def offsetAt? (l : Lines) (line col : UInt64) : Except Overflow (Option Nat) :=
  if line = 0 || col = 0 then .ok none
  else
    match l.starts[line.toNat - 1]? with
    | none => .ok none
    | some start => do
      let byte := (← wordSum UInt64.size .byte start col.toNat) - 1
      if l.limit (line.toNat - 1) ≤ byte then return none
      else return some (← wordSum UInt32.size .offset (byte % UInt32.size) 1)

end Lines

end ScriptLens.Text
