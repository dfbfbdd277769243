import ScriptLens.Cst.Form
import ScriptLens.Point
import ScriptLens.Rose
import ScriptLens.Span
import ScriptLens.Text.Utf8

/-! # Concrete syntax trees

The tree that a grammar gives a source text: every token is a node, comments
included, and a node knows the role it plays for its parent. Bytes count from zero;
the points of a node are those that the parser reports. Where the text breaks the
grammar, regions that fit nowhere are marked as errors and tokens that ought to be there
are marked as missing.
-/
namespace ScriptLens

structure CstHead where
  kind : String
  /-- The role of the node within its parent. -/
  field : Option String
  start : Nat
  stop : Nat
  startPoint : Point
  stopPoint : Point
  isNamed : Bool
  isError : Bool
  isMissing : Bool
  /-- Whether the parser reports a fault in or below the node. -/
  hasError : Bool
deriving DecidableEq

abbrev Cst := Rose CstHead

namespace CstHead

def form (h : CstHead) : Cst.Form := .ofKind h.kind

/-- A missing node has no place in the text. -/
def span (h : CstHead) : Span :=
  if h.isMissing then .nowhere else ⟨h.start + 1, h.stop + 1⟩

/-- The text of a node, which is empty if the source has no such slice. -/
def text (source : ByteArray) (h : CstHead) : String :=
  if h.isMissing then "" else (Text.slice? source h.start h.stop).getD ""

end CstHead

end ScriptLens
