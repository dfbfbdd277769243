import ScriptLens.Cst.Basic
import ScriptLens.JsonText.Value
import ScriptLens.Preorder

/-! # Stored concrete trees

A concrete tree is stored as a JSON list of its nodes in pre-order. A node is a list
of its kind, its role or null, its first byte, the byte after its last, row and column
of the one and of the other, a sum of flags (1 named, 2 error, 4 missing, 8 has an
error) and the number of its children.
-/
namespace ScriptLens.Cst

open JsonText

def storedField? : Value → Option (Option String)
  | .null => some none
  | v => v.text?.map some

def storedNode? : Value → Option (CstHead × Nat)
  | .list [kind, field, start, stop, row, col, stopRow, stopCol, flags, count] => do
    let flags ← flags.word?
    let head : CstHead :=
      { kind := ← kind.text?
        field := ← storedField? field
        start := ← start.word?
        stop := ← stop.word?
        startPoint := ⟨← row.word?, ← col.word?⟩
        stopPoint := ⟨← stopRow.word?, ← stopCol.word?⟩
        isNamed := flags.testBit 0
        isError := flags.testBit 1
        isMissing := flags.testBit 2
        hasError := flags.testBit 3 }
    return (head, ← count.word?)
  | _ => none

def ofStored? (text : String) : Option Cst :=
  match JsonText.parse? text.toList with
  | some (.list nodes) => (nodes.mapM storedNode?).bind (Preorder.tree? Rose.node)
  | _ => none

end ScriptLens.Cst
