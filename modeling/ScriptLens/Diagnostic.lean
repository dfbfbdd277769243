import ScriptLens.Cst.Cursor
import ScriptLens.Reading.Program
import ScriptLens.Text.Blank

/-! # Diagnostics

The places where a source breaks the grammar, outermost first and in source order.
Inside a region that is reported as a whole nothing more is reported, and nothing
is looked for below a node that is free of faults.
-/
namespace ScriptLens

/-- What is wrong: a token is missing, or a text fits nowhere. -/
inductive Fault where
  | missing (kind : String)
  | unexpected (excerpt : String)
deriving DecidableEq

structure Diagnostic where
  span : Span
  fault : Fault
deriving DecidableEq

def Fault.message : Fault → String
  | .missing kind => "missing `" ++ kind ++ "`"
  | .unexpected excerpt => "unexpected `" ++ excerpt ++ "`"

def Diagnostic.message (d : Diagnostic) : String := d.fault.message

def excerptLimit : Nat := 32

/-- The beginning of a text, without blanks at either end. -/
def excerpt (text : String) : String :=
  String.ofList (Text.trim (text.toList.take excerptLimit))

/-- The diagnostic of a node by itself. A missing token is reported where it ought
to start. -/
def CstHead.diagnostic? (source : ByteArray) (h : CstHead) : Option Diagnostic :=
  if h.isMissing then some ⟨⟨h.start + 1, h.start + 1⟩, .missing h.kind⟩
  else if h.isError then some ⟨h.span, .unexpected (excerpt (h.text source))⟩
  else none

/-- Faults below a node are reported one by one, unless the node is a region that
is reported as a whole. -/
def CstHead.isSearched (h : CstHead) : Bool :=
  h.hasError && (h.isMissing || !h.isError)

def Cst.Cursor.collect (source : ByteArray) (found : Array Diagnostic) (c : Cursor) :
    Array Diagnostic :=
  let found := match c.node.head.diagnostic? source with
    | some d => found.push d
    | none => found
  match _h : c.advance? c.node.head.isSearched with
  | some d => d.collect source found
  | none => found
termination_by c.left
decreasing_by exact left_of_advance? _h

def Cst.diagnostics (source : ByteArray) (root : Cst) : List Diagnostic :=
  if root.head.hasError then ((Cursor.ofRoot root).collect source #[]).toList else []

structure Parsed where
  program : Program
  diagnostics : List Diagnostic

namespace Parsed

def ofCst (source : ByteArray) (root : Cst) : Parsed :=
  ⟨.ofCst source root, root.diagnostics source⟩

def hasErrors (p : Parsed) : Bool := !p.diagnostics.isEmpty

end Parsed

end ScriptLens
