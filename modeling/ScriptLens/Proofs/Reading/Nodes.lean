import ScriptLens.Proofs.Rose
import ScriptLens.Reading.Program

/-! # Nodes of concrete trees

Statements about every node of a concrete tree, and induction over such a tree from the
children of a node to the node. The reading of a node is the reading of its site.
-/
namespace ScriptLens

def Cst.field? (t : Cst) (role : String) : Option Cst :=
  t.children.find? (·.head.field == some role)

/-- A node on the first line of a text. -/
def CstHead.onLine (kind : String) (field : Option String) (start stop : Nat)
    (isNamed isError isMissing hasError : Bool) : CstHead :=
  { kind, field, start, stop, startPoint := ⟨0, start⟩, stopPoint := ⟨0, stop⟩, isNamed, isError,
    isMissing, hasError }

namespace Cst

/-- A construct without faults on the first line. -/
def named (kind : String) (field : Option String) (start stop : Nat) (children : List Cst) : Cst :=
  .node (.onLine kind field start stop true false false false) children

def token (kind : String) (field : Option String) (start stop : Nat) : Cst :=
  .node (.onLine kind field start stop false false false false) []

end Cst

namespace Reading

variable {source : ByteArray}

theorem ofCsts_eq (ts : List Cst) : ofCsts source ts = ts.map (ofCst source) := by
  induction ts with
  | nil => rfl
  | cons t rest ih => simp [ofCsts, ih]

theorem ofCst_eq (t : Cst) :
    ofCst source t = Site.reading source ⟨t.head, t.children.map (ofCst source)⟩ := by
  cases t with
  | node head children => rw [ofCst, ofCsts_eq, Rose.head_node, Rose.children_node]

@[simp] theorem head_ofCst (t : Cst) : (ofCst source t).head = t.head := by
  rw [ofCst_eq]
  rfl

@[simp] theorem children_ofCst (t : Cst) :
    (ofCst source t).children = t.children.map (ofCst source) := by
  rw [ofCst_eq]
  rfl

theorem field?_ofCst (t : Cst) (role : String) :
    (ofCst source t).site.field? role = (t.field? role).map (ofCst source) := by
  rw [Site.field?, site, children_ofCst, List.find?_map]
  simp only [Function.comp_def, head_ofCst]
  rfl

end Reading

end ScriptLens
