import ScriptLens.Analysis
import ScriptLens.Text.Visible

/-! # Reports

The scopes of a script as an indented outline, and what is offered at a cursor.
-/
namespace ScriptLens

def Index.position (x : Index) (id : Nat) : String :=
  match x.node? id with
  | some n => toString n.first.1 ++ ":" ++ toString n.first.2
  | none => "?"

def indentation (depth : Nat) : String := String.ofList (List.replicate (2 * depth) ' ')

def ScopeRecord.line (s : ScopeRecord) : String :=
  s.kind.word ++ " #" ++ toString s.id ++ " " ++ toString s.span.start ++ ".." ++
    toString s.span.stop

def BindingRecord.line (x : Index) (b : BindingRecord) : String :=
  b.kind.word ++ " " ++ b.name ++ " " ++ x.position b.decl ++ " -> [" ++
    ", ".intercalate (b.references.toList.map x.position) ++ "]"

/-- A scope with its bindings and then the scopes inside it, which have greater
numbers. -/
def Resolution.outline (r : Resolution) (x : Index) (depth id : Nat) : List String :=
  match _h : r.scopes[id]? with
  | none => []
  | some s =>
    (indentation depth ++ s.line) ::
      (s.names.toList.filterMap fun entry =>
        (r.binding? entry.2).map fun b => indentation (depth + 1) ++ b.line x) ++
      s.children.toList.flatMap fun c =>
        if _later : id < c then r.outline x (depth + 1) c else []
termination_by r.scopes.size - id
decreasing_by
  have := (Array.getElem?_eq_some_iff.mp _h).1
  omega

def Resolution.unresolvedLines (r : Resolution) (x : Index) : List String :=
  if r.unresolved.isEmpty then []
  else
    "unresolved:" :: r.unresolved.toList.map fun id =>
      "  " ++ (x.textOf? id).getD "" ++ " " ++ x.position id

def unlines (lines : List String) : String := String.join (lines.map (· ++ "\n"))

namespace Analysis

def scopeReport (a : Analysis) : String :=
  match a.indexed.resolution with
  | none => ""
  | some r => unlines (r.outline a.index 0 r.root ++ r.unresolvedLines a.index)

def completionReport (a : Analysis) (cursor : Point) : String :=
  let (context, candidates) := a.complete cursor none
  let inspect (s : String) : String := String.ofList (Text.inspect s.toList)
  unlines
    (("context: " ++ context.kind.word ++ " base=" ++ inspect context.base ++ " partial=" ++
        inspect context.typed) ::
      candidates.map fun c => c.label ++ "\t" ++ c.kind.word ++ "\t" ++ c.detail)

end Analysis

end ScriptLens
