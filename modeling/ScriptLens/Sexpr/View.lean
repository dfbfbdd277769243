import ScriptLens.Index.Query
import ScriptLens.Sexpr.Basic
import ScriptLens.Snapshot.Basic

/-! # S-expressions of indexes and snapshots

An index shows the name of a node, or else its label, and its byte span; a snapshot
shows rows and columns. Texts are those of leaves.
-/
namespace ScriptLens

def decimal (n : Nat) : List Char := Nat.toDigits 10 n

def errorFlag : List Char := ":error".toList

def missingFlag : List Char := ":missing".toList

def NodeRecord.sexprHead (n : NodeRecord) : List Char :=
  Text.atom n.kind.name.toList ++
    match n.name with
    | some name => Sexpr.spaced (Text.quote name.toList)
    | none => if n.label.isEmpty then [] else Sexpr.spaced (Text.atom n.label.toList)

def NodeRecord.sexprSpan (n : NodeRecord) : List Char :=
  decimal n.span.start ++ "..".toList ++ decimal n.span.stop

def NodeKind.isBad : NodeKind → Bool
  | .badStatement | .badExpression => true
  | _ => false

/-- The subtree of an index at a node. Children have greater numbers than their
parent. -/
def Index.sexprFrom (x : Index) (id : Nat) : Sexpr :=
  match _h : x.node? id with
  | none => .node ['?'] [] [] none []
  | some n =>
    .node n.sexprHead n.sexprSpan (if n.kind.isBad then [errorFlag] else [])
      (if n.children.isEmpty then (x.textOf? id).map String.toList else none)
      (n.children.toList.flatMap fun c => if _later : id < c then [sexprFrom x c] else [])
termination_by x.size - id
decreasing_by
  have := Index.lt_size_of_node? _h
  omega

def Index.format (x : Index) (o : SexprOptions) : String :=
  String.ofList (Sexpr.render o (x.roots.toList.map x.sexprFrom))

def Point.sexpr (p : Point) : List Char := decimal p.row ++ ':' :: decimal p.col

def SnapshotHead.sexprSpan (h : SnapshotHead) : List Char :=
  h.start.sexpr ++ '-' :: h.stop.sexpr

def SnapshotHead.sexprFlags (h : SnapshotHead) : List (List Char) :=
  (if h.isError then [errorFlag] else []) ++ (if h.isMissing then [missingFlag] else [])

mutual

def Snapshot.sexpr : Snapshot → Sexpr
  | .node head children =>
    .node (Text.atom head.kind.toList) head.sexprSpan head.sexprFlags
      (head.text.map String.toList) (Snapshot.sexprs children)

def Snapshot.sexprs : List Snapshot → List Sexpr
  | [] => []
  | s :: rest => s.sexpr :: Snapshot.sexprs rest

end

def Snapshot.format (s : Snapshot) (o : SexprOptions) : String :=
  String.ofList (Sexpr.render o [s.sexpr])

end ScriptLens
