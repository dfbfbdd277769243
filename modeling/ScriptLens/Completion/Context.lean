import ScriptLens.Snapshot.Place

/-! # Completion contexts

What is being typed at a cursor. The node under the cursor decides, and after it the
node one column to the left, since a cursor stands behind what was typed last. A
cursor is in a property name, behind a separator with nothing after it, in a plain
identifier, or at the start of an argument; anywhere else nothing is completed.
-/
namespace ScriptLens

inductive ContextKind where
  | nothing | property | identifier | argument
deriving DecidableEq

structure Context where
  kind : ContextKind
  /-- The source of the object before a property, or of the function before an
  argument. -/
  base : String
  baseKind : String
  typed : String
  cursor : Point
deriving DecidableEq

def ContextKind.word : ContextKind → String
  | .nothing => "none"
  | .property => "property"
  | .identifier => "identifier"
  | .argument => "argument"

def ContextKind.ofWord? : String → Option ContextKind
  | "none" => some .nothing
  | "property" => some .property
  | "identifier" => some .identifier
  | "argument" => some .argument
  | _ => none

namespace Context

def nothing (cursor : Point) : Context := ⟨.nothing, "", "", "", cursor⟩

def isNothing (c : Context) : Bool := c.kind == .nothing

def on (kind : ContextKind) (base : Snapshot) (typed : String) (cursor : Point) : Context :=
  ⟨kind, base.source, base.head.kind, typed, cursor⟩

end Context

namespace SnapshotHead

def isSeparator (h : SnapshotHead) : Bool :=
  h.kind == "." || h.kind == "?." || h.kind == "optional_chain"

def isComment (h : SnapshotHead) : Bool := h.kind == "comment"

def isMember (h : SnapshotHead) : Bool := h.kind == "member_expression"

def isPropertyName (h : SnapshotHead) : Bool :=
  h.kind == "property_identifier" || h.kind == "private_property_identifier"

end SnapshotHead

namespace Snapshot

/-- The children that matter, comments left out. -/
def parts (s : Snapshot) : List Snapshot := s.children.filter (!·.head.isComment)

/-- The part of a token before the cursor. All of it counts if the cursor is on
another row, behind the token, or inside a character. -/
def typedBefore (s : Snapshot) (cursor : Point) : String :=
  let text := s.head.text.getD ""
  if s.head.start.row ≠ cursor.row || s.head.stop.row ≠ cursor.row ||
      s.head.stop.col ≤ cursor.col then text
  else (Text.slice? text.toUTF8 0 (cursor.col - s.head.start.col)).getD text

/-- Whether a node ends at the cursor or one column before it. -/
def endsAt (s : Snapshot) (cursor : Point) : Bool :=
  s.head.stop.row == cursor.row && s.head.stop.col ≤ cursor.col &&
    cursor.col - s.head.stop.col ≤ 1

def object? (s : Snapshot) : Option Snapshot := s.parts.head?.filter (!·.head.isSeparator)

/-- Whether the child with this number is the last part and not the only one. -/
def isLastPart (s : Snapshot) (index : Nat) : Bool :=
  (s.children.drop (index + 1)).all (·.head.isComment) &&
    (s.children.take index).any (!·.head.isComment)

end Snapshot

namespace Context

def inProperty? (cursor : Point) : List Step → Option Context
  | here :: above :: _ =>
    if here.node.head.isPropertyName && above.node.head.isMember &&
        above.node.isLastPart here.index then
      above.node.object?.map (on .property · (here.node.typedBefore cursor) cursor)
    else none
  | _ => none

def lastSeparator? (parts : List Snapshot) : Option Snapshot :=
  match parts.reverse with
  | [] => none
  | last :: before => if last.head.isMissing then before.head? else some last

/-- The object of a member expression that lacks its name at the cursor. -/
def unfinished? (cursor : Point) (s : Snapshot) : Option Snapshot :=
  match lastSeparator? s.parts with
  | none => none
  | some sep => if sep.head.isSeparator && sep.endsAt cursor then s.object? else none

/-- The node before a separator at the end of a broken region. -/
def beforeSeparator? (cursor : Point) (parts : List Snapshot) : Option Snapshot :=
  match parts.reverse with
  | last :: before :: _ => if last.head.isSeparator && last.endsAt cursor then some before else none
  | _ => none

def startsWithSeparator (cursor : Point) (parts : List Snapshot) : Bool :=
  parts.head?.any fun c => c.head.isSeparator && c.endsAt cursor

/-- The object before a separator with nothing after it, searched from the inside
outwards. A region that starts with a separator ends the search: its object is the
node before the region, if there is one. -/
def dangling? (cursor : Point) : List Step → Option Snapshot
  | [] => none
  | here :: above =>
    if here.node.head.isMember then (unfinished? cursor here.node).or (dangling? cursor above)
    else if here.node.head.isError then
      match beforeSeparator? cursor here.node.parts with
      | some base => some base
      | none =>
        match startsWithSeparator cursor here.node.parts, above with
        | true, parent :: _ =>
          ((parent.node.children.take here.index).filter (!·.head.isComment)).getLast?
        | _, _ => dangling? cursor above
    else dangling? cursor above

def inIdentifier? (cursor : Point) : List Step → Option Context
  | here :: _ =>
    if here.node.head.kind == "identifier" && !here.node.head.isMissing then
      some ⟨.identifier, "", "", here.node.typedBefore cursor, cursor⟩
    else none
  | [] => none

/-- An opening parenthesis or a comma of an argument list. -/
def inArguments? (cursor : Point) : List Step → Option Context
  | here :: list :: call :: _ =>
    if (here.node.head.kind == "(" || here.node.head.kind == ",") &&
        list.node.head.kind == "arguments" && list.index ≠ 0 then
      call.node.children.head?.map (on .argument · "" cursor)
    else none
  | _ => none

def classify? (cursor : Point) (steps : List Step) : Option Context :=
  (inProperty? cursor steps).or <|
    ((dangling? cursor steps).map (on .property · "" cursor)).or <|
      (inIdentifier? cursor steps).or (inArguments? cursor steps)

def places (cursor : Point) : List Point :=
  if cursor.col = 0 then [cursor] else [cursor, ⟨cursor.row, cursor.col - 1⟩]

def ofCursor (root : Snapshot) (cursor : Point) : Context :=
  ((places cursor).findSome? fun p =>
    (root.stepsTo? p).bind (classify? cursor)).getD (nothing cursor)

end Context

end ScriptLens
