import ScriptLens.NodeKind
import ScriptLens.Span

/-! # Leaves of a program

Names and literals. A name is an identifier, a statement label or a private member
name; the three never stand in each other's place.
-/
namespace ScriptLens

structure Ident where
  span : Span
  name : String
deriving DecidableEq, Inhabited

structure Label where
  span : Span
  name : String
deriving DecidableEq, Inhabited

structure PrivateName where
  span : Span
  name : String
deriving DecidableEq, Inhabited

inductive LiteralKind where
  | number | string | boolean | null | regExp
deriving DecidableEq

structure Literal where
  span : Span
  kind : LiteralKind
  raw : String
deriving DecidableEq

/-- A text between two equal quotes, without them; any other text is kept. -/
def stripQuotes (text : List Char) : List Char :=
  match text with
  | [] => []
  | q :: rest =>
    if (q == '"' || q == '\x27') && rest.getLast? == some q then rest.dropLast else text

def LiteralKind.nodeKind : LiteralKind → NodeKind
  | .number => .numberLiteral
  | .string => .stringLiteral
  | .boolean => .booleanLiteral
  | .null => .nullLiteral
  | .regExp => .regExpLiteral

namespace Literal

def value (l : Literal) : String :=
  match l.kind with
  | .string => String.ofList (stripQuotes l.raw.toList)
  | _ => l.raw

/-- Strings and numbers can name a property, and do so by their value. -/
def name? (l : Literal) : Option String :=
  match l.kind with
  | .string | .number => some l.value
  | _ => none

end Literal

end ScriptLens
