import ScriptLens.Text.Quoted

/-! # S-expressions

A tree is printed as nested lists. A list begins with the head of its node, then
come the span, the flags and the text, as far as they are asked for, and then the
lists of the children, each on a line of its own unless the form is compact.

A limit on the depth puts `(...)` in place of the children of a node. A limit on
the number of nodes puts it in place of the first node too many, after which only
closing parentheses follow.
-/
namespace ScriptLens

inductive Sexpr where
  | node (head span : List Char) (flags : List (List Char)) (text : Option (List Char))
      (children : List Sexpr)

structure SexprOptions where
  withSpan : Bool := true
  withText : Bool := true
  withFlags : Bool := true
  maxDepth : Option Nat := none
  maxNodes : Option Nat := none
  isCompact : Bool := false

namespace Sexpr

/-- How many more nodes may be printed. -/
inductive Budget where
  | unlimited
  | left (count : Nat)
  | spent
deriving DecidableEq

def Budget.ofLimit : Option Nat → Budget
  | none => .unlimited
  | some n => .left n

def Budget.less : Budget → Budget
  | .unlimited => .unlimited
  | .left count => .left (count - 1)
  | .spent => .spent

def placeholder : List Char := "(...)".toList

def spaced (item : List Char) : List Char := ' ' :: item

/-- What separates a node at a depth from the node before it. -/
def lineBreak (o : SexprOptions) (depth : Nat) : List Char :=
  if o.isCompact then [' '] else '\n' :: List.replicate (2 * depth) ' '

/-- All of a node but its children. -/
def front (o : SexprOptions) (head span : List Char) (flags : List (List Char))
    (text : Option (List Char)) : List Char :=
  head ++ (if o.withSpan then spaced span else []) ++
    (if o.withFlags then flags.flatMap spaced else []) ++
    (if o.withText then text.toList.flatMap fun t => spaced (Text.quote t) else [])

def isCut (o : SexprOptions) (depth : Nat) : Bool :=
  match o.maxDepth with
  | some limit => limit ≤ depth
  | none => false

mutual

/-- A node after the text `lead`, and the budget that remains. -/
def write (o : SexprOptions) (lead : List Char) (depth : Nat) (budget : Budget) :
    Sexpr → List Char × Budget
  | .node head span flags text children =>
    match budget with
    | .spent => ([], .spent)
    | .left 0 => (lead ++ placeholder, .spent)
    | _ =>
      let (inside, rest) :=
        if isCut o depth && !children.isEmpty then
          (lineBreak o (depth + 1) ++ placeholder, budget.less)
        else writeAll o (depth + 1) budget.less children
      (lead ++ '(' :: front o head span flags text ++ inside ++ [')'], rest)

/-- Siblings at a depth, each after a line break. -/
def writeAll (o : SexprOptions) (depth : Nat) (budget : Budget) :
    List Sexpr → List Char × Budget
  | [] => ([], budget)
  | tree :: rest =>
    let (first, budget) := write o (lineBreak o depth) depth budget tree
    let (others, budget) := writeAll o depth budget rest
    (first ++ others, budget)

end

/-- A forest; the first tree starts without a line break. -/
def render (o : SexprOptions) : List Sexpr → List Char
  | [] => []
  | tree :: rest =>
    let (first, budget) := write o [] 0 (.ofLimit o.maxNodes) tree
    first ++ (writeAll o 0 budget rest).1

end Sexpr

end ScriptLens
