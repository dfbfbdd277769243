/-! # Trees in pre-order

A tree can be given as the list of its nodes in pre-order, each with the number of
its children. The list is read from its end, so that the children of a node are
complete when the node is reached.
-/
namespace ScriptLens.Preorder

variable {α β : Type}

/-- Puts a node in front of a forest, whose first trees become its children. -/
def attach? (make : α → List β → β) (node : α) (count : Nat) (forest : List β) :
    Option (List β) :=
  if forest.length < count then none
  else some (make node (forest.take count) :: forest.drop count)

def forest? (make : α → List β → β) : List (α × Nat) → Option (List β)
  | [] => some []
  | (node, count) :: rest => (forest? make rest).bind (attach? make node count)

def tree? (make : α → List β → β) (nodes : List (α × Nat)) : Option β :=
  match forest? make nodes with
  | some [tree] => some tree
  | _ => none

end ScriptLens.Preorder
