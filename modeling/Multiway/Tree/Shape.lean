import Multiway.Text.Literal
import Multiway.Tree.Basic

/-!
The shape of a tree.

The shape is what remains of a tree when the numbers of its nodes are forgotten: the entries of
every node, and the shapes of its children in order. Two trees of one shape hold the same entries
in the same places, whatever their arenas went through.
-/

namespace Multiway

/-- Nodes with their children in place of their numbers. -/
inductive Shape (α : Type) where
  | node (entries : List α) (children : List (Shape α))

namespace Shape

variable {α : Type}

mutual

/-- The entries from the first to the last: those of a child come in front of the entry at its
right side. -/
def toList : Shape α → List α
  | .node entries children => interleave children entries

/-- The entries of children, with an entry behind each child as long as there are any. -/
def interleave : List (Shape α) → List α → List α
  | [], entries => entries
  | child :: children, [] => child.toList ++ interleave children []
  | child :: children, entry :: entries => child.toList ++ entry :: interleave children entries

end

mutual

/-- The nodes from the root downwards, each in front of its children, with their depths. -/
def outline (depth : Nat) : Shape α → List (Nat × List α)
  | .node entries children => (depth, entries) :: outlineAll (depth + 1) children

/-- The nodes of several shapes, one after the other. -/
def outlineAll (depth : Nat) : List (Shape α) → List (Nat × List α)
  | [] => []
  | child :: children => child.outline depth ++ outlineAll depth children

end

end Shape

namespace Tree

variable {K V : Type}

/-- The shape of the subtree of a node. The first number bounds the depth. -/
def shapeFrom (a : Arena K V) : Nat → NodeId → Except Fault (Shape (K × V))
  | 0, _ => .error .endless
  | fuel + 1, id => do
    let node ← a.node id
    return .node node.entries (← node.children.mapM (shapeFrom a fuel))

/-- The shape of a tree; an empty tree has none. -/
def shape (t : Tree K V) : Except Fault (Option (Shape (K × V))) :=
  match t.root with
  | none => return none
  | some root => return some (← shapeFrom t.arena t.bound root)

/-- One line for a node: its keys in their literal form, without quotation marks, two blanks deeper
than the node above. -/
def outlineLine [Text.Printable K] (depth : Nat) (entries : List (K × V)) : String :=
  let keys := (Text.Printable.literal (entries.map Prod.fst)).compact
  "".pushn ' ' (2 * depth) ++ String.ofList (keys.toList.filter (· ≠ '"')) ++ "\n"

/-- The nodes of a tree, one on each line. -/
def render [Text.Printable K] (t : Tree K V) : Except Fault String := do
  match ← t.shape with
  | none => return ""
  | some shape => return String.join ((shape.outline 0).map fun (depth, es) => outlineLine depth es)

end Tree

end Multiway
