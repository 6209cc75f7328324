import Multiway.Tree.Basic

/-!
Copying a tree.

A copy has the same shape, order and comparison, and an arena of its own that holds the live nodes
and nothing else. They are numbered from zero on, each node in front of its children, so two trees
of one shape have equal copies.
-/

namespace Multiway.Tree

variable {K V : Type}

/-- Appends a copy of the subtree of a node to an arena. The first number bounds the depth. -/
def copyInto (source : Arena K V) :
    Nat → NodeId → Option NodeId → Arena K V → Except Fault (NodeId × Arena K V)
  | 0, _, _, _ => .error .endless
  | fuel + 1, id, parent, target => do
    let node ← source.node id
    let (copy, target) := target.push { entries := node.entries, parent }
    let target ← node.children.foldlM (fun target child => do
      let (childCopy, target) ← copyInto source fuel child (some copy) target
      target.update copy fun node => { node with children := node.children ++ [childCopy] }) target
    return (copy, target)

/-- A tree of the same shape with an arena of its own. -/
def copy (t : Tree K V) : Except Fault (Tree K V) := do
  let blank := Arena.empty t.arena.capacity
  match t.root with
  | none => return { t with arena := blank }
  | some root =>
    let (root, arena) ← copyInto t.arena t.bound root none blank
    return { t with arena, root := some root }

end Multiway.Tree
