import Multiway.Comparison
import Multiway.Sequence

/-!
Nodes.

A node holds its entries in ascending order and the numbers of its children, one more than it has
entries, or none at all when it is a leaf. It also knows its parent, which is the way back up.
-/

namespace Multiway

variable {K V : Type}

/-- A node of a multiway tree. -/
structure Node (K V : Type) where
  /-- Keys and their values, in ascending order of the keys. -/
  entries : List (K × V) := []
  /-- The children, each between two neighbouring entries; none in a leaf. -/
  children : List NodeId := []
  /-- The node that lists this one among its children; none for a root. -/
  parent : Option NodeId := none
deriving DecidableEq, Repr

/-- Where a key stands in a node: at an entry, or in the gap in front of one. -/
inductive Place where
  /-- The entry at this position has the key. -/
  | found (position : Nat)
  /-- No entry has the key; this many entries are below it, which is also the position of the
  child that may hold it. -/
  | absent (position : Nat)
deriving DecidableEq, Repr

/-- The position, whether of an entry or of a gap. -/
def Place.position : Place → Nat
  | .found position | .absent position => position

namespace Node

/-- A leaf has no children. -/
def isLeaf (node : Node K V) : Bool := node.children.isEmpty

/-- The place of a key among the entries: the first entry that is not below the key decides. -/
def search (cmp : K → K → Ordering) (key : K) (node : Node K V) : Place :=
  let position := node.entries.findIdx (fun entry => cmp entry.1 key != .lt)
  match node.entries[position]? with
  | some entry => if cmp entry.1 key = .eq then .found position else .absent position
  | none => .absent position

/-- The position of a child. -/
def positionOf? (child : NodeId) (node : Node K V) : Option Nat := node.children.idxOf? child

/-- Whether every entry is below the next one. -/
def isAscending (cmp : K → K → Ordering) (node : Node K V) : Bool :=
  (node.entries.zip node.entries.tail).all fun (left, right) => cmp left.1 right.1 = .lt

/-- The entries and children of another node are put behind those that are there, and its parent is
taken over. -/
def extend (more : Node K V) (node : Node K V) : Node K V :=
  ⟨node.entries ++ more.entries, node.children ++ more.children, more.parent⟩

/-- An empty node becomes the other one. -/
@[simp] theorem extend_empty (more : Node K V) : extend more {} = more := rfl

/-- The children left and right of the entry in position `middle`; a leaf has none on either
side. -/
def cutChildren (middle : Nat) (node : Node K V) : Except Fault (List NodeId × List NodeId) :=
  if node.isLeaf then .ok ([], []) else cutAt node.children (middle + 1)

/-- Cuts a node at the entry in position `middle`: the part below it, the entry itself, and the
part above it. Both parts keep the parent. -/
def cut (middle : Nat) (node : Node K V) : Except Fault (Node K V × (K × V) × Node K V) := do
  let (low, high) ← cutAt node.entries (middle + 1)
  let (median, low) ← removeAt low middle
  let (near, far) ← node.cutChildren middle
  return (⟨low, near, node.parent⟩, median, ⟨high, far, node.parent⟩)

end Node

end Multiway
