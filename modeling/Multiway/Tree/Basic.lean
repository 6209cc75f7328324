import Multiway.Arena.Basic
import Multiway.Error

/-!
Multiway search trees.

A tree keeps its nodes in an arena and knows which of them is the root; an empty tree has none.
Between two operations the keys of every node ascend and lie between the keys around it one level
up, all leaves are equally deep, and every node but the root is at least half full.

An operation that follows node numbers is bounded by the number of slots, which is never smaller
than the height. It answers in `Except Fault`, because nothing in the types keeps a number from
leading nowhere.
-/

namespace Multiway

variable {K V : Type}

/-- A search tree whose nodes have many children. -/
structure Tree (K V : Type) where
  /-- Where the nodes live. -/
  arena : Arena K V
  /-- The node above all others; none when there are no entries. -/
  root : Option NodeId := none
  /-- The order of the keys. -/
  cmp : K → K → Ordering
  /-- How wide a node may be. -/
  fanout : Fanout
  /-- The number of entries. -/
  size : Nat := 0

namespace Tree

/-- A tree without entries. -/
def empty (fanout : Fanout) (freeCapacity : Nat) (cmp : K → K → Ordering) : Tree K V :=
  { arena := .empty freeCapacity, cmp, fanout }

/-- A tree with chosen options, unless the order asked for is too small. -/
def ofOptions (options : Options) (cmp : K → K → Ordering) : Except Error (Tree K V) := do
  return empty (← options.fanout) options.freeCapacity cmp

/-- A tree of a chosen order. -/
def ofOrder (order : Nat) (cmp : K → K → Ordering) : Except Error (Tree K V) :=
  ofOptions { order } cmp

/-- A tree for which nothing is chosen but the order of its keys. -/
def standard (cmp : K → K → Ordering) : Tree K V :=
  empty .standard ({} : Options).freeCapacity cmp

/-- A tree without entries that is otherwise made like `t`. -/
def blank (t : Tree K V) : Tree K V := empty t.fanout t.arena.capacity t.cmp

/-- Whether there are no entries. -/
def isEmpty (t : Tree K V) : Bool := t.size = 0

/-- The largest number of children of one node. -/
def order (t : Tree K V) : Nat := t.fanout.order

/-- The number of nodes that are kept for reuse. -/
def freeCount (t : Tree K V) : Nat := t.arena.free.length

/-- A bound on the number of nodes on any path. -/
def bound (t : Tree K V) : Nat := t.arena.slots.size

/-- The number of levels: zero without entries, one when the root is a leaf. -/
def height (t : Tree K V) : Except Fault Nat :=
  match t.root with
  | none => return 0
  | some root => t.arena.levels t.bound root

/-- The entry with the smallest key. -/
def minEntry? (t : Tree K V) : Except Fault (Option (K × V)) :=
  match t.root with
  | none => return none
  | some root => do
    let leaf ← t.arena.leftmost t.bound root
    return (← t.arena.node leaf).entries.head?

/-- The entry with the largest key. -/
def maxEntry? (t : Tree K V) : Except Fault (Option (K × V)) :=
  match t.root with
  | none => return none
  | some root => do
    let leaf ← t.arena.rightmost t.bound root
    return (← t.arena.node leaf).entries.getLast?

/-- Removes every entry. The nodes are kept for reuse as far as there is room. -/
def clear (t : Tree K V) : Change (Tree K V) Unit :=
  let arena := t.arena.clear
  ⟨(), { t with arena, root := none, size := 0 }, [.cleared arena.free.length]⟩

end Tree

end Multiway
