import Multiway.Arena.Node
import Multiway.Event

/-!
The arena in which the nodes of one tree live.

Every node has a slot, and its number is the position of that slot. A node that the tree no longer
needs is released: while there is room its slot goes on the free list, otherwise it is only
remembered as vacant. Either way the slot is emptied, so a number that is handed out again always
names an empty node without links. Free slots are handed out before vacant ones, and the arena
grows only when there are neither. Both lists are stacks with the last released slot on top.
-/

namespace Multiway

variable {K V : Type}

/-- The slots of a tree's nodes, with those that wait for reuse. -/
structure Arena (K V : Type) where
  /-- Every slot ever used since the arena was made or last cleared. -/
  slots : Array (Node K V) := #[]
  /-- Slots that are kept for reuse. -/
  free : List NodeId := []
  /-- Empty slots for which the free list had no room. -/
  vacant : List NodeId := []
  /-- How long the free list may grow. -/
  capacity : Nat
deriving DecidableEq, Repr

namespace Arena

/-- An arena without slots. -/
def empty (capacity : Nat) : Arena K V := { capacity }

/-- The node in a slot. -/
def node (a : Arena K V) (id : NodeId) : Except Fault (Node K V) :=
  match a.slots[id]? with
  | some node => .ok node
  | none => .error (.noSuchNode id)

/-- Puts a node into a slot. -/
def write (a : Arena K V) (id : NodeId) (node : Node K V) : Except Fault (Arena K V) :=
  if id < a.slots.size then .ok { a with slots := a.slots.setIfInBounds id node }
  else .error (.noSuchNode id)

/-- Changes the node in a slot. -/
def update (a : Arena K V) (id : NodeId) (change : Node K V → Node K V) :
    Except Fault (Arena K V) := do
  a.write id (change (← a.node id))

/-- Fails when two nodes that are to be changed together are one. -/
def apart (left right : NodeId) : Except Fault Unit :=
  if left = right then .error (.sameNode left) else .ok ()

/-- Makes `parent` the parent of some nodes. -/
def adopt (a : Arena K V) (parent : NodeId) (children : List NodeId) : Except Fault (Arena K V) :=
  children.foldlM (fun a child => a.update child fun node => { node with parent := some parent }) a

/-- Takes the parent away from some nodes. -/
def orphan (a : Arena K V) (children : List NodeId) : Except Fault (Arena K V) :=
  children.foldlM (fun a child => a.update child fun node => { node with parent := none }) a

/-- Adds a slot. -/
def push (a : Arena K V) (node : Node K V) : NodeId × Arena K V :=
  (a.slots.size, { a with slots := a.slots.push node })

/-- Fails when a slot that is to be handed out again still has entries. -/
def emptied (a : Arena K V) (id : NodeId) : Except Fault Unit := do
  if (← a.node id).entries.isEmpty then return ()
  else throw (.notBlank id)

/-- Hands out an empty node: the free slot released last, else the vacant slot released last, else
a new slot. A free slot was emptied when it was released and is taken as it is; a vacant one gets a
new node. -/
def acquire (a : Arena K V) : Except Fault (NodeId × Arena K V) :=
  match a.free, a.vacant with
  | id :: free, _ => do
    a.emptied id
    return (id, { a with free })
  | [], id :: vacant => do return (id, ← { a with vacant }.write id {})
  | [], [] => .ok (a.push {})

/-- Takes back a node that nothing refers to any more. -/
def release (a : Arena K V) (id : NodeId) : Except Fault (Arena K V × List Event) := do
  let a ← a.write id {}
  if a.free.length < a.capacity then
    return ({ a with free := id :: a.free }, [])
  else
    return ({ a with vacant := id :: a.vacant }, [.nodeDropped id])

/-- Takes back every node at once. The slots with the lowest numbers are kept, as many as the free
list has room for, with the highest of them on top. -/
def clear (a : Arena K V) : Arena K V :=
  let kept := min a.slots.size a.capacity
  { a with slots := Array.replicate kept {}, free := (List.range kept).reverse, vacant := [] }

/-- The number of nodes that are handed out. -/
def live (a : Arena K V) : Except Fault Nat := do
  lessBy (← lessBy a.slots.size a.free.length) a.vacant.length

/-- The end of a path that starts at `id` and goes on while `next` names a node. The first argument
bounds the number of nodes on the path. -/
def follow (a : Arena K V) (next : Node K V → Option NodeId) : Nat → NodeId → Except Fault NodeId
  | 0, _ => .error .endless
  | fuel + 1, id => do
    match next (← a.node id) with
    | none => return id
    | some id => a.follow next fuel id

/-- The leaf at the low end of a subtree. -/
def leftmost (a : Arena K V) (fuel : Nat) (id : NodeId) : Except Fault NodeId :=
  a.follow (·.children.head?) fuel id

/-- The leaf at the high end of a subtree. -/
def rightmost (a : Arena K V) (fuel : Nat) (id : NodeId) : Except Fault NodeId :=
  a.follow (·.children.getLast?) fuel id

/-- The number of levels of a subtree, counted along its low edge. -/
def levels (a : Arena K V) : Nat → NodeId → Except Fault Nat
  | 0, _ => .error .endless
  | fuel + 1, id => do
    match (← a.node id).children.head? with
    | none => return 1
    | some child => return (← a.levels fuel child) + 1

/-! ### Reading what was written

A write is seen in its own slot and nowhere else.
-/

theorem node_eq_ok_iff {a : Arena K V} {id : NodeId} {n : Node K V} :
    a.node id = .ok n ↔ a.slots[id]? = some n := by
  unfold node
  split <;> simp_all

theorem write_of_lt {a : Arena K V} {id : NodeId} (n : Node K V) (h : id < a.slots.size) :
    a.write id n = .ok { a with slots := a.slots.setIfInBounds id n } := by
  simp [write, h]

theorem node_write_same {a b : Arena K V} {id : NodeId} {n : Node K V}
    (h : a.write id n = .ok b) : b.node id = .ok n := by
  unfold write at h
  split at h
  · injection h with h
    subst h
    simp [node_eq_ok_iff, *]
  · contradiction

theorem node_write_other {a b : Arena K V} {id other : NodeId} {n : Node K V}
    (h : a.write id n = .ok b) (hne : other ≠ id) : b.node other = a.node other := by
  unfold write at h
  split at h
  · injection h with h
    subst h
    simp [node, Array.getElem?_setIfInBounds_ne (Ne.symm hne)]
  · contradiction

end Arena

end Multiway
