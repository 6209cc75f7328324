import Multiway.Tree.Insertion

/-!
Removing entries.

An entry is always taken out of a leaf: an entry further up is first replaced by the one before
it, which stands in a leaf. A node that is then less than half full takes an entry from a
neighbour through the parent, from the right one if that has an entry to spare and otherwise from
the left one. When neither can spare one, the node and a neighbour are merged with the entry
between them, and the parent, which has lost that entry, may be less than half full in turn. A
root without entries is dropped; this is the only way in which a tree loses a level.
-/

namespace Multiway.Tree

variable {K V : Type}

/-- Moves the first entry of the right neighbour of a child into the parent, and the entry that
stood there to the end of the child. Nothing is done when there is no such neighbour or it has no
entry to spare. -/
def shiftFromRight (t : Tree K V) (parent : NodeId) (position : Nat) :
    Except Fault (Option (Tree K V)) := do
  let above ← t.arena.node parent
  match above.children[position + 1]? with
  | none => return none
  | some sibling =>
    let lender ← t.arena.node sibling
    if lender.entries.length ≤ t.fanout.fewestEntries then return none
    let (lent, entries) ← removeAt lender.entries 0
    let moved := lender.children.take 1
    let arena ← t.arena.write sibling { lender with entries, children := lender.children.drop 1 }
    let (separator, entries) ← replaceAt above.entries position lent
    let arena ← arena.write parent { above with entries }
    let current ← itemAt above.children position
    let arena ← arena.update current fun node =>
      { node with entries := node.entries ++ [separator], children := node.children ++ moved }
    return some { t with arena := ← arena.adopt current moved }

/-- Moves the last entry of the left neighbour of a child into the parent, and the entry that
stood there to the front of the child. Nothing is done when there is no such neighbour or it has no
entry to spare. -/
def shiftFromLeft (t : Tree K V) (parent : NodeId) (position : Nat) :
    Except Fault (Option (Tree K V)) := do
  match position with
  | 0 => return none
  | before + 1 =>
    let above ← t.arena.node parent
    let sibling ← itemAt above.children before
    let lender ← t.arena.node sibling
    if lender.entries.length ≤ t.fanout.fewestEntries then return none
    match lender.entries.getLast? with
    | none => return none
    | some lent =>
      let moved := lender.children.getLast?.toList
      let arena ← t.arena.write sibling
        { lender with entries := lender.entries.dropLast, children := lender.children.dropLast }
      let (separator, entries) ← replaceAt above.entries before lent
      let arena ← arena.write parent { above with entries }
      let current ← itemAt above.children position
      let arena ← arena.update current fun node =>
        { node with entries := separator :: node.entries, children := moved ++ node.children }
      return some { t with arena := ← arena.adopt current moved }

/-- Merges the children on both sides of an entry, and that entry, into the left one of them. -/
def mergeAt (t : Tree K V) (parent : NodeId) (position : Nat) :
    Except Fault (Tree K V × List Event) := do
  let above ← t.arena.node parent
  let (separator, entries) ← removeAt above.entries position
  let (right, children) ← removeAt above.children (position + 1)
  let left ← itemAt children position
  let arena ← t.arena.write parent { above with entries, children }
  Arena.apart left right
  let low ← arena.node left
  let high ← arena.node right
  let arena ← arena.write left { low with
    entries := low.entries ++ separator :: high.entries
    children := low.children ++ high.children }
  let arena ← arena.adopt left high.children
  let (arena, events) ← arena.release right
  return ({ t with arena }, events)

/-- Drops a root that has no entries. Its only child, if it has one, becomes the root. -/
def lowerRoot (t : Tree K V) (root : NodeId) : Except Fault (Tree K V × List Event) := do
  let node ← t.arena.node root
  if !node.entries.isEmpty then return (t, [])
  let heir := node.children.head?
  let (arena, events) ← (← t.arena.orphan heir.toList).release root
  let t := { t with arena, root := heir }
  return (t, events ++ [.rootCollapsed (← t.height)])

/-- The separator at which a child is merged: the one behind it, or the one in front of the last
child. -/
def mergePosition (above : Node K V) (position : Nat) : Except Fault Nat :=
  if position + 1 < above.children.length then .ok position else oneBelow position

/-- Brings `current` back to half full, then its parent, and so on upwards. The first number
bounds the nodes on the way. -/
def replenish : Nat → NodeId → Tree K V → Except Fault (Tree K V × List Event)
  | 0, _, _ => .error .endless
  | fuel + 1, current, t => do
    let node ← t.arena.node current
    match node.parent with
    | none => t.lowerRoot current
    | some parent =>
      if t.fanout.fewestEntries ≤ node.entries.length then return (t, [])
      let above ← t.arena.node parent
      match above.positionOf? current with
      | none => .error (.unlistedChild current parent)
      | some position =>
        if let some t ← t.shiftFromRight parent position then return (t, [])
        if let some t ← t.shiftFromLeft parent position then return (t, [])
        let (t, merged) ← t.mergeAt parent (← mergePosition above position)
        let (t, later) ← replenish fuel parent t
        return (t, merged ++ later)

/-- Takes the entry in a position of a node out of a leaf. If the node is no leaf, the entry before
it takes its place. The leaf is answered with the entry. -/
def detach (t : Tree K V) (id : NodeId) (position : Nat) :
    Except Fault (Tree K V × (K × V) × NodeId) := do
  let node ← t.arena.node id
  if node.isLeaf then
    let (removed, entries) ← removeAt node.entries position
    return ({ t with arena := ← t.arena.write id { node with entries } }, removed, id)
  else
    let leaf ← t.arena.rightmost t.bound (← itemAt node.children position)
    let below ← t.arena.node leaf
    let (before, rest) ← removeAt below.entries (← oneBelow below.entries.length)
    let arena ← t.arena.write leaf { below with entries := rest }
    let node ← arena.node id
    let (removed, entries) ← replaceAt node.entries position before
    return ({ t with arena := ← arena.write id { node with entries } }, removed, leaf)

/-- Removes the entry in a position of a node. -/
def removeEntry (t : Tree K V) (id : NodeId) (position : Nat) :
    Except Fault (Change (Tree K V) (K × V)) := do
  let bound := t.bound
  let (t, removed, leaf) ← t.detach id position
  let (t, events) ← replenish bound leaf { t with size := ← oneBelow t.size }
  return { answer := removed, state := t, events }

/-- Removes a key and answers its value. -/
def erase (t : Tree K V) (key : K) : Except Fault (Change (Tree K V) (Option V)) := do
  match ← t.find? key with
  | none => return { answer := none, state := t }
  | some (id, position) =>
    let change ← t.removeEntry id position
    return { change with answer := some change.answer.2 }

/-- Removes the entry with the smallest key. -/
def extractMin (t : Tree K V) : Except Fault (Change (Tree K V) (Option (K × V))) := do
  match t.root with
  | none => return { answer := none, state := t }
  | some root =>
    let change ← t.removeEntry (← t.arena.leftmost t.bound root) 0
    return { change with answer := some change.answer }

/-- Removes the entry with the largest key. -/
def extractMax (t : Tree K V) : Except Fault (Change (Tree K V) (Option (K × V))) := do
  match t.root with
  | none => return { answer := none, state := t }
  | some root =>
    let leaf ← t.arena.rightmost t.bound root
    match (← t.arena.node leaf).entries.length with
    | 0 => return { answer := none, state := t }
    | last + 1 =>
      let change ← t.removeEntry leaf last
      return { change with answer := some change.answer }

end Multiway.Tree
