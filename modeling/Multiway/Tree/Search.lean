import Multiway.Tree.Basic

/-!
Looking for a key.

A search goes down from the root. In every node it either finds the key or the child that may hold
it, and in a leaf there is no such child. The nearest entries below and above a key that is not
there are met on the way: each gap that the search goes through has them at its sides.
-/

namespace Multiway.Tree

variable {K V : Type}

/-- Goes down from a node to the node that has the key, or to the leaf that would have it. The
first number bounds the nodes on the way. -/
def descend (t : Tree K V) (key : K) : Nat → NodeId → Except Fault (NodeId × Place)
  | 0, _ => .error .endless
  | fuel + 1, id => do
    let node ← t.arena.node id
    match node.search t.cmp key with
    | .found position => return (id, .found position)
    | .absent position =>
      if node.isLeaf then return (id, .absent position)
      else t.descend key fuel (← itemAt node.children position)

/-- The node that has a key, and the position of the entry in it. -/
def find? (t : Tree K V) (key : K) : Except Fault (Option (NodeId × Nat)) :=
  match t.root with
  | none => return none
  | some root => do
    match ← t.descend key t.bound root with
    | (id, .found position) => return some (id, position)
    | (_, .absent _) => return none

/-- The entry that has a key, with the key as it is stored. -/
def getEntry? (t : Tree K V) (key : K) : Except Fault (Option (K × V)) := do
  match ← t.find? key with
  | none => return none
  | some (id, position) => return some (← itemAt (← t.arena.node id).entries position)

/-- The value stored under a key. -/
def get? (t : Tree K V) (key : K) : Except Fault (Option V) := do
  return (← t.getEntry? key).map Prod.snd

/-- Whether a key is there. -/
def contains (t : Tree K V) (key : K) : Except Fault Bool := do
  return (← t.find? key).isSome

/-- Changes the value stored under a key and answers the value that it had. -/
def modify (t : Tree K V) (key : K) (change : V → V) :
    Except Fault (Change (Tree K V) (Option V)) := do
  match ← t.find? key with
  | none => return { answer := none, state := t }
  | some (id, position) =>
    let node ← t.arena.node id
    let (stored, old) ← itemAt node.entries position
    let (_, entries) ← replaceAt node.entries position (stored, change old)
    let arena ← t.arena.write id { node with entries }
    return { answer := some old, state := { t with arena } }

/-- The entry below a gap of a node, or else the best one met so far. -/
def entryBelow (node : Node K V) (best : Option (K × V)) : Nat → Except Fault (Option (K × V))
  | 0 => .ok best
  | below + 1 => some <$> itemAt node.entries below

/-- The last entry not above a key in the subtree of a node, or else the best one met so far. -/
def lastNotAbove (t : Tree K V) (key : K) :
    Nat → NodeId → Option (K × V) → Except Fault (Option (K × V))
  | 0, _, _ => .error .endless
  | fuel + 1, id, best => do
    let node ← t.arena.node id
    match node.search t.cmp key with
    | .found position => return some (← itemAt node.entries position)
    | .absent position =>
      let best ← entryBelow node best position
      if node.isLeaf then return best
      else t.lastNotAbove key fuel (← itemAt node.children position) best

/-- The entry with the greatest key that is not above `key`. -/
def getEntryLE? (t : Tree K V) (key : K) : Except Fault (Option (K × V)) :=
  match t.root with
  | none => return none
  | some root => t.lastNotAbove key t.bound root none

/-- The first entry not below a key in the subtree of a node, or else the best one met so far. -/
def firstNotBelow (t : Tree K V) (key : K) :
    Nat → NodeId → Option (K × V) → Except Fault (Option (K × V))
  | 0, _, _ => .error .endless
  | fuel + 1, id, best => do
    let node ← t.arena.node id
    match node.search t.cmp key with
    | .found position => return some (← itemAt node.entries position)
    | .absent position =>
      let best := node.entries[position]? <|> best
      if node.isLeaf then return best
      else t.firstNotBelow key fuel (← itemAt node.children position) best

/-- The entry with the least key that is not below `key`. -/
def getEntryGE? (t : Tree K V) (key : K) : Except Fault (Option (K × V)) :=
  match t.root with
  | none => return none
  | some root => t.firstNotBelow key t.bound root none

end Multiway.Tree
