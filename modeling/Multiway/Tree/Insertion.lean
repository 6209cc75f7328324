import Multiway.Tree.Search

/-!
Inserting entries.

A new entry goes into a leaf. A leaf that has become too full is cut in two, and the entry between
the parts moves up into the parent, which may become too full in turn. When the root is cut, a new
root is put above the two parts; this is the only way in which a tree grows a level, so all leaves
stay equally deep.
-/

namespace Multiway.Tree

variable {K V : Type}

/-- Puts a separating entry and the node on its right into a parent, where the entry belongs. -/
def linkRight (t : Tree K V) (parent : NodeId) (median : K × V) (right : NodeId) :
    Except Fault (Tree K V) := do
  let node ← t.arena.node parent
  let position := (node.search t.cmp median.1).position
  let entries ← insertAt node.entries position median
  let children ← insertAt node.children (position + 1) right
  return { t with arena := ← t.arena.write parent { node with entries, children } }

/-- Puts a new root with one entry above two nodes. -/
def raiseRoot (t : Tree K V) (left : NodeId) (median : K × V) (right : NodeId) :
    Except Fault (Tree K V) := do
  let (root, arena) ← t.arena.acquire
  let arena ← arena.update root fun node =>
    { node with entries := node.entries ++ [median], children := node.children ++ [left, right] }
  let arena ← arena.adopt root [left, right]
  return { t with arena, root := some root }

/-- Cuts a node in two. The lower part stays where the node was; the number of the upper part is
answered with the entry between them. -/
def cutNode (t : Tree K V) (current : NodeId) : Except Fault (Tree K V × (K × V) × NodeId) := do
  let (right, arena) ← t.arena.acquire
  Arena.apart current right
  let (low, median, high) ← (← arena.node current).cut t.fanout.middle
  let arena ← arena.write current low
  let arena ← arena.update right (Node.extend high)
  let arena ← arena.adopt right (← arena.node right).children
  return ({ t with arena }, median, right)

/-- Cuts `current` if it is too full, then its parent, and so on upwards. The first number bounds
the cuts. -/
def relieve : Nat → NodeId → Tree K V → Except Fault (Tree K V × List Event)
  | fuel, current, t => do
    let node ← t.arena.node current
    if node.entries.length ≤ t.fanout.mostEntries then return (t, [])
    match fuel with
    | 0 => .error .endless
    | fuel + 1 =>
      let (t, median, right) ← t.cutNode current
      match node.parent with
      | some parent => relieve fuel parent (← t.linkRight parent median right)
      | none =>
        let t ← t.raiseRoot current median right
        return (t, [.rootSplit (← t.height)])

/-- Puts the first entry into a tree. -/
def plant (t : Tree K V) (key : K) (value : V) : Except Fault (Tree K V) := do
  let (root, arena) ← t.arena.acquire
  let arena ← arena.update root fun node => { node with entries := node.entries ++ [(key, value)] }
  return { t with arena, root := some root, size := 1 }

/-- Stores a value under a key. A key that is there keeps its place and gets the new value, and the
old one is answered. -/
def insert (t : Tree K V) (key : K) (value : V) :
    Except Fault (Change (Tree K V) (Option V)) := do
  match t.root with
  | none => return { answer := none, state := ← t.plant key value }
  | some root =>
    let (id, place) ← t.descend key t.bound root
    let node ← t.arena.node id
    match place with
    | .found position =>
      let (stored, old) ← itemAt node.entries position
      let (_, entries) ← replaceAt node.entries position (stored, value)
      let arena ← t.arena.write id { node with entries }
      return { answer := some old, state := { t with arena } }
    | .absent position =>
      let entries ← insertAt node.entries position (key, value)
      let arena ← t.arena.write id { node with entries }
      let (t, events) ← relieve t.bound id { t with arena, size := t.size + 1 }
      return { answer := none, state := t, events }

/-- Stores entries one after the other. -/
def insertMany (t : Tree K V) (entries : List (K × V)) : Except Fault (Change (Tree K V) Unit) :=
  entries.foldlM (fun change (key, value) => do
    let step ← change.state.insert key value
    return { answer := (), state := step.state, events := change.events ++ step.events })
    { answer := (), state := t }

/-- A tree of the standard kind with some entries. -/
def ofList (cmp : K → K → Ordering) (entries : List (K × V)) : Except Fault (Tree K V) := do
  return (← (standard cmp).insertMany entries).state

end Multiway.Tree
