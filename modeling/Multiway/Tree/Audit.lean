import Multiway.Tree.Basic

/-!
Checking a tree.

The audit walks through all nodes and stops at the first one that breaks a rule: its parent, the
number of its entries, their order among one another and between the separators around the node,
its depth if it is a leaf, and the number of its children if it is not. At the end the entries and
nodes that were seen are compared with the numbers that the tree keeps.
-/

namespace Multiway

/-- A broken rule. -/
inductive Violation where
  /-- A node does not name the node above it as its parent. -/
  | parent (id : NodeId) (actual expected : Option NodeId)
  /-- A node has too few or too many entries. -/
  | size (id : NodeId) (entries least most : Nat)
  /-- The entries of a node do not ascend. -/
  | unsorted (id : NodeId)
  /-- The first key of a node is not above the separator on its left. -/
  | belowSeparator (id : NodeId)
  /-- The last key of a node is not below the separator on its right. -/
  | aboveSeparator (id : NodeId)
  /-- A leaf is not as deep as the leaves before it. -/
  | depth (id : NodeId) (actual expected : Nat)
  /-- The number of children is not one more than the number of entries. -/
  | children (id : NodeId) (entries listed : Nat)
  /-- A tree without a root has entries. -/
  | countWithoutRoot (kept : Nat)
  /-- Not as many entries can be reached as the tree has. -/
  | count (kept reachable : Nat)
  /-- Not as many nodes can be reached as are handed out. -/
  | nodes (reachable allocated : Nat)
deriving DecidableEq, Repr

/-- How a message writes the number of a node. -/
def nodeName (id : NodeId) : String := s!"NodeId({id})"

/-- How a message writes the number of a node that need not be there. -/
def optionalNodeName : Option NodeId → String
  | none => "None"
  | some id => s!"Some({nodeName id})"

/-- The wording of a violation. -/
def Violation.message : Violation → String
  | .parent id actual expected =>
    s!"node {nodeName id} has parent {optionalNodeName actual}, " ++
      s!"expected {optionalNodeName expected}"
  | .size id entries least most =>
    s!"node {nodeName id} holds {entries} entries, allowed {least}..={most}"
  | .unsorted id => s!"node {nodeName id} entries are not strictly ascending"
  | .belowSeparator id => s!"node {nodeName id} has a key below its separator"
  | .aboveSeparator id => s!"node {nodeName id} has a key above its separator"
  | .depth id actual expected =>
    s!"leaf {nodeName id} at depth {actual}, other leaves at depth {expected}"
  | .children id entries listed =>
    s!"node {nodeName id} has {entries} entries but {listed} children"
  | .countWithoutRoot kept => s!"empty tree reports length {kept}"
  | .count kept reachable => s!"length {kept} but {reachable} reachable entries"
  | .nodes reachable allocated => s!"{reachable} reachable nodes but {allocated} allocated"

/-- What an audit has seen so far. -/
structure Tally where
  /-- The depth of the leaves, once there was one. -/
  leafDepth : Option Nat := none
  entries : Nat := 0
  nodes : Nat := 0
deriving DecidableEq, Repr

/-- A check fails in one of two ways: it finds a violation, or it cannot go on. -/
abbrev Audit := ExceptT Violation (Except Fault)

/-- Reports a violation if a rule is broken. -/
def Audit.demand (rule : Bool) (violation : Violation) : Audit Unit :=
  if rule then pure () else throw violation

namespace Tree

variable {K V : Type}

/-- The children of a node, each with the separators on its two sides. At the ends these are the
ones around the node. -/
def bracketed (node : Node K V) (lower upper : Option K) :
    List (NodeId × Option K × Option K) :=
  let keys := node.entries.map fun entry => some entry.1
  node.children.zip ((lower :: keys).zip (keys ++ [upper]))

/-- Checks the rules that concern one node alone: its parent, its size, its order, and its place
between the separators. -/
def auditNode (t : Tree K V) (id : NodeId) (node : Node K V) (parent : Option NodeId)
    (lower upper : Option K) : Audit Unit := do
  Audit.demand (node.parent = parent) (.parent id node.parent parent)
  let least := if parent.isNone then 1 else t.fanout.fewestEntries
  let most := t.fanout.mostEntries
  Audit.demand (least ≤ node.entries.length ∧ node.entries.length ≤ most)
    (.size id node.entries.length least most)
  Audit.demand (node.isAscending t.cmp) (.unsorted id)
  if let (some lower, some entry) := (lower, node.entries.head?) then
    Audit.demand (t.cmp lower entry.1 = .lt) (.belowSeparator id)
  if let (some upper, some entry) := (upper, node.entries.getLast?) then
    Audit.demand (t.cmp entry.1 upper = .lt) (.aboveSeparator id)

/-- Checks the subtree of a node. The first number bounds the depth. -/
def auditFrom (t : Tree K V) :
    Nat → NodeId → Option NodeId → Nat → Option K → Option K → Tally → Audit Tally
  | 0, _, _, _, _, _, _ => liftM (m := Except Fault) (.error .endless)
  | fuel + 1, id, parent, depth, lower, upper, tally => do
    let node ← liftM (t.arena.node id)
    t.auditNode id node parent lower upper
    let tally := { tally with
      entries := tally.entries + node.entries.length, nodes := tally.nodes + 1 }
    if node.isLeaf then
      if let some expected := tally.leafDepth then
        Audit.demand (expected = depth) (.depth id depth expected)
      return { tally with leafDepth := some depth }
    else
      Audit.demand (node.children.length = node.entries.length + 1)
        (.children id node.entries.length node.children.length)
      (bracketed node lower upper).foldlM (fun tally (child, lower, upper) =>
        t.auditFrom fuel child (some id) (depth + 1) lower upper tally) tally

/-- Checks a whole tree. -/
def auditAll (t : Tree K V) : Audit Unit :=
  match t.root with
  | none => Audit.demand (t.size = 0) (.countWithoutRoot t.size)
  | some root => do
    let tally ← t.auditFrom t.bound root none 0 none none {}
    Audit.demand (tally.entries = t.size) (.count t.size tally.entries)
    let live ← liftM t.arena.live
    Audit.demand (tally.nodes = live) (.nodes tally.nodes live)

/-- The first broken rule, if there is one. -/
def audit (t : Tree K V) : Except Fault (Except Violation Unit) := t.auditAll.run

end Tree

end Multiway
