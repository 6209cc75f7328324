import Multiway.Tree.Basic

/-!
Cursors.

A cursor stands on an entry of a tree, in front of the first one or behind the last one, and moves
by one entry at a time. It remembers a node and a position in it and nothing else: the way up
goes over the parents. From an entry of an inner node the next one is at the low end of the child
on its right; from the last entry of a leaf it is the first separator to the right on the way up.
-/

namespace Multiway

variable {K V : Type}

/-- Where a cursor stands. -/
inductive Position where
  /-- On no entry. -/
  | beyond (boundary : Boundary)
  /-- On an entry of a node. -/
  | on (id : NodeId) (index : Nat)
deriving DecidableEq, Repr

/-- Whether there is an entry under the cursor. -/
def Position.isEntry : Position → Bool
  | .beyond _ => false
  | .on _ _ => true

namespace Tree

/-- The first entry of the subtree of a node. -/
def lowEnd (t : Tree K V) (id : NodeId) : Except Fault Position := do
  return .on (← t.arena.leftmost t.bound id) 0

/-- The last entry of the subtree of a node. -/
def highEnd (t : Tree K V) (id : NodeId) : Except Fault Position := do
  let leaf ← t.arena.rightmost t.bound id
  return .on leaf (← oneBelow (← t.arena.node leaf).entries.length)

/-- Goes up from a node until `separator` gives the index of an entry of the parent; it is told the
parent and the position of the child there. The first number bounds the steps. -/
def climb (t : Tree K V) (separator : Node K V → Nat → Option Nat) (boundary : Boundary) :
    Nat → NodeId → Except Fault Position
  | fuel, child => do
    match (← t.arena.node child).parent with
    | none => return .beyond boundary
    | some parent =>
      match fuel with
      | 0 => .error .endless
      | fuel + 1 =>
        let above ← t.arena.node parent
        match above.positionOf? child with
        | none => .error (.unlistedChild child parent)
        | some position =>
          match separator above position with
          | some index => return .on parent index
          | none => t.climb separator boundary fuel parent

/-- The entry behind a child, unless it is the last child. -/
def separatorAfter (above : Node K V) (position : Nat) : Option Nat :=
  if position < above.entries.length then some position else none

/-- The entry in front of a child, unless it is the first child. -/
def separatorBefore (_ : Node K V) (position : Nat) : Option Nat :=
  if 0 < position then some (position - 1) else none

/-- The position after an entry. -/
def successor (t : Tree K V) (id : NodeId) (index : Nat) : Except Fault Position := do
  let node ← t.arena.node id
  if !node.isLeaf then t.lowEnd (← itemAt node.children (index + 1))
  else if index + 1 < node.entries.length then return .on id (index + 1)
  else t.climb separatorAfter .afterLast t.bound id

/-- The position before an entry. -/
def predecessor (t : Tree K V) (id : NodeId) (index : Nat) : Except Fault Position := do
  let node ← t.arena.node id
  if !node.isLeaf then t.highEnd (← itemAt node.children index)
  else if 0 < index then return .on id (index - 1)
  else t.climb separatorBefore .beforeFirst t.bound id

/-- The position after a position. -/
def positionAfter (t : Tree K V) : Position → Except Fault Position
  | .beyond .afterLast => return .beyond .afterLast
  | .beyond .beforeFirst =>
    match t.root with
    | none => return .beyond .afterLast
    | some root => t.lowEnd root
  | .on id index => t.successor id index

/-- The position before a position. -/
def positionBefore (t : Tree K V) : Position → Except Fault Position
  | .beyond .beforeFirst => return .beyond .beforeFirst
  | .beyond .afterLast =>
    match t.root with
    | none => return .beyond .beforeFirst
    | some root => t.highEnd root
  | .on id index => t.predecessor id index

end Tree

/-- A place among the entries of a tree. -/
structure Cursor (K V : Type) where
  /-- The tree, which stays as it is. -/
  tree : Tree K V
  position : Position := .beyond .beforeFirst

/-- A cursor in front of the first entry. -/
def Tree.cursor (t : Tree K V) : Cursor K V := { tree := t }

namespace Cursor

/-- Another cursor at the same place, which moves on its own. -/
def copy (c : Cursor K V) : Cursor K V := { tree := c.tree, position := c.position }

@[simp] theorem copy_eq (c : Cursor K V) : c.copy = c := rfl

/-- Whether the cursor stands on an entry. -/
def isPositioned (c : Cursor K V) : Bool := c.position.isEntry

/-- Moves in front of the first entry. -/
def toStart (c : Cursor K V) : Cursor K V := { c with position := .beyond .beforeFirst }

/-- Moves behind the last entry. -/
def toEnd (c : Cursor K V) : Cursor K V := { c with position := .beyond .afterLast }

/-- Moves to a position and tells whether it is an entry. -/
def moveTo (c : Cursor K V) (position : Position) : Bool × Cursor K V :=
  (position.isEntry, { c with position })

/-- Moves to the next entry, or behind the last one, and tells which. -/
def next (c : Cursor K V) : Except Fault (Bool × Cursor K V) := do
  return c.moveTo (← c.tree.positionAfter c.position)

/-- Moves to the entry before, or in front of the first one, and tells which. -/
def prev (c : Cursor K V) : Except Fault (Bool × Cursor K V) := do
  return c.moveTo (← c.tree.positionBefore c.position)

/-- Moves to the first entry, if there is one. -/
def first (c : Cursor K V) : Except Fault (Bool × Cursor K V) := c.toStart.next

/-- Moves to the last entry, if there is one. -/
def last (c : Cursor K V) : Except Fault (Bool × Cursor K V) := c.toEnd.prev

/-- The entry under the cursor, if it stands on one. -/
def entry? (c : Cursor K V) : Except Fault (Option (K × V)) :=
  match c.position with
  | .beyond _ => return none
  | .on id index => do return some (← itemAt (← c.tree.arena.node id).entries index)

/-- The entry under the cursor. The caller must know that it stands on one. -/
def entry (c : Cursor K V) : Except Fault (K × V) :=
  match c.position with
  | .beyond boundary => .error (.offEntry boundary)
  | .on id index => do itemAt (← c.tree.arena.node id).entries index

/-- The key under the cursor. The caller must know that it stands on an entry. -/
def key (c : Cursor K V) : Except Fault K := Prod.fst <$> c.entry

/-- The value under the cursor. The caller must know that it stands on an entry. -/
def value (c : Cursor K V) : Except Fault V := Prod.snd <$> c.entry

/-! ### Moving to an entry that passes a test

The test is an action on a state of its own, so that it may count its calls or remember entries.
It is asked about each entry the cursor comes to, in order, until it answers yes.
-/

variable {σ : Type}

/-- Moves by `move` until an entry passes the test. The first number bounds the moves. -/
def seek (move : Cursor K V → Except Fault (Bool × Cursor K V)) (test : K → V → StateM σ Bool) :
    Nat → Cursor K V → σ → Except Fault ((Bool × Cursor K V) × σ)
  | 0, _, _ => .error .endless
  | fuel + 1, c, state => do
    match ← move c with
    | (false, c) => return ((false, c), state)
    | (true, c) =>
      let (key, value) ← c.entry
      match (test key value).run state with
      | (true, state) => return ((true, c), state)
      | (false, state) => seek move test fuel c state

/-- Moves forward to the next entry that passes a test, or behind the last entry. -/
def findNext (c : Cursor K V) (test : K → V → StateM σ Bool) (state : σ) :
    Except Fault ((Bool × Cursor K V) × σ) :=
  seek next test (c.tree.size + 1) c state

/-- Moves backward to the next entry that passes a test, or in front of the first entry. -/
def findPrev (c : Cursor K V) (test : K → V → StateM σ Bool) (state : σ) :
    Except Fault ((Bool × Cursor K V) × σ) :=
  seek prev test (c.tree.size + 1) c state

end Cursor

end Multiway
