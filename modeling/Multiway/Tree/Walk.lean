import Multiway.Tree.Cursor
import Multiway.Tree.Removal

/-!
Walking over the entries from both ends.

A walk moves one cursor forward from the start and one backward from the end, and counts the
entries between them; it is over when none is left, even though neither cursor knows of the other.
A walk shows a part of each entry: all of it, the key, or the value. A drain does the same and
takes the entries out of the tree on the way.
-/

namespace Multiway

variable {K V α : Type}

/-- A walk over the entries of a tree that shows a part of each. -/
structure Walk (K V α : Type) where
  front : Cursor K V
  back : Cursor K V
  /-- The number of entries that have not been shown. -/
  remaining : Nat
  /-- What is shown of an entry. -/
  view : K × V → α

/-- A walk over all entries. -/
def Tree.walk (t : Tree K V) (view : K × V → α) : Walk K V α :=
  { front := t.cursor, back := t.cursor.toEnd, remaining := t.size, view }

/-- A walk that shows whole entries. -/
def Tree.iter (t : Tree K V) : Walk K V (K × V) := t.walk id

/-- A walk that shows the keys. -/
def Tree.keys (t : Tree K V) : Walk K V K := t.walk Prod.fst

/-- A walk that shows the values. -/
def Tree.values (t : Tree K V) : Walk K V V := t.walk Prod.snd

namespace Walk

/-- Another walk over what is left, with cursors of its own. -/
def copy (w : Walk K V α) : Walk K V α :=
  { front := w.front.copy, back := w.back.copy, remaining := w.remaining, view := w.view }

@[simp] theorem copy_eq (w : Walk K V α) : w.copy = w := by
  rw [copy, Cursor.copy_eq, Cursor.copy_eq]

/-- The least and the greatest number of entries that may be left. Both are known exactly. -/
def sizeHint (w : Walk K V α) : Nat × Option Nat := (w.remaining, some w.remaining)

/-- The number of entries that are left, which is the least that may be. -/
def length (w : Walk K V α) : Nat := w.sizeHint.1

/-- The next entry from the start. -/
def next (w : Walk K V α) : Except Fault (Option α × Walk K V α) := do
  match w.remaining with
  | 0 => return (none, w)
  | remaining + 1 =>
    let (_, front) ← w.front.next
    return ((← front.entry?).map w.view, { w with front, remaining })

/-- The next entry from the end. -/
def nextBack (w : Walk K V α) : Except Fault (Option α × Walk K V α) := do
  match w.remaining with
  | 0 => return (none, w)
  | remaining + 1 =>
    let (_, back) ← w.back.prev
    return ((← back.entry?).map w.view, { w with back, remaining })

end Walk

/-- Repeats a step until it has nothing more to show, and collects what it shows. The first number
bounds the steps. -/
def collect {σ : Type} (step : σ → Except Fault (Option α × σ)) :
    Nat → σ → Except Fault (List α × σ)
  | 0, state => return ([], state)
  | fuel + 1, state => do
    match ← step state with
    | (none, state) => return ([], state)
    | (some item, state) =>
      let (items, state) ← collect step fuel state
      return (item :: items, state)

namespace Walk

/-- Everything that is left, from the start. -/
def takeAll (w : Walk K V α) : Except Fault (List α × Walk K V α) := collect next w.remaining w

/-- Everything that is left, from the end. -/
def takeAllBack (w : Walk K V α) : Except Fault (List α × Walk K V α) :=
  collect nextBack w.remaining w

/-- Everything that is left, in order. -/
def toList (w : Walk K V α) : Except Fault (List α) := do
  return (← w.takeAll).1

end Walk

namespace Tree

/-- The entries in ascending order of the keys. -/
def toList (t : Tree K V) : Except Fault (List (K × V)) := t.iter.toList

/-- Whether two trees hold the same entries in the same order. Their orders, shapes and arenas do
not matter. -/
def equal [BEq K] [BEq V] (t u : Tree K V) : Except Fault Bool := do
  if t.size ≠ u.size then return false
  return (← t.toList) == (← u.toList)

end Tree

/-- A tree that gives its entries away. -/
structure Drain (K V : Type) where
  /-- What has not been given away. -/
  tree : Tree K V
  /-- What the tree reported so far. -/
  events : List Event := []

/-- Gives the entries of a tree away. -/
def Tree.drain (t : Tree K V) : Drain K V := { tree := t }

namespace Drain

/-- The number of entries that are left. -/
def remaining (d : Drain K V) : Nat := d.tree.size

/-- The least and the greatest number of entries that may be left. Both are known exactly. -/
def sizeHint (d : Drain K V) : Nat × Option Nat := (d.remaining, some d.remaining)

/-- The number of entries that are left, which is the least that may be. -/
def length (d : Drain K V) : Nat := d.sizeHint.1

/-- The next entry from the start. -/
def next (d : Drain K V) : Except Fault (Option (K × V) × Drain K V) := do
  let change ← d.tree.extractMin
  return (change.answer, ⟨change.state, d.events ++ change.events⟩)

/-- The next entry from the end. -/
def nextBack (d : Drain K V) : Except Fault (Option (K × V) × Drain K V) := do
  let change ← d.tree.extractMax
  return (change.answer, ⟨change.state, d.events ++ change.events⟩)

/-- Everything that is left, from the start. -/
def takeAll (d : Drain K V) : Except Fault (List (K × V) × Drain K V) :=
  collect next d.remaining d

/-- Everything that is left, from the end. -/
def takeAllBack (d : Drain K V) : Except Fault (List (K × V) × Drain K V) :=
  collect nextBack d.remaining d

end Drain

end Multiway
