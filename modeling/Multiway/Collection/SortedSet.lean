import Multiway.Tree.Audit
import Multiway.Tree.Copy
import Multiway.Tree.Exchange

/-!
Sorted sets.

A sorted set is a tree of keys without values. Elements that its comparison calls equal are one
element of the set, and it keeps the one that came first. The operations on two sets ask each set
by its own comparison, and their result is made like the first set.
-/

namespace Multiway

variable {T : Type}

/-- A set with its elements in order. -/
structure SortedSet (T : Type) where
  tree : Tree T Unit

namespace SortedSet

/-- A set without elements. -/
def empty (cmp : T → T → Ordering) : SortedSet T := ⟨.standard cmp⟩

/-- A set whose tree has a chosen order. -/
def ofOrder (order : Nat) (cmp : T → T → Ordering) : Except Error (SortedSet T) := do
  return ⟨← Tree.ofOrder order cmp⟩

/-- The number of elements. -/
def size (s : SortedSet T) : Nat := s.tree.size

/-- Whether there are no elements. -/
def isEmpty (s : SortedSet T) : Bool := s.tree.isEmpty

/-- Whether an element is there. -/
def contains (s : SortedSet T) (element : T) : Except Fault Bool := s.tree.contains element

/-- Adds an element unless it is there, and tells whether it was added. -/
def insert (s : SortedSet T) (element : T) : Except Fault (Bool × SortedSet T) := do
  if ← s.contains element then return (false, s)
  return (true, ⟨(← s.tree.insert element ()).state⟩)

/-- Adds elements one after the other. -/
def insertMany (s : SortedSet T) (elements : List T) : Except Fault (SortedSet T) :=
  elements.foldlM (fun s element => do return (← s.insert element).2) s

/-- A set with some elements. -/
def ofList (cmp : T → T → Ordering) (elements : List T) : Except Fault (SortedSet T) :=
  (empty cmp).insertMany elements

/-- Removes an element and tells whether it was there. -/
def erase (s : SortedSet T) (element : T) : Except Fault (Bool × SortedSet T) := do
  let change ← s.tree.erase element
  return (change.answer.isSome, ⟨change.state⟩)

/-- Removes every element. -/
def clear (s : SortedSet T) : SortedSet T := ⟨s.tree.clear.state⟩

/-- The smallest element. -/
def min? (s : SortedSet T) : Except Fault (Option T) := do
  return (← s.tree.minEntry?).map Prod.fst

/-- The largest element. -/
def max? (s : SortedSet T) : Except Fault (Option T) := do
  return (← s.tree.maxEntry?).map Prod.fst

/-- A walk over the elements. -/
def iter (s : SortedSet T) : Walk T Unit T := s.tree.keys

/-- The elements in order. -/
def toList (s : SortedSet T) : Except Fault (List T) := s.iter.toList

/-- A set with a tree of its own. -/
def copy (s : SortedSet T) : Except Fault (SortedSet T) := do
  return ⟨← s.tree.copy⟩

/-- Whether two sets hold the same elements in the same order. -/
def equal [BEq T] (s u : SortedSet T) : Except Fault Bool := s.tree.equal u.tree

/-! ### Two sets -/

/-- The elements of `s`, and those of `other` that are none of them. -/
def union (s other : SortedSet T) : Except Fault (SortedSet T) := do
  (← s.copy).insertMany (← other.toList)

/-- The elements that pass a test. -/
def filter (s : SortedSet T) (test : T → Except Fault Bool) : Except Fault (SortedSet T) := do
  let tree ← (← s.toList).foldlM (fun tree element => do
    if ← test element then return (← tree.insert element ()).state
    return tree) s.tree.blank
  return ⟨tree⟩

/-- The elements of `s` that `other` has too. -/
def intersection (s other : SortedSet T) : Except Fault (SortedSet T) := s.filter other.contains

/-- The elements of `s` that `other` has not. -/
def difference (s other : SortedSet T) : Except Fault (SortedSet T) :=
  s.filter fun element => (! ·) <$> other.contains element

/-! ### Text -/

/-- A set with the elements of a JSON array. -/
def ofJson [Json.ArrayReader T] (cmp : T → T → Ordering) (text : String) :
    Except Fault (Except Error (SortedSet T)) :=
  match Json.readElements text with
  | .error failure => return .error (.undecodable failure)
  | .ok elements => return .ok (← ofList cmp elements)

/-- A set as a JSON array without blanks, unless one of its elements cannot be written there. -/
def toJson [Json.ArrayWriter T] (s : SortedSet T) : Except Fault (Except Error String) := do
  return (Json.writeElements .compact (← s.toList)).mapError .undecodable

/-- The literal form of a set. -/
def literal [Text.Printable T] (s : SortedSet T) : Except Fault Text.Literal := do
  return Text.literalElements (← s.toList)

/-- The plain form of a set. -/
def plain [Text.Printable T] (s : SortedSet T) : Except Fault String := do
  return Text.plainElements (← s.toList)

end SortedSet

end Multiway
