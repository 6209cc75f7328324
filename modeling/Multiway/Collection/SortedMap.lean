import Multiway.Tree.Audit
import Multiway.Tree.Copy
import Multiway.Tree.Exchange

/-!
Sorted maps.

A sorted map is a tree under the names that are usual for a map. Whatever the tree can do besides
is done through `tree`.
-/

namespace Multiway

variable {K V : Type}

/-- A map with its keys in order. -/
structure SortedMap (K V : Type) where
  tree : Tree K V

namespace SortedMap

/-- A map without entries. -/
def empty (cmp : K → K → Ordering) : SortedMap K V := ⟨.standard cmp⟩

/-- A map whose tree has a chosen order. -/
def ofOrder (order : Nat) (cmp : K → K → Ordering) : Except Error (SortedMap K V) := do
  return ⟨← Tree.ofOrder order cmp⟩

/-- A map with some entries; where a key comes twice, its last value stays. -/
def ofList (cmp : K → K → Ordering) (entries : List (K × V)) : Except Fault (SortedMap K V) := do
  return ⟨← Tree.ofList cmp entries⟩

/-- A map with the entries of a JSON text. -/
def ofJson [Json.ObjectReader K V] (cmp : K → K → Ordering) (text : String) :
    Except Fault (Except Error (SortedMap K V)) := do
  return (← Tree.ofJson cmp text).map SortedMap.mk

/-- The number of entries. -/
def size (m : SortedMap K V) : Nat := m.tree.size

/-- Whether there are no entries. -/
def isEmpty (m : SortedMap K V) : Bool := m.tree.isEmpty

/-- Stores a value under a key and answers the value that was there. -/
def insert (m : SortedMap K V) (key : K) (value : V) :
    Except Fault (Change (SortedMap K V) (Option V)) := do
  return (← m.tree.insert key value).map SortedMap.mk

/-- Stores entries one after the other. -/
def insertMany (m : SortedMap K V) (entries : List (K × V)) :
    Except Fault (Change (SortedMap K V) Unit) := do
  return (← m.tree.insertMany entries).map SortedMap.mk

/-- Removes a key and answers its value. -/
def erase (m : SortedMap K V) (key : K) : Except Fault (Change (SortedMap K V) (Option V)) := do
  return (← m.tree.erase key).map SortedMap.mk

/-- Changes the value stored under a key and answers the value that it had. -/
def modify (m : SortedMap K V) (key : K) (change : V → V) :
    Except Fault (Change (SortedMap K V) (Option V)) := do
  return (← m.tree.modify key change).map SortedMap.mk

/-- Removes every entry. -/
def clear (m : SortedMap K V) : Change (SortedMap K V) Unit := m.tree.clear.map SortedMap.mk

/-- Removes the entry with the smallest key. -/
def extractMin (m : SortedMap K V) : Except Fault (Change (SortedMap K V) (Option (K × V))) := do
  return (← m.tree.extractMin).map SortedMap.mk

/-- Removes the entry with the largest key. -/
def extractMax (m : SortedMap K V) : Except Fault (Change (SortedMap K V) (Option (K × V))) := do
  return (← m.tree.extractMax).map SortedMap.mk

/-- The value stored under a key. -/
def get? (m : SortedMap K V) (key : K) : Except Fault (Option V) := m.tree.get? key

/-- Whether a key is there. -/
def contains (m : SortedMap K V) (key : K) : Except Fault Bool := m.tree.contains key

/-- The entry with the greatest key that is not above `key`. -/
def getEntryLE? (m : SortedMap K V) (key : K) : Except Fault (Option (K × V)) :=
  m.tree.getEntryLE? key

/-- The entry with the least key that is not below `key`. -/
def getEntryGE? (m : SortedMap K V) (key : K) : Except Fault (Option (K × V)) :=
  m.tree.getEntryGE? key

/-- A map with a tree of its own. -/
def copy (m : SortedMap K V) : Except Fault (SortedMap K V) := do
  return ⟨← m.tree.copy⟩

/-- Whether two maps hold the same entries in the same order. -/
def equal [BEq K] [BEq V] (m n : SortedMap K V) : Except Fault Bool := m.tree.equal n.tree

end SortedMap

end Multiway
