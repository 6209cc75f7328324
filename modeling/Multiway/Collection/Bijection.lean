import Multiway.Tree.Copy
import Multiway.Tree.Exchange

/-!
Bijections.

A bijection pairs every key with one value and every value with one key. It is kept in two trees,
one from the keys to the values and one back, so it can be asked and walked in both directions. To
pair a key with a value both are first taken out of whatever pairs they are in; a caller that must
not take a value away from another key uses `insertIfFree`.
-/

namespace Multiway

variable {K V : Type}

/-- Pairs of keys and values in which no key and no value comes twice. -/
structure Bijection (K V : Type) where
  /-- From the keys to the values. -/
  forward : Tree K V
  /-- From the values to the keys. -/
  inverse : Tree V K

namespace Bijection

/-- A bijection without pairs. -/
def empty (keyOrder : K → K → Ordering) (valueOrder : V → V → Ordering) : Bijection K V :=
  ⟨.standard keyOrder, .standard valueOrder⟩

/-- A bijection whose trees have a chosen order. -/
def ofOrder (order : Nat) (keyOrder : K → K → Ordering) (valueOrder : V → V → Ordering) :
    Except Error (Bijection K V) := do
  return ⟨← Tree.ofOrder order keyOrder, ← Tree.ofOrder order valueOrder⟩

/-- The number of pairs. -/
def size (b : Bijection K V) : Nat := b.forward.size

/-- Whether there are no pairs. -/
def isEmpty (b : Bijection K V) : Bool := b.forward.isEmpty

/-- The value of a key. -/
def get? (b : Bijection K V) (key : K) : Except Fault (Option V) := b.forward.get? key

/-- The key of a value. -/
def getKey? (b : Bijection K V) (value : V) : Except Fault (Option K) := b.inverse.get? value

/-- Whether a key is in a pair. -/
def containsKey (b : Bijection K V) (key : K) : Except Fault Bool := b.forward.contains key

/-- Whether a value is in a pair. -/
def containsValue (b : Bijection K V) (value : V) : Except Fault Bool := b.inverse.contains value

/-- Removes the pair of a key and answers its value. -/
def erase (b : Bijection K V) (key : K) : Except Fault (Option V × Bijection K V) := do
  let removed ← b.forward.erase key
  match removed.answer with
  | none => return (none, b)
  | some value =>
    let inverse := (← b.inverse.erase value).state
    return (some value, ⟨removed.state, inverse⟩)

/-- Removes the pair of a value and answers its key. -/
def eraseValue (b : Bijection K V) (value : V) : Except Fault (Option K × Bijection K V) := do
  let removed ← b.inverse.erase value
  match removed.answer with
  | none => return (none, b)
  | some key =>
    let forward := (← b.forward.erase key).state
    return (some key, ⟨forward, removed.state⟩)

/-- Pairs a key with a value, whatever they were paired with, and answers the value the key had. -/
def insert (b : Bijection K V) (key : K) (value : V) :
    Except Fault (Option V × Bijection K V) := do
  let (previous, b) ← b.erase key
  let (_, b) ← b.eraseValue value
  let inverse := (← b.inverse.insert value key).state
  let forward := (← b.forward.insert key value).state
  return (previous, ⟨forward, inverse⟩)

/-- Pairs a key with a value, unless the value is paired with a different key. -/
def insertIfFree [BEq K] (b : Bijection K V) (key : K) (value : V) :
    Except Fault (Except Error (Option V) × Bijection K V) := do
  let taken := match ← b.getKey? value with
    | some bound => bound != key
    | none => false
  if taken then return (.error .duplicateValue, b)
  let (previous, b) ← b.insert key value
  return (.ok previous, b)

/-- Pairs keys with values one after the other. -/
def insertMany (b : Bijection K V) (pairs : List (K × V)) : Except Fault (Bijection K V) :=
  pairs.foldlM (fun b (key, value) => do return (← b.insert key value).2) b

/-- A bijection made from pairs; a later pair displaces the earlier ones that share its key or its
value. -/
def ofList (keyOrder : K → K → Ordering) (valueOrder : V → V → Ordering) (pairs : List (K × V)) :
    Except Fault (Bijection K V) :=
  (empty keyOrder valueOrder).insertMany pairs

/-- Removes every pair. -/
def clear (b : Bijection K V) : Bijection K V := ⟨b.forward.clear.state, b.inverse.clear.state⟩

/-- A walk over the pairs in the order of the keys. -/
def iter (b : Bijection K V) : Walk K V (K × V) := b.forward.iter

/-- A walk over the pairs in the order of the values, which come first. -/
def iterByValue (b : Bijection K V) : Walk V K (V × K) := b.inverse.iter

/-- A bijection with trees of its own. -/
def copy (b : Bijection K V) : Except Fault (Bijection K V) := do
  return ⟨← b.forward.copy, ← b.inverse.copy⟩

/-- Whether two bijections are the same in both directions. -/
def equal [BEq K] [BEq V] (b c : Bijection K V) : Except Fault Bool := do
  if ← b.forward.equal c.forward then b.inverse.equal c.inverse else return false

end Bijection

end Multiway
