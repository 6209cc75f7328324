/-!
How wide a node may be.

The order of a tree is the largest number of children of one node; it fixes how many entries a
node holds and where an overfull node is cut. An overfull node of order 2 would hold two entries,
too few for a middle one with something on both sides, so a tree runs with order 3 at least.
-/

namespace Multiway

/-- The order a tree runs with. -/
structure Fanout where
  /-- The largest number of children of one node. -/
  order : Nat
  /-- A cut has something on both sides. -/
  three_le : 3 ≤ order
deriving DecidableEq, Repr

namespace Fanout

/-- The smallest order that may be asked for. -/
def smallest : Nat := 2

/-- The order of a tree for which none was asked. -/
def usual : Nat := 32

/-- The fan-out of a tree for which no order was asked. -/
def standard : Fanout := ⟨usual, by decide⟩

/-- The fan-out for an order that was asked for: order 2 runs as order 3, and smaller orders are
refused. -/
def ofOrder? (order : Nat) : Option Fanout :=
  if order < smallest then none else some ⟨max order 3, Nat.le_max_right ..⟩

/-- The most entries a node holds between two operations. -/
def mostEntries (f : Fanout) : Nat := f.order - 1

/-- The fewest entries a node other than the root holds: one less than half the order, rounded
up. -/
def fewestEntries (f : Fanout) : Nat := (f.order + 1) / 2 - 1

/-- The position of the entry that moves up when an overfull node is cut. -/
def middle (f : Fanout) : Nat := (f.order - 1) / 2

theorem mostEntries_add_one (f : Fanout) : f.mostEntries + 1 = f.order := by
  have := f.three_le
  unfold mostEntries
  omega

theorem fewestEntries_add_one (f : Fanout) : f.fewestEntries + 1 = (f.order + 1) / 2 := by
  have := f.three_le
  unfold fewestEntries
  omega

theorem fewestEntries_pos (f : Fanout) : 0 < f.fewestEntries := by
  have := f.three_le
  unfold fewestEntries
  omega

theorem two_mul_fewestEntries_le (f : Fanout) : 2 * f.fewestEntries ≤ f.mostEntries := by
  have := f.three_le
  unfold fewestEntries mostEntries
  omega

theorem middle_lt (f : Fanout) {size : Nat} (h : ¬ size ≤ f.mostEntries) : f.middle < size := by
  have := f.three_le
  unfold mostEntries at h
  unfold middle
  omega

theorem order_le {f : Fanout} {size : Nat} (h : ¬ size ≤ f.mostEntries) : f.order ≤ size := by
  unfold mostEntries at h
  omega

theorem succ_le_order {f : Fanout} {size : Nat} (h : size ≤ f.mostEntries) :
    size + 1 ≤ f.order := by
  have := f.three_le
  unfold mostEntries at h
  omega

end Fanout

/-- What may be chosen when a tree is made. -/
structure Options where
  /-- The order asked for. -/
  order : Nat := Fanout.usual
  /-- How many released nodes are kept for reuse; none are when this is zero. -/
  freeCapacity : Nat := 64
deriving DecidableEq, Repr

end Multiway
