import Mathlib.Algebra.Order.BigOperators.Group.List
import Mathlib.Algebra.Order.Ring.Nat
import Multiway.Proofs.Shape.Regular

/-!
How many entries there are in a shape of some height.

There is one more gap than there are entries, in one node and in all of a shape together, and gaps
are easier to count: those of a node are divided among its children. The number of gaps in a node
other than the root lies between half the order, rounded up, and the order, so every level multiplies
the gaps by a number in between. How many entries the topmost node has is left open.
-/

namespace Multiway

variable {α : Type} {f : Fanout} {height : Nat}

namespace Shape

theorem length_interleave (children : List (Shape α)) (entries : List α) :
    (interleave children entries).length =
      entries.length + (children.map fun child => child.toList.length).sum := by
  induction children generalizing entries with
  | nil => simp [interleave]
  | cons child children ih =>
      cases entries with
      | nil =>
          rw [interleave, List.length_append, ih]
          simp
      | cons entry entries =>
          rw [interleave, List.length_append, List.length_cons, ih]
          simp only [List.length_cons, List.map_cons, List.sum_cons]
          omega

/-- The gaps of an inner node are those of its children. -/
theorem length_toList_add_one {s : Shape α} (h : s.Regular f (height + 1)) :
    s.toList.length + 1 = (s.children.map fun child => child.toList.length + 1).sum := by
  obtain ⟨entries, children⟩ := s
  have hlength : children.length = entries.length + 1 := h.1
  rw [toList_node, length_interleave, children_node, List.sum_map_add]
  simp only [List.map_const', List.sum_replicate_nat, Nat.mul_one, hlength]
  omega

/-- Every level below the topmost node multiplies the gaps by a number between half the order and
the order. -/
theorem length_toList_bounds {s : Shape α} (h : s.Regular f height) :
    (s.entries.length + 1) * ((f.order + 1) / 2) ^ height ≤ s.toList.length + 1 ∧
      s.toList.length + 1 ≤ (s.entries.length + 1) * f.order ^ height := by
  induction height generalizing s with
  | zero =>
      obtain ⟨entries, children⟩ := s
      obtain rfl : children = [] := h
      simp [toList_node, interleave]
  | succ height ih =>
      have hlength : (s.children.map fun child => child.toList.length + 1).length =
          s.entries.length + 1 := (List.length_map _).trans h.1
      have hchild : ∀ gaps ∈ s.children.map fun child => child.toList.length + 1,
          ((f.order + 1) / 2) ^ (height + 1) ≤ gaps ∧ gaps ≤ f.order ^ (height + 1) := by
        rintro _ hmem
        obtain ⟨child, hchild, rfl⟩ := List.mem_map.mp hmem
        obtain ⟨hregular, hleast, hmost⟩ := h.2 child hchild
        obtain ⟨hlow, hhigh⟩ := ih hregular
        have hhalf : (f.order + 1) / 2 ≤ child.entries.length + 1 := by
          rw [← f.fewestEntries_add_one]
          exact Nat.succ_le_succ hleast
        have horder : child.entries.length + 1 ≤ f.order := Fanout.succ_le_order hmost
        constructor
        · calc ((f.order + 1) / 2) ^ (height + 1)
              = (f.order + 1) / 2 * ((f.order + 1) / 2) ^ height := Nat.pow_succ'
            _ ≤ (child.entries.length + 1) * ((f.order + 1) / 2) ^ height :=
                Nat.mul_le_mul_right _ hhalf
            _ ≤ child.toList.length + 1 := hlow
        · calc child.toList.length + 1
              ≤ (child.entries.length + 1) * f.order ^ height := hhigh
            _ ≤ f.order * f.order ^ height := Nat.mul_le_mul_right _ horder
            _ = f.order ^ (height + 1) := Nat.pow_succ'.symm
      rw [length_toList_add_one h, ← hlength]
      exact ⟨List.card_nsmul_le_sum _ _ fun gaps hmem => (hchild gaps hmem).1,
        List.sum_le_card_nsmul _ _ fun gaps hmem => (hchild gaps hmem).2⟩

/-- What the height of a sound shape says about the number of its entries. -/
theorem Sound.length_toList_bounds {s : Shape α} (h : s.Sound f height) :
    2 * ((f.order + 1) / 2) ^ height ≤ s.toList.length + 1 ∧
      s.toList.length + 1 ≤ f.order ^ (height + 1) := by
  obtain ⟨hregular, hleast, hmost⟩ := h
  obtain ⟨hlow, hhigh⟩ := Shape.length_toList_bounds hregular
  have htwo : 2 ≤ s.entries.length + 1 := Nat.succ_le_succ hleast
  have horder : s.entries.length + 1 ≤ f.order := Fanout.succ_le_order hmost
  constructor
  · exact Nat.le_trans (Nat.mul_le_mul_right _ htwo) hlow
  · rw [Nat.pow_succ']
    exact Nat.le_trans hhigh (Nat.mul_le_mul_right _ horder)

end Shape

end Multiway
