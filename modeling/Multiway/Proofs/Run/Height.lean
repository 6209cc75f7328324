import Mathlib.Analysis.SpecialFunctions.Log.Base
import Multiway.Proofs.Run.Reference
import Multiway.Proofs.Shape.Extent

/-!
The height.

However a tree came about, its height is a logarithm of the number of its entries. The tree with the
fewest entries of a height has one in its root and half a node everywhere else; the one with the
most has full nodes only. That the height is read off the first children alone does not matter, for
all leaves are equally deep.
-/

namespace Multiway

variable {K V : Type} {cmp : K → K → Ordering}

/-- A lower bound on a number that grows exponentially is a logarithmic bound on the exponent. -/
theorem le_one_add_logb {base levels size : Nat} (hbase : 1 < base)
    (h : 2 * base ^ levels ≤ size + 1) :
    ((levels + 1 : Nat) : ℝ) ≤ 1 + Real.logb base ((size + 1) / 2) := by
  have hreal : (2 : ℝ) * (base : ℝ) ^ levels ≤ size + 1 := by exact_mod_cast h
  have hlog : (levels : ℝ) ≤ Real.logb base ((size + 1) / 2) := by
    rw [Real.le_logb_iff_rpow_le (by exact_mod_cast hbase) (by positivity), Real.rpow_natCast]
    linarith
  push_cast
  linarith

/-- The levels of a tree that can be reached, in terms of its entries. -/
theorem height_bounds (hcmp : Consistent cmp) {t : Tree K V} (hreach : t.Reachable cmp) :
    ∃ levels entries, t.height = .ok levels ∧ t.inOrder = .ok entries ∧
      t.size = entries.length ∧ (levels = 0 ↔ t.size = 0) ∧
      (0 < t.size → 2 * ((t.order + 1) / 2) ^ (levels - 1) ≤ t.size + 1 ∧
        t.size + 1 ≤ t.order ^ levels ∧
        (levels : ℝ) ≤ 1 + Real.logb ((t.order + 1) / 2 : Nat) ((t.size + 1) / 2)) := by
  have := hcmp.transCmp
  obtain ⟨l?, hsound, rfl⟩ := hreach.sound
  obtain ⟨tall, hstands⟩ := hsound.stands
  refine ⟨tall, _, hsound.holds.height_eq hstands, hsound.inOrder_eq, hsound.size_eq, ?_⟩
  rw [hsound.size_eq]
  cases l? with
  | none =>
      obtain rfl : tall = 0 := hstands
      exact ⟨iff_of_true rfl rfl, nofun⟩
  | some l =>
      obtain ⟨height, rfl, hshape⟩ := hstands
      obtain ⟨hlow, hhigh⟩ := hshape.length_toList_bounds
      have hthree := t.fanout.three_le
      have hhalf : 1 < (t.fanout.order + 1) / 2 := by omega
      have hsize : 0 < l.shape.toList.length := by
        have := Nat.pow_pos (n := height) (Nat.zero_lt_of_lt hhalf)
        omega
      exact ⟨iff_of_false (Nat.succ_ne_zero _) (Nat.ne_of_gt hsize), fun _ =>
        ⟨hlow, hhigh, le_one_add_logb hhalf hlow⟩⟩

/-- Nine keys are stored in ascending order and the first two are removed again. Of the order 3,
three levels with fewer entries than the seven that are left do not exist. -/
theorem height_bounds_sparse :
    Consistent (compare : Nat → Nat → Ordering) ∧
      ∃ t : Tree Nat Nat, t.Reachable compare ∧ t.order = 3 ∧ t.size = 7 ∧ t.height = .ok 3 ∧
        0 < t.size ∧ 2 * ((t.order + 1) / 2) ^ (3 - 1) ≤ t.size + 1 ∧ t.size + 1 ≤ t.order ^ 3 ∧
        ((3 : Nat) : ℝ) ≤ 1 + Real.logb ((t.order + 1) / 2 : Nat) ((t.size + 1) / 2) := by
  have hcmp : Consistent (compare : Nat → Nat → Ordering) := Consistent.of_transCmp
  obtain ⟨t, hreach, horder, hsize, hheight⟩ : ∃ t : Tree Nat Nat, t.Reachable compare ∧
      t.order = 3 ∧ t.size = 7 ∧ t.height = .ok 3 :=
    Tree.exists_reachable (.order 2) [.insert 1 0, .insert 2 0, .insert 3 0, .insert 4 0,
      .insert 5 0, .insert 6 0, .insert 7 0, .insert 8 0, .insert 9 0, .erase 1,
      .erase 2] (by decide +kernel)
  obtain ⟨levels, entries, hlevels, -, -, -, hbounds⟩ := height_bounds hcmp hreach
  obtain rfl := Except.ok.inj (hlevels.symm.trans hheight)
  have hpos : 0 < t.size := hsize ▸ Nat.succ_pos 6
  exact ⟨hcmp, t, hreach, horder, hsize, hheight, hpos, hbounds hpos⟩

end Multiway
