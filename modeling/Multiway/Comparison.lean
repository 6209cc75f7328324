/-!
Orders on keys.

A tree never compares keys by itself: it asks a function `K → K → Ordering` and takes `.eq` to
mean "the same key", so keys that differ may still be one key to a tree. The function is expected
to be consistent, which is `Std.TransCmp` of the core library in other words.
-/

namespace Multiway

variable {K : Type}

/-- The order that the key type brings along. -/
abbrev naturalOrder [Ord K] : K → K → Ordering := compare

/-- The same order read backwards. -/
def reversed (cmp : K → K → Ordering) : K → K → Ordering :=
  fun left right => cmp right left

@[simp] theorem reversed_apply (cmp : K → K → Ordering) (left right : K) :
    reversed cmp left right = cmp right left := rfl

@[simp] theorem reversed_reversed (cmp : K → K → Ordering) : reversed (reversed cmp) = cmp := rfl

/-- What is expected of an order: it does not matter which of two keys is named first, and "below"
and "the same key" carry over. -/
structure Consistent (cmp : K → K → Ordering) : Prop where
  swap : ∀ left right, cmp left right = (cmp right left).swap
  lt_trans : ∀ low middle high, cmp low middle = .lt → cmp middle high = .lt → cmp low high = .lt
  eq_trans : ∀ left middle right,
    cmp left middle = .eq → cmp middle right = .eq → cmp left right = .eq

namespace Consistent

variable {cmp : K → K → Ordering} {low middle high : K}

theorem eq_symm (h : Consistent cmp) (heq : cmp low high = .eq) : cmp high low = .eq := by
  rw [h.swap, heq]
  rfl

/-- A key is below whatever is above the same key. -/
theorem lt_of_eq_of_lt (h : Consistent cmp) (heq : cmp low middle = .eq)
    (hlt : cmp middle high = .lt) : cmp low high = .lt := by
  cases hcase : cmp low high with
  | lt => rfl
  | eq =>
      have := h.eq_trans middle low high (h.eq_symm heq) hcase
      rw [hlt] at this
      contradiction
  | gt =>
      have hswap : cmp high low = .lt := by
        rw [h.swap, hcase]
        rfl
      have := h.lt_trans middle high low hlt hswap
      rw [h.eq_symm heq] at this
      contradiction

theorem lt_of_lt_of_eq (h : Consistent cmp) (hlt : cmp low middle = .lt)
    (heq : cmp middle high = .eq) : cmp low high = .lt := by
  cases hcase : cmp low high with
  | lt => rfl
  | eq =>
      have := h.eq_trans low high middle hcase (h.eq_symm heq)
      rw [hlt] at this
      contradiction
  | gt =>
      have hswap : cmp high low = .lt := by
        rw [h.swap, hcase]
        rfl
      have := h.lt_trans high low middle hswap hlt
      rw [h.eq_symm heq] at this
      contradiction

/-- A consistent order is one that the core library knows how to use. -/
theorem transCmp (h : Consistent cmp) : Std.TransCmp cmp where
  eq_swap := h.swap _ _
  isLE_trans := by
    intro low middle high hlow hhigh
    rw [Ordering.isLE_iff_eq_lt_or_eq_eq] at hlow hhigh ⊢
    rcases hlow with hlow | hlow <;> rcases hhigh with hhigh | hhigh
    · exact .inl (h.lt_trans _ _ _ hlow hhigh)
    · exact .inl (h.lt_of_lt_of_eq hlow hhigh)
    · exact .inl (h.lt_of_eq_of_lt hlow hhigh)
    · exact .inr (h.eq_trans _ _ _ hlow hhigh)

theorem of_transCmp [Std.TransCmp cmp] : Consistent cmp where
  swap _ _ := Std.OrientedCmp.eq_swap
  lt_trans _ _ _ := Std.TransCmp.lt_trans
  eq_trans _ _ _ := Std.TransCmp.eq_trans

end Consistent

end Multiway
