/-!
Sets of numbers as lists of ranges.

A range is given by its first and its last number, and a list of them is kept in ascending order
with a gap before each. So a set has one list, and the first range that does not end below a
number decides whether the number belongs to the set (`covers_iff`).
-/

namespace Multiway.Text

/-- Whether a number lies in one of the ranges, which ascend. -/
def covers : List (Nat × Nat) → Nat → Bool
  | [], _ => false
  | (first, last) :: rest, n => if n ≤ last then first ≤ n else covers rest n

/-- Every range holds a number, and a gap separates it from the next one. -/
def ascends : List (Nat × Nat) → Bool
  | [] => true
  | [range] => range.1 ≤ range.2
  | range :: next :: rest =>
    decide (range.1 ≤ range.2) && decide (range.2 + 1 < next.1) && ascends (next :: rest)

/-- How many numbers the ranges hold. -/
def extent : List (Nat × Nat) → Nat
  | [] => 0
  | range :: rest => range.2 + 1 - range.1 + extent rest

/-- Ranges that follow another one in ascending order begin after its end. -/
theorem lt_of_ascends {range other : Nat × Nat} {rest : List (Nat × Nat)}
    (h : ascends (range :: rest) = true) (hmem : other ∈ rest) : range.2 < other.1 := by
  induction rest generalizing range with
  | nil => cases hmem
  | cons next rest ih =>
    simp only [ascends, Bool.and_eq_true, decide_eq_true_eq] at h
    obtain ⟨⟨_, hgap⟩, hrest⟩ := h
    rcases List.mem_cons.mp hmem with rfl | hmem
    · omega
    · have hnext : next.1 ≤ next.2 := by
        cases rest with
        | nil => cases hmem
        | cons _ _ =>
          simp only [ascends, Bool.and_eq_true, decide_eq_true_eq] at hrest
          exact hrest.1.1
      have := ih hrest hmem
      omega

/-- What is left of ascending ranges without the first one still ascends. -/
theorem ascends_tail {range : Nat × Nat} {rest : List (Nat × Nat)}
    (h : ascends (range :: rest) = true) : ascends rest = true := by
  cases rest with
  | nil => rfl
  | cons next rest =>
    simp only [ascends, Bool.and_eq_true] at h
    exact h.2

/-- Ascending ranges cover exactly the numbers that lie in one of them. -/
theorem covers_iff {ranges : List (Nat × Nat)} (h : ascends ranges = true) (n : Nat) :
    covers ranges n = true ↔ ∃ range ∈ ranges, range.1 ≤ n ∧ n ≤ range.2 := by
  induction ranges with
  | nil => simp [covers]
  | cons range rest ih =>
    obtain ⟨first, last⟩ := range
    simp only [covers]
    split
    · rename_i hlast
      simp only [decide_eq_true_eq]
      constructor
      · exact fun hfirst => ⟨(first, last), List.mem_cons_self, hfirst, hlast⟩
      · rintro ⟨other, hmem, hlow, _⟩
        rcases List.mem_cons.mp hmem with rfl | hmem
        · exact hlow
        · have := lt_of_ascends h hmem
          simp only at this
          omega
    · rename_i hlast
      rw [ih (ascends_tail h)]
      constructor
      · exact fun ⟨other, hmem, hother⟩ => ⟨other, List.mem_cons_of_mem _ hmem, hother⟩
      · rintro ⟨other, hmem, hlow, hhigh⟩
        rcases List.mem_cons.mp hmem with rfl | hmem
        · exact absurd hhigh hlast
        · exact ⟨other, hmem, hlow, hhigh⟩

end Multiway.Text
