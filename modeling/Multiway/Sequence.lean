import Multiway.Fault

/-!
Checked access to the positions of a list.

A node keeps its entries and its children in lists and works on them by position. Each function
here either does its work or reports that the position is not there; the lemmas say that a
position in range is always there, and what comes back.
-/

namespace Multiway

variable {α : Type}

/-- The item at a position. -/
def itemAt (items : List α) (position : Nat) : Except Fault α :=
  match items[position]? with
  | some item => .ok item
  | none => .error (.outOfRange position items.length)

/-- Takes out the item at a position and closes the gap. -/
def removeAt (items : List α) (position : Nat) : Except Fault (α × List α) :=
  match items[position]? with
  | some item => .ok (item, items.eraseIdx position)
  | none => .error (.outOfRange position items.length)

/-- Puts `item` at a position and gives back what stood there. -/
def replaceAt (items : List α) (position : Nat) (item : α) : Except Fault (α × List α) :=
  match items[position]? with
  | some old => .ok (old, items.set position item)
  | none => .error (.outOfRange position items.length)

/-- Makes room for `item` in front of a position. The end of the list is a position too. -/
def insertAt (items : List α) (position : Nat) (item : α) : Except Fault (List α) :=
  if position ≤ items.length then .ok (items.insertIdx position item)
  else .error (.outOfRange position items.length)

/-- The part of a list in front of a position and the part from it on. -/
def cutAt (items : List α) (position : Nat) : Except Fault (List α × List α) :=
  if position ≤ items.length then .ok (items.take position, items.drop position)
  else .error (.outOfRange position items.length)

/-- The number one below, where there is one. -/
def oneBelow : Nat → Except Fault Nat
  | 0 => .error .underflow
  | n + 1 => .ok n

/-- A difference that must not drop below zero. -/
def lessBy (total part : Nat) : Except Fault Nat :=
  if part ≤ total then .ok (total - part) else .error .underflow

theorem itemAt_of_lt {items : List α} {position : Nat} (h : position < items.length) :
    itemAt items position = .ok items[position] := by
  simp [itemAt, h]

theorem cutAt_of_le {items : List α} {position : Nat} (h : position ≤ items.length) :
    cutAt items position = .ok (items.take position, items.drop position) := by
  simp [cutAt, h]

theorem replaceAt_eq_ok {items rest : List α} {position : Nat} {item old : α} :
    replaceAt items position item = .ok (old, rest) ↔
      items[position]? = some old ∧ items.set position item = rest := by
  cases h : items[position]? <;> simp [replaceAt, h]

theorem removeAt_eq_ok {items rest : List α} {position : Nat} {item : α} :
    removeAt items position = .ok (item, rest) ↔
      items[position]? = some item ∧ items.eraseIdx position = rest := by
  cases h : items[position]? <;> simp [removeAt, h]

theorem lessBy_of_le {total part : Nat} (h : part ≤ total) :
    lessBy total part = .ok (total - part) := by
  simp [lessBy, h]

/-! ### A list that is known left and right of the position

Proofs know a position by what stands on its two sides rather than by a number. -/

variable (low high : List α) (item new : α)

theorem insertIdx_length_append : (low ++ high).insertIdx low.length item = low ++ item :: high := by
  induction low with
  | nil => rfl
  | cons first low ih => simp [ih]

theorem idxOf?_length_append [BEq α] [LawfulBEq α] {low high : List α} {item : α}
    (h : item ∉ low) : (low ++ item :: high).idxOf? item = some low.length := by
  rw [List.idxOf?_eq_some_iff]
  refine ⟨by simp, by simp, fun j hj heq => h ?_⟩
  rw [List.getElem_append_left hj] at heq
  rw [← heq]
  exact List.getElem_mem hj

@[simp] theorem itemAt_append : itemAt (low ++ item :: high) low.length = .ok item := by
  simp [itemAt]

@[simp] theorem removeAt_append :
    removeAt (low ++ item :: high) low.length = .ok (item, low ++ high) := by
  simp [removeAt, List.eraseIdx_append_of_length_le]

@[simp] theorem replaceAt_append :
    replaceAt (low ++ item :: high) low.length new = .ok (item, low ++ new :: high) := by
  simp [replaceAt]

@[simp] theorem insertAt_append :
    insertAt (low ++ high) low.length item = .ok (low ++ item :: high) := by
  simp [insertAt, insertIdx_length_append]

@[simp] theorem cutAt_append : cutAt (low ++ high) low.length = .ok (low, high) := by
  simp [cutAt]

/-- A list that is not empty has a last item. -/
theorem exists_concat {items : List α} (h : 0 < items.length) :
    ∃ init last, items = init ++ [last] :=
  ⟨_, _, (List.dropLast_concat_getLast (List.ne_nil_of_length_pos h)).symm⟩

end Multiway
