/-!
Faults of a walk over numbered nodes.

Nodes name one another by slot number, so nothing in the types says that a number leads to a
node, that a position lies inside a list, or that a chain of children ends. Every operation
therefore says which step has failed instead of inventing a value. A tree made by the public
operations never meets the first seven faults; the last one belongs to the caller, who asks a
cursor for an entry while it stands beyond one of the two ends.
-/

namespace Multiway

/-- The number of a slot in an arena. Nodes refer to one another by it. -/
abbrev NodeId := Nat

/-- The two places where a cursor stands on no entry. -/
inductive Boundary where
  | beforeFirst
  | afterLast
deriving DecidableEq, Repr

/-- The name of a boundary, as messages write it. -/
def Boundary.name : Boundary → String
  | .beforeFirst => "BeforeFirst"
  | .afterLast => "AfterLast"

/-- A step that has no result. -/
inductive Fault where
  /-- No slot has this number. -/
  | noSuchNode (id : NodeId)
  /-- A list has no such position. -/
  | outOfRange (position length : Nat)
  /-- Two nodes were to be changed together, but both numbers name one slot. -/
  | sameNode (id : NodeId)
  /-- A node names a parent that does not list it among its children. -/
  | unlistedChild (child parent : NodeId)
  /-- A slot that waits for reuse still has entries. -/
  | notBlank (id : NodeId)
  /-- A count would drop below zero. -/
  | underflow
  /-- A chain of node numbers did not end within the number of slots. -/
  | endless
  /-- An entry was asked of a cursor that stands on none. -/
  | offEntry (place : Boundary)
deriving DecidableEq, Repr

/-- The wording of a fault. -/
def Fault.message : Fault → String
  | .noSuchNode id => s!"there is no node {id}"
  | .outOfRange position length => s!"position {position} is outside a list of length {length}"
  | .sameNode id => s!"node {id} is needed twice at once"
  | .unlistedChild child parent => s!"node {child} is missing from the children of node {parent}"
  | .notBlank id => s!"node {id} has entries and waits for reuse"
  | .underflow => "a count would drop below zero"
  | .endless => "a chain of nodes does not end"
  | .offEntry place => s!"invalid iterator state: cursor is {place.name}, not on an entry"

/-! ### Steps that succeed -/

variable {ε δ α β : Type}

@[simp] theorem pure_eq_ok (a : α) : (pure a : Except ε α) = .ok a := rfl

@[simp] theorem ok_bind (a : α) (f : α → Except ε β) : (Except.ok a >>= f) = f a := rfl

/-- Two steps succeed together when the second one succeeds with what the first one has given. -/
theorem bind_eq_ok {first : Except ε α} {second : α → Except ε β} {b : β} :
    (first >>= second) = .ok b ↔ ∃ a, first = .ok a ∧ second a = .ok b := by
  cases first with
  | error fault => exact ⟨nofun, nofun⟩
  | ok a => simp

theorem toOption_eq_some {step : Except ε α} {a : α} :
    step.toOption = some a ↔ step = .ok a := by
  cases step with
  | error fault => exact ⟨nofun, nofun⟩
  | ok b => simp [Except.toOption]

/-- To turn faults into something else makes no step succeed. -/
@[simp] theorem mapError_eq_ok {step : Except ε α} {turn : ε → δ} {a : α} :
    step.mapError turn = .ok a ↔ step = .ok a := by
  cases step with
  | error fault => exact ⟨nofun, nofun⟩
  | ok b =>
      show Except.ok b = .ok a ↔ Except.ok b = .ok a
      rw [Except.ok.injEq, Except.ok.injEq]

end Multiway
