import Multiway.Fault

/-!
What an operation reports while it works: changes of the height, nodes that were not kept, and
the two operations that replace the whole contents.
-/

namespace Multiway

/-- A change worth telling, with what an observer is told about it. -/
inductive Event where
  /-- The root was cut and a new root put above it; the height is the one after the change. -/
  | rootSplit (height : Nat)
  /-- An empty root was dropped; the height is the one after the change. -/
  | rootCollapsed (height : Nat)
  /-- A released node was not kept for reuse. -/
  | nodeDropped (node : NodeId)
  /-- Every entry was removed, and this many nodes were kept for reuse. -/
  | cleared (pooled : Nat)
  /-- The contents were replaced by those of a JSON text. -/
  | loaded (entries : Nat)
deriving DecidableEq, Repr

namespace Event

/-- How much detail an observer must want in order to be told of an event. -/
inductive Level where
  | debug
  | trace
deriving DecidableEq, Repr

/-- Replacing the contents is told to more observers than work on single nodes. -/
def level : Event → Level
  | .rootSplit _ | .rootCollapsed _ | .nodeDropped _ => .trace
  | .cleared _ | .loaded _ => .debug

/-- The wording of an event. -/
def message : Event → String
  | .rootSplit _ => "root split, tree grew one level"
  | .rootCollapsed _ => "root collapsed, tree shrank one level"
  | .nodeDropped _ => "free list full, node dropped"
  | .cleared _ => "tree cleared"
  | .loaded _ => "tree loaded from json"

end Event

/-- What an operation that changes `σ` gives back. -/
structure Change (σ α : Type) where
  /-- The answer to the caller. -/
  answer : α
  /-- The changed state. -/
  state : σ
  /-- What was reported on the way, in order. -/
  events : List Event := []

/-- The same change of something built around the state. -/
def Change.map {σ τ α : Type} (wrap : σ → τ) (c : Change σ α) : Change τ α :=
  ⟨c.answer, wrap c.state, c.events⟩

end Multiway
