import Multiway.Json.Failure

/-!
What the containers ask of a codec.

A tree is written as an object and a set as an array, and they are read in the same way. How a text
looks is not their business: they hand over what they hold in order, and take what is read in order.
The four classes below are all that they know of a codec. `Document` and `Decode` have the instances
for the format.

The members of an object are met one at a time, and whoever reads the object decides what to do with
a member before the next one is looked at. Reading them into a list is one way to do so.
-/

namespace Multiway.Json

/-- How a text is laid out: without blanks, or over several lines. -/
inductive Style where
  | compact
  | pretty
deriving DecidableEq, Repr

/-- The members of an object in the order of the text. Where the text is wrong a failure stands in
the place of the next member; it also stands at the end if the text goes on behind the object. -/
inductive Members (α : Type) where
  | done
  | failed (failure : Failure)
  | next (member : α) (rest : Members α)

/-- Takes a step with every member as soon as it is met. A failure is all that remains of a text that
is wrong, whatever steps have been taken before. -/
def Members.foldl {σ α : Type} (step : σ → α → σ) (state : σ) : Members α → Except Failure σ
  | .done => .ok state
  | .failed failure => .error failure
  | .next member rest => rest.foldl step (step state member)

/-- A reader of objects. -/
class ObjectReader (K V : Type) where
  /-- The members of the object that a text is. -/
  members : String → Members (K × V)

/-- A writer of objects. -/
class ObjectWriter (K V : Type) where
  /-- The text of the object with some members, unless it has none. -/
  writeMembers : Style → List (K × V) → Except Failure String

/-- A reader of arrays. -/
class ArrayReader (T : Type) where
  /-- The elements of the array that a text is. -/
  readElements : String → Except Failure (List T)

/-- A writer of arrays. -/
class ArrayWriter (T : Type) where
  /-- The text of the array of some elements, unless it has none. -/
  writeElements : Style → List T → Except Failure String

export ObjectWriter (writeMembers)
export ArrayReader (readElements)
export ArrayWriter (writeElements)

/-- Folds over the members of the object that a text is. -/
def foldMembers {σ K V : Type} [ObjectReader K V] (step : σ → K × V → σ) (start : σ)
    (text : String) : Except Failure σ :=
  (ObjectReader.members text).foldl step start

/-- The members of the object that a text is, in the order of the text. -/
def readMembers {K V : Type} [ObjectReader K V] (text : String) : Except Failure (List (K × V)) :=
  (foldMembers (fun members member => member :: members) [] text).map List.reverse

end Multiway.Json
