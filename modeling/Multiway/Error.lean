import Multiway.Fanout
import Multiway.Json.Failure

/-!
What a caller may do wrong: ask for an order that leaves no room for two children, hand over a
text that is not the JSON form of the contents, or bind a value that belongs to another key. A key
that is not there is no error.
-/

namespace Multiway

/-- A refusal. Whatever refuses leaves everything as it was. -/
inductive Error where
  /-- The order asked for is below the smallest one. -/
  | invalidOrder (order : Nat)
  /-- The contents cannot be read from a JSON text or written to one. -/
  | undecodable (failure : Json.Failure)
  /-- The value is bound to a different key. -/
  | duplicateValue
deriving DecidableEq, Repr

namespace Error

/-- The wording of a refusal. -/
def message : Error → String
  | .invalidOrder order =>
    s!"invalid order {order}: a B-tree node needs room for at least {Fanout.smallest} children"
  | .undecodable failure => s!"failed to decode tree contents: {failure.message}"
  | .duplicateValue => "value is already mapped to a different key"

/-- The place in the text where decoding stopped, with which the wording ends. -/
def place : Error → Option Json.Place
  | .undecodable failure => failure.place
  | .invalidOrder _ | .duplicateValue => none

end Error

/-- The fan-out of a tree with some options. -/
def Options.fanout (options : Options) : Except Error Fanout :=
  match Fanout.ofOrder? options.order with
  | some fanout => .ok fanout
  | none => .error (.invalidOrder options.order)

end Multiway
