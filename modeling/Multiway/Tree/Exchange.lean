import Multiway.Json.Codec
import Multiway.Tree.Shape
import Multiway.Tree.Walk

/-!
Trees as text.

In JSON a tree is an object with its entries in order. Nothing of the layout is written, so a tree
that is read back depends on its own order and on the sequence of the entries only. Reading into a
tree that exists decodes the whole text first, so a text with a fault anywhere changes nothing;
reading a new tree inserts every entry as soon as it is decoded.
-/

namespace Multiway.Tree

variable {K V : Type}

/-- The text of a tree in JSON, unless one of its entries cannot be written there. -/
def written [Json.ObjectWriter K V] (style : Json.Style) (t : Tree K V) :
    Except Fault (Except Error String) := do
  return (Json.writeMembers style (← t.toList)).mapError .undecodable

/-- A tree as JSON without blanks. -/
def toJson [Json.ObjectWriter K V] (t : Tree K V) : Except Fault (Except Error String) :=
  t.written .compact

/-- A tree as JSON over several lines. -/
def toJsonPretty [Json.ObjectWriter K V] (t : Tree K V) : Except Fault (Except Error String) :=
  t.written .pretty

/-- Replaces the contents by the entries of a JSON text. Where a key comes twice, its last value
stays. A text that cannot be decoded leaves the tree as it was. -/
def replaceFromJson [Json.ObjectReader K V] (t : Tree K V) (text : String) :
    Except Fault (Change (Tree K V) (Except Error Unit)) := do
  match Json.readMembers text with
  | .error failure => return { answer := .error (.undecodable failure), state := t }
  | .ok entries =>
    let cleared := t.clear
    let filled ← cleared.state.insertMany entries
    return {
      answer := .ok ()
      state := filled.state
      events := cleared.events ++ filled.events ++ [.loaded filled.state.size] }

/-- A new tree of the standard kind with the entries of a JSON text. -/
def ofJson [Json.ObjectReader K V] (cmp : K → K → Ordering) (text : String) :
    Except Fault (Except Error (Tree K V)) :=
  let step (t : Except Fault (Tree K V)) (entry : K × V) : Except Fault (Tree K V) := do
    return (← (← t).insert entry.1 entry.2).state
  match Json.foldMembers step (.ok (standard cmp)) text with
  | .error failure => return .error (.undecodable failure)
  | .ok t => return .ok (← t)

/-- The literal form of a tree. -/
def literal [Text.Printable K] [Text.Printable V] (t : Tree K V) : Except Fault Text.Literal := do
  return Text.literalEntries (← t.toList)

/-- The plain form of a tree. -/
def plain [Text.Printable K] [Text.Printable V] (t : Tree K V) : Except Fault String := do
  return Text.plainEntries (← t.toList)

end Multiway.Tree
