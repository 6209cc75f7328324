import Multiway.Tree.Copy
import Multiway.Tree.Exchange
import Multiway.Tree.Removal

/-!
Runs of operations.

A tree begins with an origin and goes on with operations, and every operation takes the tree that the
one before has left. An operation is a value here, so that a run is a list and a property of all runs
is proved by induction on it. Taking a copy or a blank tree is an operation like the others: the run
goes on with the tree that was taken, and a run that would rather go on with the old one leaves the
operation out.

Reading a text needs a codec. The operation brings its reader along, whatever it is, so nothing has to
be readable in a run without texts, and a run may have texts of several kinds.
-/

namespace Multiway

variable {K V : Type}

/-- What can be done with a tree. -/
inductive Operation (K V : Type) where
  | insert (key : K) (value : V)
  | insertMany (entries : List (K × V))
  | modify (key : K) (change : V → V)
  | erase (key : K)
  | extractMin
  | extractMax
  | clear
  | replaceFromJson [Json.ObjectReader K V] (text : String)
  | copy
  | blank
  | get (key : K)
  | getEntry (key : K)
  | contains (key : K)
  | getEntryLE (key : K)
  | getEntryGE (key : K)
  | minEntry
  | maxEntry
  | size
  | isEmpty

/-- What an operation answers. -/
inductive Answer (K V : Type) where
  | done
  | value (found : Option V)
  | entry (found : Option (K × V))
  | flag (holds : Bool)
  | count (number : Nat)
  | outcome (result : Except Error Unit)

/-- The same change with its answer put among the others. -/
def Change.answerAs {σ α β : Type} (wrap : α → β) (c : Change σ α) : Change σ β :=
  { c with answer := wrap c.answer }

namespace Tree

/-- Does one thing to a tree. -/
def perform (t : Tree K V) : Operation K V → Except Fault (Change (Tree K V) (Answer K V))
  | .insert key value => do return (← t.insert key value).answerAs .value
  | .insertMany entries => do return (← t.insertMany entries).answerAs fun _ => .done
  | .modify key change => do return (← t.modify key change).answerAs .value
  | .erase key => do return (← t.erase key).answerAs .value
  | .extractMin => do return (← t.extractMin).answerAs .entry
  | .extractMax => do return (← t.extractMax).answerAs .entry
  | .clear => return t.clear.answerAs fun _ => .done
  | @Operation.replaceFromJson _ _ _ text => do
    return (← t.replaceFromJson text).answerAs .outcome
  | .copy => do return { answer := .done, state := ← t.copy }
  | .blank => return { answer := .done, state := t.blank }
  | .get key => do return { answer := .value (← t.get? key), state := t }
  | .getEntry key => do return { answer := .entry (← t.getEntry? key), state := t }
  | .contains key => do return { answer := .flag (← t.contains key), state := t }
  | .getEntryLE key => do return { answer := .entry (← t.getEntryLE? key), state := t }
  | .getEntryGE key => do return { answer := .entry (← t.getEntryGE? key), state := t }
  | .minEntry => do return { answer := .entry (← minEntry? t), state := t }
  | .maxEntry => do return { answer := .entry (← maxEntry? t), state := t }
  | .size => return { answer := .count t.size, state := t }
  | .isEmpty => return { answer := .flag t.isEmpty, state := t }

/-- Does one thing after the other, and collects the answers. -/
def run (t : Tree K V) :
    List (Operation K V) → Except Fault (Change (Tree K V) (List (Answer K V)))
  | [] => return { answer := [], state := t }
  | operation :: operations => do
    let step ← t.perform operation
    let rest ← step.state.run operations
    return {
      answer := step.answer :: rest.answer
      state := rest.state
      events := step.events ++ rest.events }

end Tree

/-- How a tree may begin. -/
inductive Origin (K V : Type) where
  | options (chosen : Options)
  | order (asked : Nat)
  | standard
  | list (entries : List (K × V))
  | json [Json.ObjectReader K V] (text : String)

namespace Origin

/-- Makes the tree, unless the order or the text is refused. -/
def make (cmp : K → K → Ordering) : Origin K V → Except Fault (Except Error (Tree K V))
  | .options chosen => return Tree.ofOptions chosen cmp
  | .order asked => return Tree.ofOrder asked cmp
  | .standard => return .ok (Tree.standard cmp)
  | .list stored => do return .ok (← Tree.ofList cmp stored)
  | @Origin.json _ _ _ text => Tree.ofJson cmp text

/-- The order that is asked for. -/
def requested : Origin K V → Nat
  | .options chosen => chosen.order
  | .order asked => asked
  | .standard | .list _ | @Origin.json .. => Fanout.usual

/-- What is stored at the beginning, unless it cannot be read. -/
def entries : Origin K V → Except Error (List (K × V))
  | .list stored => .ok stored
  | @Origin.json _ _ _ text => (Json.readMembers text).mapError .undecodable
  | .options _ | .order _ | .standard => .ok []

end Origin

/-- The entries in the order in which the nodes have them. -/
def Tree.inOrder (t : Tree K V) : Except Fault (List (K × V)) := do
  return ((← t.shape).map Shape.toList).getD []

/-- A tree that some run can leave behind. -/
def Tree.Reachable (cmp : K → K → Ordering) (t : Tree K V) : Prop :=
  ∃ (origin : Origin K V) (start : Tree K V) (operations : List (Operation K V))
    (answers : List (Answer K V)) (events : List Event),
    origin.make cmp = .ok (.ok start) ∧ start.run operations = .ok ⟨answers, t, events⟩

/-! ### Trees that can be computed -/

/-- The tree that a run leaves behind, if nothing is refused on the way. -/
def Origin.leaves? (cmp : K → K → Ordering) (origin : Origin K V)
    (operations : List (Operation K V)) : Option (Tree K V) := do
  let start ← (← (origin.make cmp).toOption).toOption
  return (← (start.run operations).toOption).state

/-- A tree with some property is found by running. -/
theorem Tree.exists_reachable {cmp : K → K → Ordering} (origin : Origin K V)
    (operations : List (Operation K V)) {holds : Tree K V → Prop}
    (h : ∃ t ∈ origin.leaves? cmp operations, holds t) : ∃ t, t.Reachable cmp ∧ holds t := by
  obtain ⟨t, hleaves, hholds⟩ := h
  obtain ⟨made, hmade, hleaves⟩ := Option.bind_eq_some_iff.mp hleaves
  obtain ⟨start, hstart, hleaves⟩ := Option.bind_eq_some_iff.mp hleaves
  obtain ⟨change, hrun, hstate⟩ := Option.bind_eq_some_iff.mp hleaves
  obtain rfl := toOption_eq_some.mp hstart
  obtain rfl := Option.some.inj hstate
  exact ⟨change.state, ⟨origin, start, operations, change.answer, change.events,
    toOption_eq_some.mp hmade, toOption_eq_some.mp hrun⟩, hholds⟩

end Multiway
