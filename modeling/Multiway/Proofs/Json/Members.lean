import Multiway.Json.Codec

/-!
Reading an object member by member.

What a step does with the members has no influence on which members come next, so a fold over the
members is the same as reading all of them first and folding over the list. The induction is on the
members that are still to come; what has been met before them is a list, the last one in front.

What is written and what is read have nothing to do with each other as long as nothing is known of the
codec. That it reads back what it has written is a hypothesis, and it is about the list that was written.
-/

namespace Multiway.Json

variable {α σ K V T : Type}

theorem Members.foldl_eq (step : σ → α → σ) (start : σ) (members : Members α) (before : List α) :
    members.foldl step (before.reverse.foldl step start) =
      (members.foldl (fun list member => member :: list) before).map
        fun list => list.reverse.foldl step start := by
  induction members generalizing before with
  | done => rfl
  | failed failure => rfl
  | next member rest ih =>
      have hstep : (member :: before).reverse.foldl step start =
          step (before.reverse.foldl step start) member := by
        rw [List.reverse_cons, List.foldl_append]
        rfl
      rw [foldl, foldl, ← hstep, ih]

/-- Folding over the members of a text is folding over their list. -/
theorem foldMembers_eq [ObjectReader K V] (step : σ → K × V → σ) (start : σ) (text : String) :
    foldMembers step start text =
      (readMembers text).map fun entries => entries.foldl step start := by
  have hfold := Members.foldl_eq step start (ObjectReader.members text) []
  rw [List.reverse_nil, List.foldl_nil] at hfold
  rw [foldMembers, hfold, readMembers, foldMembers]
  cases (ObjectReader.members text).foldl (fun (list : List (K × V)) member => member :: list) []
    <;> rfl

/-- The text that is written of these entries, if there is one, is read as these entries. -/
def ReadsBack [ObjectWriter K V] [ObjectReader K V] (entries : List (K × V)) : Prop :=
  ∀ text, writeMembers .compact entries = .ok text → readMembers text = .ok entries

/-- The text that is written of these elements, if there is one, is read as these elements. -/
def ElementsReadBack [ArrayWriter T] [ArrayReader T] (elements : List T) : Prop :=
  ∀ text, writeElements .compact elements = .ok text → readElements text = .ok elements

end Multiway.Json
