import Multiway.Proofs.Run.Loading

/-!
Storing while reading.

A new tree stores every entry of a text as soon as it is read, and forgets what it has stored when the
text turns out to be wrong. A tree that exists lets the whole text be read first, clears itself and then
stores. Between the two lies a fold over the members of an object: it does not matter whether a step is
taken while they are read or afterwards. And a standard tree is what it is again once it is cleared, since
it has no slots that could be kept. So both ways meet in one equation, in which the trees are the same
down to the numbers of their nodes.
-/

namespace Multiway

variable {K V : Type} {cmp : K → K → Ordering}

namespace Tree

theorem clear_standard (cmp : K → K → Ordering) :
    (standard cmp : Tree K V).clear.state = standard cmp := rfl

/-- To read a new tree is to read into a standard one, whatever the comparison is. -/
theorem ofJson_eq_replaceFromJson [Json.ObjectReader K V] (text : String) :
    (ofJson cmp text : Except Fault (Except Error (Tree K V))) =
      (fun change => change.answer.map fun _ => change.state) <$>
        (standard cmp).replaceFromJson text := by
  rw [ofJson_eq, replaceFromJson]
  cases (Json.readMembers text : Except Json.Failure (List (K × V))) with
  | error failure => rfl
  | ok entries =>
      simp only [ofList, clear_standard]
      cases (standard cmp).insertMany entries <;> rfl

end Tree

/-- Whatever the text is, a new tree that is read from it and a standard tree into which it is read come
out the same: either with the same error, and then the standard tree is as it was, or as one and the
same tree, with its entries, its shape, its order, its two lists and the numbers of its nodes. Of the
values that come with a key the last one stays. -/
theorem ofJson_accords [Json.ObjectReader K V] (hcmp : Consistent cmp)
    (text : String) :
    ∃ change, (Tree.standard cmp : Tree K V).replaceFromJson text = .ok change ∧
      Tree.ofJson cmp text = .ok (change.answer.map fun _ => change.state) ∧
      (∀ failure, (Json.readMembers text : Except Json.Failure (List (K × V))) = .error failure →
        change = ⟨.error (.undecodable failure), Tree.standard cmp, []⟩) ∧
      ∀ entries : List (K × V), Json.readMembers text = .ok entries →
        change.answer = .ok () ∧ change.state.Reachable cmp ∧
        ∀ key, change.state.get? key =
          .ok ((Entries.find? cmp key entries.reverse).map Prod.snd) := by
  have := hcmp.transCmp
  have : Std.TransCmp (Tree.standard cmp : Tree K V).cmp := ‹Std.TransCmp cmp›
  have hsame : Tree.ofJson cmp text = _ := Tree.ofJson_eq_replaceFromJson (K := K) (V := V) text
  have hreplace := (Tree.standard cmp : Tree K V).replaceFromJson_eq text
  cases hread : (Json.readMembers text : Except Json.Failure (List (K × V))) with
  | error failure =>
      rw [hread] at hreplace
      rw [hreplace] at hsame
      exact ⟨_, hreplace, hsame, fun _ hfailure => by rw [Except.error.inj hfailure], nofun⟩
  | ok entries =>
      rw [hread] at hreplace
      obtain ⟨u, l?, hreplace, hu, -, hlist, halike⟩ := hreplace
      rw [hreplace] at hsame
      refine ⟨_, hreplace, hsame, nofun, fun _ hentries => ⟨rfl, ?_, fun key => ?_⟩⟩
      · exact ⟨.json text, u, [], [], [], hsame, rfl⟩
      · obtain rfl := Except.ok.inj hentries
        have := halike.transCmp
        rw [hu.get?_eq, halike.cmp, hlist, Entries.find?_storeAll, Entries.merge?_map_snd]
        rfl

/-- A text that names key 1 twice, and one that ends within an entry after another one was read. -/
theorem ofJson_accords_repeated :
    Consistent (compare : UInt8 → UInt8 → Ordering) ∧
      (∃ (t : Tree UInt8 UInt8) (events : List Event),
        Tree.ofJson compare "\x7b\"1\":10,\"2\":20,\"1\":30\x7d" = .ok (.ok t) ∧
        (Tree.standard compare).replaceFromJson "\x7b\"1\":10,\"2\":20,\"1\":30\x7d" =
          .ok ⟨.ok (), t, events⟩ ∧
        t.Reachable compare ∧ t.get? 1 = .ok (some 30) ∧ t.get? 2 = .ok (some 20)) ∧
      (Tree.ofJson compare "\x7b\"1\":10,\"2\":" :
        Except Fault (Except Error (Tree UInt8 UInt8))) =
          .ok (.error (.undecodable ⟨.endsBeforeValue, some ⟨1, 12⟩⟩)) ∧
      (Tree.standard compare : Tree UInt8 UInt8).replaceFromJson "\x7b\"1\":10,\"2\":" =
        .ok ⟨.error (.undecodable ⟨.endsBeforeValue, some ⟨1, 12⟩⟩), Tree.standard compare, []⟩ := by
  have hcmp : Consistent (compare : UInt8 → UInt8 → Ordering) := Consistent.of_transCmp
  refine ⟨hcmp, ?_, ?_⟩
  · have hwhole : (Json.readMembers "\x7b\"1\":10,\"2\":20,\"1\":30\x7d" :
        Except Json.Failure (List (UInt8 × UInt8))) = .ok [(1, 10), (2, 20), (1, 30)] := by
      decide +kernel
    obtain ⟨⟨answer, t, events⟩, hreplace, hmake, -, hread⟩ :=
      ofJson_accords (K := UInt8) (V := UInt8) hcmp "\x7b\"1\":10,\"2\":20,\"1\":30\x7d"
    obtain ⟨hanswer, hreach, hget⟩ := hread _ hwhole
    obtain rfl : answer = .ok () := hanswer
    exact ⟨t, events, hmake, hreplace, hreach, (hget 1).trans (congrArg Except.ok (by decide)),
      (hget 2).trans (congrArg Except.ok (by decide))⟩
  · have hbroken : (Json.readMembers "\x7b\"1\":10,\"2\":" :
        Except Json.Failure (List (UInt8 × UInt8))) = .error ⟨.endsBeforeValue, some ⟨1, 12⟩⟩ := by
      decide +kernel
    obtain ⟨change, hreplace, hmake, hread, -⟩ :=
      ofJson_accords (K := UInt8) (V := UInt8) hcmp "\x7b\"1\":10,\"2\":"
    obtain rfl := hread _ hbroken
    exact ⟨hmake, hreplace⟩

end Multiway
