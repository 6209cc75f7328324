import Multiway.Proofs.Run.Reference

/-!
The nearest entries.

Asked for a key that no entry has, a tree can still name the entry next to it on either side. Which
one that is can be said of the ascending list alone: on the lower side it is the last entry that is
not above the key, and all behind it are above. The list may hold an entry that is the same key to
the tree; then this is the answer on both sides, whether or not the keys are equal.
-/

namespace Multiway

variable {K V : Type} {cmp : K → K → Ordering}

/-- What `below` and `above` have to be as the neighbours of a key among entries. -/
structure Nearest (cmp : K → K → Ordering) (key : K) (entries : List (K × V))
    (below above : Option (K × V)) : Prop where
  /-- The last entry that is not above the key. -/
  below_some : ∀ entry, below = some entry ↔ ∃ low high, entries = low ++ entry :: high ∧
    cmp entry.1 key ≠ .gt ∧ ∀ later ∈ high, cmp later.1 key = .gt
  below_none : below = none ↔ ∀ entry ∈ entries, cmp entry.1 key = .gt
  /-- The first entry that is not below the key. -/
  above_some : ∀ entry, above = some entry ↔ ∃ low high, entries = low ++ entry :: high ∧
    cmp entry.1 key ≠ .lt ∧ ∀ earlier ∈ low, cmp earlier.1 key = .lt
  above_none : above = none ↔ ∀ entry ∈ entries, cmp entry.1 key = .lt
  stored : ∀ entry ∈ entries, cmp entry.1 key = .eq → below = some entry ∧ above = some entry

/-- The two searches of an ascending list find the neighbours of a key. -/
theorem Ascending.nearest [Std.TransCmp cmp] {entries : List (K × V)}
    (h : Ascending cmp entries) (key : K) :
    Nearest cmp key entries (Entries.findLE? cmp key entries)
      (Entries.findGE? cmp key entries) where
  below_some _ := Entries.findLE?_eq_some_iff
  below_none := Entries.findLE?_eq_none_iff
  above_some _ := Entries.findGE?_eq_some_iff
  above_none := Entries.findGE?_eq_none_iff
  stored := by
    intro entry hmem hkey
    obtain ⟨low, high, rfl⟩ := List.append_of_mem hmem
    have hsplit := h.splits hkey
    exact ⟨hsplit.findLE?_of_eq hkey, hsplit.findGE?_of_eq hkey⟩

/-- A tree that can be reached answers the neighbours of every key, and never fails to. -/
theorem nearest_of_reachable (hcmp : Consistent cmp) {t : Tree K V} (hreach : t.Reachable cmp)
    (key : K) : ∃ entries below above, t.inOrder = .ok entries ∧ t.getEntryLE? key = .ok below ∧
      t.getEntryGE? key = .ok above ∧ Nearest cmp key entries below above := by
  have := hcmp.transCmp
  obtain ⟨l?, hsound, rfl⟩ := hreach.sound
  obtain ⟨hbelow, habove⟩ := hsound.nearest_eq key
  exact ⟨_, _, _, hsound.inOrder_eq, hbelow, habove, hsound.ascending.nearest key⟩

/-- Keys of one ten are one key. Of the four entries one is in the root and the others are below it.
The keys asked for are one that is stored under another name, one between two levels, one in front
of all and one behind. -/
theorem nearest_of_reachable_tens :
    Consistent (compareOn fun key : Nat => key / 10) ∧
      ∃ t : Tree Nat Nat, t.Reachable (compareOn (· / 10)) ∧ t.height = .ok 2 ∧
        (t.getEntryLE? 69 = .ok (some (63, 3)) ∧ t.getEntryGE? 69 = .ok (some (63, 3))) ∧
        (t.getEntryLE? 55 = .ok (some (47, 2)) ∧ t.getEntryGE? 55 = .ok (some (63, 3))) ∧
        (t.getEntryLE? 10 = .ok none ∧ t.getEntryGE? 10 = .ok (some (25, 1))) ∧
        t.getEntryLE? 99 = .ok (some (81, 4)) ∧ t.getEntryGE? 99 = .ok none := by
  have hcmp : Consistent (compareOn fun key : Nat => key / 10) := Consistent.of_transCmp
  obtain ⟨t, hreach, hheight, hentries⟩ : ∃ t : Tree Nat Nat, t.Reachable (compareOn (· / 10)) ∧
      t.height = .ok 2 ∧ t.inOrder = .ok [(25, 1), (47, 2), (63, 3), (81, 4)] :=
    Tree.exists_reachable (.order 2) [.insert 47 2, .insert 25 1, .insert 63 3, .insert 81 4]
      (by decide +kernel)
  have hnear (key : Nat) : ∃ below above, t.getEntryLE? key = .ok below ∧
      t.getEntryGE? key = .ok above ∧
      Nearest (compareOn (· / 10)) key [(25, 1), (47, 2), (63, 3), (81, 4)] below above := by
    obtain ⟨entries, below, above, hlist, hbelow, habove, hnearest⟩ :=
      nearest_of_reachable hcmp hreach key
    obtain rfl := Except.ok.inj (hlist.symm.trans hentries)
    exact ⟨below, above, hbelow, habove, hnearest⟩
  refine ⟨hcmp, t, hreach, hheight, ?_, ?_, ?_, ?_⟩
  · obtain ⟨below, above, hbelow, habove, hnearest⟩ := hnear 69
    obtain ⟨rfl, rfl⟩ := hnearest.stored (63, 3) (by decide) (by decide)
    exact ⟨hbelow, habove⟩
  · obtain ⟨below, above, hbelow, habove, hnearest⟩ := hnear 55
    obtain rfl := (hnearest.below_some (47, 2)).mpr
      ⟨[(25, 1)], [(63, 3), (81, 4)], rfl, by decide, by decide⟩
    obtain rfl := (hnearest.above_some (63, 3)).mpr
      ⟨[(25, 1), (47, 2)], [(81, 4)], rfl, by decide, by decide⟩
    exact ⟨hbelow, habove⟩
  · obtain ⟨below, above, hbelow, habove, hnearest⟩ := hnear 10
    obtain rfl := hnearest.below_none.mpr (by decide)
    obtain rfl := (hnearest.above_some (25, 1)).mpr
      ⟨[], [(47, 2), (63, 3), (81, 4)], rfl, by decide, by decide⟩
    exact ⟨hbelow, habove⟩
  · obtain ⟨below, above, hbelow, habove, hnearest⟩ := hnear 99
    obtain rfl := (hnearest.below_some (81, 4)).mpr
      ⟨[(25, 1), (47, 2), (63, 3)], [], rfl, by decide, by decide⟩
    obtain rfl := hnearest.above_none.mpr (by decide)
    exact ⟨hbelow, habove⟩

end Multiway
