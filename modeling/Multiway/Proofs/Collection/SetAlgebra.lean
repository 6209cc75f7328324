import Multiway.Proofs.Collection.SortedSet

/-!
Two sets, each with its own comparison.

The second set is asked by its own comparison whether it has an element, and this is all that decides
where an element of the first set goes: to the intersection or to the difference. So the two split the
first set, whatever the two comparisons have to do with each other. Where the elements of the union go,
and which of them are one, is decided by the first comparison alone. An element of the first set is
always kept, and of those that come from the second set the one that comes first there.
-/

namespace Multiway

variable {T : Type} {cmp other : T → T → Ordering}

namespace SortedSet

/-- A set with these elements, made like `s` and with nothing amiss. -/
structure Makes (cmp : T → T → Ordering) (s : SortedSet T) (elements : List T)
    (u : SortedSet T) : Prop where
  toList : u.toList = .ok elements
  size : u.size = elements.length
  ascending : elements.Pairwise fun low high => cmp low high = .lt
  intact : u.tree.Intact cmp
  comparison : u.tree.cmp = s.tree.cmp
  order : u.tree.order = s.tree.order
  capacity : u.tree.arena.capacity = s.tree.arena.capacity

variable {s s' u : SortedSet T}

theorem Reachable.makes [Std.TransCmp s.tree.cmp] (h : u.Reachable s.tree.cmp)
    {entries : List (T × Unit)} (hhas : u.Has s.tree entries) :
    s.Makes s.tree.cmp (entries.map Prod.fst) u where
  toList := hhas.toList_eq
  size := by rw [hhas.size_eq, List.length_map]
  ascending := List.pairwise_map.mpr hhas.ascending
  intact := h.tree.intact
  comparison := hhas.alike.cmp
  order := congrArg Fanout.order hhas.alike.fanout
  capacity := hhas.alike.capacity

end SortedSet

/-- Of two sets that can be had, the second one splits the first by what it contains, and it brings in
its elements in its own order, unless one that is the same to the first set is there. What is made of
the two is made like the first set. -/
theorem algebra_of_reachable (hcmp : Consistent cmp) (hother : Consistent other)
    {s s' : SortedSet T} (h : s.Reachable cmp) (h' : s'.Reachable other) :
    ∃ (elements elements' all : List T) (has : T → Bool) (both only joined : SortedSet T),
      s.toList = .ok elements ∧ s'.toList = .ok elements' ∧
      (∀ element, s'.contains element = .ok (has element)) ∧
      (∀ element, has element = true ↔ ∃ held ∈ elements', other held element = .eq) ∧
      s.intersection s' = .ok both ∧ s.Makes cmp (elements.filter has) both ∧
      s.difference s' = .ok only ∧ s.Makes cmp (elements.filter fun element => !has element) only ∧
      (elements.filter has ++ elements.filter fun element => !has element).Perm elements ∧
      s.union s' = .ok joined ∧ s.Makes cmp all joined ∧
      all.Perm (elements ++ newcomers cmp elements elements') := by
  have := hcmp.transCmp
  have := hother.transCmp
  obtain ⟨rfl, entries, hhas⟩ := h.has
  obtain ⟨rfl, entries', hhas'⟩ := h'.has
  obtain ⟨both, hboth, hhasBoth⟩ := hhas.intersection_eq hhas'
  obtain ⟨only, honly, hhasOnly⟩ := hhas.difference_eq hhas'
  obtain ⟨joined, hjoined, hhasJoined⟩ := hhas.union_eq hhas'
  have hmakesBoth := (SortedSet.Reachable.intersection h h' hboth).makes hhasBoth
  have hmakesOnly := (SortedSet.Reachable.difference h h' honly).makes hhasOnly
  have hmakesJoined := (SortedSet.Reachable.union h h' hjoined).makes hhasJoined
  refine ⟨entries.map Prod.fst, entries'.map Prod.fst, _,
    fun element => (Entries.find? s'.tree.cmp element entries').isSome, both, only, joined,
    hhas.toList_eq, hhas'.toList_eq, hhas'.contains_eq, fun element => ?_, hboth, ?_, honly, ?_,
    List.filter_append_perm _ _, hjoined, hmakesJoined, hhas.ascending.addAll_perm entries'⟩
  · simp [Entries.find?_isSome_iff]
  · rw [List.filter_map]
    exact hmakesBoth
  · rw [List.filter_map]
    exact hmakesOnly

/-- Remainders by ten decide what the first set holds, so it takes 8 but not 18 from the second set, and
keeps 7 and 25. The second set goes by the numbers themselves: 12 is not in it, though 42 is. -/
theorem algebra_of_reachable_remainders :
    Consistent (compareOn fun n : Nat => n % 10) ∧ Consistent (compare : Nat → Nat → Ordering) ∧
      ∃ s s' : SortedSet Nat, s.Reachable (compareOn fun n => n % 10) ∧ s'.Reachable compare ∧
        s.toList = .ok [30, 12, 25, 7] ∧ s'.toList = .ok [5, 7, 8, 18, 25, 42] ∧
        s.tree.order = 3 ∧ s'.tree.order = 7 ∧
        ∃ both only joined : SortedSet Nat,
          s.intersection s' = .ok both ∧ s.Makes (compareOn fun n => n % 10) [25, 7] both ∧
          s.difference s' = .ok only ∧ s.Makes (compareOn fun n => n % 10) [30, 12] only ∧
          s.union s' = .ok joined ∧ s.Makes (compareOn fun n => n % 10) [30, 12, 25, 7, 8] joined := by
  have hcmp : Consistent (compareOn fun n : Nat => n % 10) := Consistent.of_transCmp
  have hother : Consistent (compare : Nat → Nat → Ordering) := Consistent.of_transCmp
  obtain ⟨s, h, hlist, horder⟩ : ∃ s : SortedSet Nat, s.Reachable (compareOn fun n => n % 10) ∧
      s.toList = .ok [30, 12, 25, 7] ∧ s.tree.order = 3 :=
    SortedSet.exists_reachable 3 [12, 25, 7, 42, 30] (by decide +kernel)
  obtain ⟨s', h', hlist', horder'⟩ : ∃ s' : SortedSet Nat, s'.Reachable compare ∧
      s'.toList = .ok [5, 7, 8, 18, 25, 42] ∧ s'.tree.order = 7 :=
    SortedSet.exists_reachable 7 [25, 42, 18, 8, 7, 5] (by decide +kernel)
  obtain ⟨elements, elements', all, has, both, only, joined, hshown, hshown', -, hhas, hboth,
    hmakesBoth, honly, hmakesOnly, -, hjoined, hmakesJoined, hperm⟩ :=
    algebra_of_reachable hcmp hother h h'
  obtain rfl := Except.ok.inj (hshown.symm.trans hlist)
  obtain rfl := Except.ok.inj (hshown'.symm.trans hlist')
  have hdecides : has = fun element =>
      decide (∃ held ∈ [5, 7, 8, 18, 25, 42], compare held element = .eq) :=
    funext fun element => Bool.eq_iff_iff.mpr ((hhas element).trans decide_eq_true_iff.symm)
  rw [hdecides] at hmakesBoth hmakesOnly
  obtain rfl : all = [30, 12, 25, 7, 8] := by
    refine hperm.eq_of_pairwise (fun low high _ _ hlow hhigh => ?_) hmakesJoined.ascending (by decide)
    rw [hcmp.swap, hhigh] at hlow
    contradiction
  exact ⟨hcmp, hother, s, s', h, h', hlist, hlist', horder, horder', both, only, joined, hboth,
    hmakesBoth, honly, hmakesOnly, hjoined, hmakesJoined⟩

end Multiway
