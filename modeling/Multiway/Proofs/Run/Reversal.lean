import Multiway.Proofs.Run.Laws

/-!
Reading an order backwards.

A tree whose order is read backwards is not the mirror image of the tree with the order itself: an
overfull node is cut below its middle in both of them, and both borrow from the right first. What they
hold is mirrored all the same. On ascending lists this is plain, since a cut of a list at a key is the
reversed list cut at this key, with the two sides exchanged; and because a run is told by what it does to
the list, nothing about nodes has to be said again.

The key that is stored for several keys that are one key is the same on both sides. It depends on which of
them came first, and not on the side from which the list is read.
-/

namespace Multiway

variable {K V : Type} {cmp : K → K → Ordering}

/-! ### Reversed lists -/

instance [Std.TransCmp cmp] : Std.TransCmp (reversed cmp) :=
  inferInstanceAs (Std.TransCmp fun left right => cmp right left)

theorem Consistent.reversed (h : Consistent cmp) : Consistent (reversed cmp) :=
  have := h.transCmp
  Consistent.of_transCmp

theorem Ascending.reverse {entries : List (K × V)} (h : Ascending cmp entries) :
    Ascending (reversed cmp) entries.reverse := List.pairwise_reverse.mpr h

/-- What is below a key in the one order is above it in the other. -/
theorem Splits.reverse [Std.OrientedCmp cmp] {key : K} {low high : List (K × V)}
    (h : Splits cmp key low high) : Splits (reversed cmp) key high.reverse low.reverse := by
  refine ⟨fun entry hmem => ?_, fun entry hmem => ?_⟩
  · rw [reversed_apply, ← Std.OrientedCmp.gt_iff_lt]
    exact h.above entry (List.mem_reverse.mp hmem)
  · rw [reversed_apply, Std.OrientedCmp.gt_iff_lt]
    exact h.below entry (List.mem_reverse.mp hmem)

namespace Entries

section oriented

variable [Std.OrientedCmp cmp] (key : K) (entries : List (K × V))

/-- Whether two keys are one key does not depend on the direction. -/
theorem reversed_eq_iff (left right : K) :
    reversed cmp left right = .eq ↔ cmp left right = .eq := by
  rw [reversed_apply]
  exact Std.OrientedCmp.eq_comm

/-- The last entry not above a key is the first one not below it, read backwards. -/
theorem findLE?_reverse :
    findLE? (reversed cmp) key entries.reverse = findGE? cmp key entries := by
  rw [findLE?, findGE?, List.reverse_reverse]
  refine congrArg (List.find? · entries) (funext fun entry => decide_eq_decide.mpr ?_)
  rw [reversed_apply]
  exact not_congr Std.OrientedCmp.gt_iff_lt

theorem findGE?_reverse :
    findGE? (reversed cmp) key entries.reverse = findLE? cmp key entries := by
  rw [findLE?, findGE?]
  refine congrArg (List.find? · entries.reverse) (funext fun entry => decide_eq_decide.mpr ?_)
  rw [reversed_apply]
  exact not_congr Std.OrientedCmp.gt_iff_lt.symm

theorem revise_reverse (change : V → V) :
    revise (reversed cmp) key change entries.reverse = (revise cmp key change entries).reverse := by
  rw [revise, revise, List.map_reverse]
  simp only [reversed_eq_iff]

theorem remove_reverse :
    remove (reversed cmp) key entries.reverse = (remove cmp key entries).reverse := by
  rw [remove, remove, List.filter_reverse]
  simp only [ne_eq, reversed_eq_iff]

end oriented

end Entries

namespace Ascending

variable [Std.TransCmp cmp] {entries : List (K × V)}

/-- In an ascending list at most one entry has a key, so it is found from both ends. -/
theorem find?_reverse (h : Ascending cmp entries) (key : K) :
    Entries.find? (reversed cmp) key entries.reverse = Entries.find? cmp key entries := by
  rcases h.split_cases key with ⟨low, entry, high, rfl, hkey, hsplit⟩ | ⟨low, high, rfl, hsplit⟩
  · have hkey' : reversed cmp entry.1 key = .eq := (Entries.reversed_eq_iff _ _).mpr hkey
    rw [hsplit.find?_of_eq hkey, List.reverse_append, List.reverse_cons, List.append_assoc]
    exact hsplit.reverse.find?_of_eq hkey'
  · rw [hsplit.find?_of_absent, List.reverse_append]
    exact hsplit.reverse.find?_of_absent

theorem store_reverse (h : Ascending cmp entries) (key : K) (value : V) :
    Entries.store (reversed cmp) key value entries.reverse =
      (Entries.store cmp key value entries).reverse := by
  rcases h.split_cases key with ⟨low, entry, high, rfl, hkey, hsplit⟩ | ⟨low, high, rfl, hsplit⟩
  · have hkey' : reversed cmp entry.1 key = .eq := (Entries.reversed_eq_iff _ _).mpr hkey
    have hstore := hsplit.reverse.store_of_eq hkey' value
    simpa [hsplit.store_of_eq hkey] using hstore
  · have hstore := hsplit.reverse.store_of_absent value
    simpa [hsplit.store_of_absent] using hstore

theorem storeAll_reverse (h : Ascending cmp entries) (new : List (K × V)) :
    Entries.storeAll (reversed cmp) new entries.reverse =
      (Entries.storeAll cmp new entries).reverse := by
  induction new generalizing entries with
  | nil => rfl
  | cons entry new ih =>
      have hstored := h.store entry.1 entry.2
      show Entries.storeAll (reversed cmp) new
        (Entries.store (reversed cmp) entry.1 entry.2 entries.reverse) = _
      rw [h.store_reverse, ih hstored]
      rfl

end Ascending

/-! ### Reversed operations -/

namespace Operation

/-- What is done at one end in the one order is done at the other end in the other. -/
def mirror : Operation K V → Operation K V
  | .extractMin => .extractMax
  | .extractMax => .extractMin
  | .getEntryLE key => .getEntryGE key
  | .getEntryGE key => .getEntryLE key
  | .minEntry => .maxEntry
  | .maxEntry => .minEntry
  | operation => operation

variable [Std.TransCmp cmp] {entries : List (K × V)}

theorem ascending_onList (h : Ascending cmp entries) (operation : Operation K V) :
    Ascending cmp (operation.onList cmp entries).2 := by
  cases operation with
  | insert key value => exact h.store key value
  | insertMany new => exact h.storeAll new
  | modify key change => exact h.revise key change
  | erase key => exact h.remove key
  | extractMin => exact h.sublist (List.tail_sublist entries)
  | extractMax => exact h.sublist (List.dropLast_sublist entries)
  | clear => exact .nil
  | replaceFromJson text =>
      rw [onList]
      cases (Json.readMembers text : Except Json.Failure (List (K × V))) with
      | error failure => exact h
      | ok new => exact Ascending.storeAll .nil new
  | blank => exact .nil
  | copy | get _ | getEntry _ | contains _ | getEntryLE _ | getEntryGE _ | minEntry | maxEntry | size
  | isEmpty => exact h

/-- The mirrored operation on the reversed list gives the same answer and leaves the reversed list. -/
theorem onList_mirror (h : Ascending cmp entries) (operation : Operation K V) :
    operation.mirror.onList (reversed cmp) entries.reverse =
      ((operation.onList cmp entries).1, (operation.onList cmp entries).2.reverse) := by
  cases operation with
  | insert key value =>
      simp only [mirror, onList, h.find?_reverse, h.store_reverse]
  | insertMany new => simp only [mirror, onList, h.storeAll_reverse]
  | modify key change =>
      simp only [mirror, onList, h.find?_reverse, Entries.revise_reverse]
  | erase key => simp only [mirror, onList, h.find?_reverse, Entries.remove_reverse]
  | extractMin =>
      simp only [mirror, onList, List.getLast?_reverse, List.dropLast_reverse]
  | extractMax => simp only [mirror, onList, List.head?_reverse, List.tail_reverse]
  | clear => rfl
  | replaceFromJson text =>
      simp only [mirror, onList]
      cases (Json.readMembers text : Except Json.Failure (List (K × V))) with
      | error failure => rfl
      | ok new =>
          have hempty : Ascending cmp ([] : List (K × V)) := .nil
          exact congrArg _ (hempty.storeAll_reverse new)
  | copy => rfl
  | blank => rfl
  | get key => simp only [mirror, onList, h.find?_reverse]
  | getEntry key => simp only [mirror, onList, h.find?_reverse]
  | contains key => simp only [mirror, onList, h.find?_reverse]
  | getEntryLE key => simp only [mirror, onList, Entries.findGE?_reverse]
  | getEntryGE key => simp only [mirror, onList, Entries.findLE?_reverse]
  | minEntry => simp only [mirror, onList, List.getLast?_reverse]
  | maxEntry => simp only [mirror, onList, List.head?_reverse]
  | size => simp only [mirror, onList, List.length_reverse]
  | isEmpty => simp only [mirror, onList, List.isEmpty_reverse]

theorem runList_mirror (h : Ascending cmp entries) (operations : List (Operation K V)) :
    runList (reversed cmp) (operations.map mirror) entries.reverse =
      ((runList cmp operations entries).1, (runList cmp operations entries).2.reverse) := by
  induction operations generalizing entries with
  | nil => rfl
  | cons operation operations ih =>
      have hrest := ih (ascending_onList h operation)
      rw [List.map_cons, runList, onList_mirror h operation]
      simp only [hrest]
      rfl

end Operation

/-! ### Reversed trees -/

namespace Tree

/-- Two trees hold the same entries, the second one the other way round. -/
def Mirrors (t u : Tree K V) : Prop :=
  ∃ entries, t.inOrder = .ok entries ∧ u.inOrder = .ok entries.reverse

/-- Mirrored runs on mirrored trees give the same answers and leave mirrored trees. -/
theorem Sound.run_mirror [Std.TransCmp cmp] {t u : Tree K V} {l? l?' : Option (Layout (K × V))}
    (ht : t.Sound l?) (hu : u.Sound l?') (hcmp : t.cmp = cmp) (hcmp' : u.cmp = reversed cmp)
    (h : t.Mirrors u) (operations : List (Operation K V)) :
    ∃ answers t' u' events events', t.run operations = .ok ⟨answers, t', events⟩ ∧
      u.run (operations.map .mirror) = .ok ⟨answers, u', events'⟩ ∧ t'.Mirrors u' := by
  subst hcmp
  have : Std.TransCmp u.cmp := hcmp' ▸ inferInstance
  obtain ⟨entries, hentries, hentries'⟩ := h
  obtain rfl := Except.ok.inj (ht.inOrder_eq.symm.trans hentries)
  obtain ⟨t', m?, events, hrun, ht', -, hleft, -⟩ := ht.run operations
  obtain ⟨u', m?', events', hrun', hu', -, hright, -⟩ := hu.run (operations.map .mirror)
  rw [Except.ok.inj (hu.inOrder_eq.symm.trans hentries'), hcmp',
    Operation.runList_mirror ht.ascending] at hrun' hright
  refine ⟨_, t', u', events, events', hrun, hrun', _, ht'.inOrder_eq, ?_⟩
  rw [hu'.inOrder_eq, hright, hleft]

end Tree

/-- An order that is read backwards is as good as the order itself. Trees of any two widths mirror one
another in every run, and stay mirrored at every step, when what is done to the second one is mirrored as
well. An order that is read backwards twice is the order itself, also in the layout of its trees. -/
theorem run_reversed (hcmp : Consistent cmp) :
    Consistent (reversed cmp) ∧
    (∀ t u : Tree K V, t.Reachable cmp → u.Reachable (reversed cmp) → t.Mirrors u →
      ∀ operations : List (Operation K V), ∃ answers t' u' events events',
        t.run operations = .ok ⟨answers, t', events⟩ ∧
        u.run (operations.map .mirror) = .ok ⟨answers, u', events'⟩ ∧ t'.Mirrors u') ∧
    ∀ (origin origin' : Origin K V) (stored : List (K × V)),
      Fanout.smallest ≤ origin.requested → Fanout.smallest ≤ origin'.requested →
      origin.entries = .ok stored → origin'.entries = .ok stored →
      ∃ start start' again, origin.make cmp = .ok (.ok start) ∧
        origin'.make (reversed cmp) = .ok (.ok start') ∧ start.Mirrors start' ∧
        origin'.make (reversed (reversed cmp)) = .ok (.ok again) ∧
        (origin'.requested = origin.requested →
          ∀ operations, start.Matches again operations) := by
  have := hcmp.transCmp
  refine ⟨hcmp.reversed, fun t u hreach hreach' hmirror operations => ?_, ?_⟩
  · obtain ⟨l?, ht, hsame⟩ := hreach.sound
    obtain ⟨l?', hu, hsame'⟩ := hreach'.sound
    exact ht.run_mirror hu hsame hsame' hmirror operations
  · intro origin origin' stored hasked hasked' hstored hstored'
    obtain ⟨start, l?, hmake, hstart, hsame, horder, hshape, hlist⟩ :=
      Origin.make_eq cmp hasked hstored
    obtain ⟨start', l?', hmake', hstart', -, -, -, hlist'⟩ :=
      Origin.make_eq (reversed cmp) hasked' hstored'
    obtain ⟨again, m?, hmake'', hagain, hsame', horder', hshape', -⟩ :=
      Origin.make_eq cmp hasked' hstored'
    refine ⟨start, start', again, hmake, hmake', ⟨_, hstart.inOrder_eq, ?_⟩, hmake'', fun heq => ?_⟩
    · have hempty : Ascending cmp ([] : List (K × V)) := .nil
      rw [hstart'.inOrder_eq, hlist, hlist']
      exact congrArg Except.ok (hempty.storeAll_reverse stored)
    · have hfanout : again.fanout = start.fanout := by
        refine Fanout.eq_of_order (horder'.trans ?_)
        rw [heq]
        exact horder.symm
      rw [hfanout, ← hshape] at hshape'
      exact hstart.matches hagain hsame hsame' hfanout hshape'

/-- Keys are told apart by their last digits, so key 21 is key 1. The nodes on the one side are of order 3
and those on the other of order 5, of which none is kept for reuse; the floor of key 4 is a ceiling
there. -/
theorem run_reversed_digits :
    Consistent (compareOn fun key : Nat => key % 10) ∧
      Consistent (reversed (compareOn fun key : Nat => key % 10)) ∧
      Fanout.smallest ≤ (Origin.order 3 : Origin Nat Nat).requested ∧
      Fanout.smallest ≤ (Origin.options ⟨5, 0⟩ : Origin Nat Nat).requested ∧
      (∃ t u : Tree Nat Nat, t.Reachable (compareOn (· % 10)) ∧
        u.Reachable (reversed (compareOn (· % 10))) ∧ t.order = 3 ∧ u.order = 5 ∧ t.Mirrors u ∧
        ∃ answers t' u' events events',
          t.run [.insert 12 20, .insert 1 10, .insert 21 30, .insert 5 40, .getEntryLE 4, .extractMin] =
            .ok ⟨answers, t', events⟩ ∧
          u.run [.insert 12 20, .insert 1 10, .insert 21 30, .insert 5 40, .getEntryGE 4, .extractMax] =
            .ok ⟨answers, u', events'⟩ ∧ t'.Mirrors u') ∧
      ∃ start again : Tree Nat Nat, (Origin.order 3).make (compareOn (· % 10)) = .ok (.ok start) ∧
        (Origin.options ⟨3, 0⟩).make (reversed (reversed (compareOn (· % 10)))) =
          .ok (.ok again) ∧
        ∀ operations, start.Matches again operations := by
  have hcmp : Consistent (compareOn fun key : Nat => key % 10) := Consistent.of_transCmp
  have hasked : Fanout.smallest ≤ (Origin.order 3 : Origin Nat Nat).requested := by decide
  have hasked' : Fanout.smallest ≤ (Origin.options ⟨5, 0⟩ : Origin Nat Nat).requested := by decide
  obtain ⟨hreversed, hruns, hmade⟩ := run_reversed (V := Nat) hcmp
  obtain ⟨t, u, -, ht, hu, hmirror, -⟩ :=
    hmade (.order 3) (.options ⟨5, 0⟩) [] hasked hasked' rfl rfl
  obtain ⟨start, -, again, hmake, -, -, hmake', hmatches⟩ :=
    hmade (.order 3) (.options ⟨3, 0⟩) [] hasked (by decide) rfl rfl
  have hreach : t.Reachable (compareOn (· % 10)) := ⟨.order 3, t, [], [], [], ht, rfl⟩
  have hreach' : u.Reachable (reversed (compareOn (· % 10))) :=
    ⟨.options ⟨5, 0⟩, u, [], [], [], hu, rfl⟩
  have hrun := hruns t u hreach hreach' hmirror [.insert 12 20, .insert 1 10, .insert 21 30,
    .insert 5 40, .getEntryLE 4, .extractMin]
  cases ht
  cases hu
  exact ⟨hcmp, hreversed, hasked, hasked', ⟨_, _, hreach, hreach', rfl, rfl, hmirror, hrun⟩, start, again,
    hmake, hmake', hmatches rfl⟩

end Multiway
