import Multiway.Proofs.Run.Reference
import Multiway.Proofs.Tree.Audit
import Multiway.Proofs.Tree.Valid

/-!
Laws of runs.

Three things hold of every run, whatever its origin: the tree is valid all the time, the answers are
those of an ascending list of entries, and what the arena went through before does not matter. Each
follows from the description of runs in lists and shapes; nothing here looks into an arena.
-/

namespace Multiway

variable {K V : Type} {cmp : K → K → Ordering}

/-- Every run succeeds and leaves a valid tree, and the audit of the tree agrees. -/
theorem run_valid (hcmp : Consistent cmp) {origin : Origin K V} {stored : List (K × V)}
    (hasked : Fanout.smallest ≤ origin.requested) (hstored : origin.entries = .ok stored)
    (operations : List (Operation K V)) :
    ∃ start final answers events, origin.make cmp = .ok (.ok start) ∧
      start.run operations = .ok ⟨answers, final, events⟩ ∧
      final.cmp = cmp ∧ final.order = max origin.requested 3 ∧ final.Valid ∧
      final.audit = .ok (.ok ()) := by
  have := hcmp.transCmp
  obtain ⟨start, l?, hmake, hstart, rfl, horder, -⟩ := Origin.make_eq cmp hasked hstored
  obtain ⟨final, l?', events, hrun, hfinal, -, -, halike⟩ := hstart.run operations
  have := halike.transCmp
  refine ⟨start, final, _, events, hmake, hrun, halike.cmp, ?_, hfinal.valid, hfinal.audit_eq⟩
  rw [← horder, Tree.order, halike.fanout]
  rfl

/-- A run on keys that are told apart by their last digits, so that key 21 is key 1. The tree grows to
three levels and goes back to two. -/
def digitRun : List (Operation Nat Nat) :=
  [.insert 1 10, .insert 12 20, .insert 3 30, .insert 24 40, .insert 5 50, .insert 36 60,
    .insert 7 70, .insert 21 80, .erase 2, .extractMax, .erase 14]

theorem run_valid_digits :
    Consistent (compareOn fun key : Nat => key % 10) ∧
      Fanout.smallest ≤ (Origin.order 2 : Origin Nat Nat).requested ∧
      ∃ start final answers events,
        (Origin.order 2 : Origin Nat Nat).make (compareOn (· % 10)) = .ok (.ok start) ∧
        start.run digitRun = .ok ⟨answers, final, events⟩ ∧
        events = [.rootSplit 2, .rootSplit 3, .rootCollapsed 2] ∧ final.height = .ok 2 ∧
        final.cmp = compareOn (· % 10) ∧ final.order = 3 ∧ final.Valid ∧
        final.audit = .ok (.ok ()) := by
  have hcmp : Consistent (compareOn fun key : Nat => key % 10) := Consistent.of_transCmp
  have hasked : Fanout.smallest ≤ (Origin.order 2 : Origin Nat Nat).requested := by decide
  obtain ⟨start, final, answers, events, hmake, hrun, hlaws⟩ := run_valid hcmp hasked
    (rfl : (Origin.order 2 : Origin Nat Nat).entries = .ok []) digitRun
  have hseen : ((Origin.order 2).make (compareOn fun key : Nat => key % 10)).toOption.bind
      (fun made => made.toOption.bind fun start => (start.run digitRun).toOption.map
        fun change => (change.events, change.state.height.toOption)) =
      some ([.rootSplit 2, .rootSplit 3, .rootCollapsed 2], some 2) := by decide +kernel
  rw [hmake] at hseen
  change (start.run _).toOption.map _ = _ at hseen
  rw [hrun] at hseen
  obtain ⟨hevents, hheight⟩ := Prod.mk.inj (Option.some.inj hseen)
  exact ⟨hcmp, hasked, start, final, answers, events, hmake, hrun, hevents,
    toOption_eq_some.mp hheight, hlaws⟩

/-- Every run answers what a run on the ascending list of the entries answers, and leaves the nodes
with the entries of that list in this order. -/
theorem run_eq_runList (hcmp : Consistent cmp) {origin : Origin K V} {stored : List (K × V)}
    (hasked : Fanout.smallest ≤ origin.requested) (hstored : origin.entries = .ok stored)
    (operations : List (Operation K V)) :
    ∃ start final events, origin.make cmp = .ok (.ok start) ∧
      start.inOrder = .ok (Entries.storeAll cmp stored []) ∧
      start.run operations = .ok
        ⟨(Operation.runList cmp operations (Entries.storeAll cmp stored [])).1, final, events⟩ ∧
      final.inOrder = .ok (Operation.runList cmp operations (Entries.storeAll cmp stored [])).2 ∧
      Ascending cmp (Operation.runList cmp operations (Entries.storeAll cmp stored [])).2 := by
  have := hcmp.transCmp
  obtain ⟨start, l?, hmake, hstart, rfl, -, -, hlist⟩ := Origin.make_eq cmp hasked hstored
  obtain ⟨final, l?', events, hrun, hfinal, -, hentries, halike⟩ := hstart.run operations
  rw [hlist] at hrun hentries
  have hascending := hfinal.ascending
  rw [hentries, halike.cmp] at hascending
  refine ⟨start, final, events, hmake, ?_, hrun, ?_, hascending⟩
  · rw [hstart.inOrder_eq, hlist]
  · rw [hfinal.inOrder_eq, hentries]

/-- Key 21 takes over the entry of key 1, which keeps the key that it has; keys 12 and 24 are found under
other names and removed from the middle of the tree. -/
theorem run_eq_runList_digits :
    Consistent (compareOn fun key : Nat => key % 10) ∧
      Fanout.smallest ≤ (Origin.order 2 : Origin Nat Nat).requested ∧
      ∃ start final events,
        (Origin.order 2 : Origin Nat Nat).make (compareOn (· % 10)) = .ok (.ok start) ∧
        start.inOrder = .ok [] ∧
        start.run digitRun = .ok
          ⟨List.replicate 7 (.value none) ++ [.value (some 10), .value (some 20),
            .entry (some (7, 70)), .value (some 40)], final, events⟩ ∧
        final.inOrder = .ok [(1, 80), (3, 30), (5, 50), (36, 60)] ∧
        Ascending (compareOn (· % 10)) [(1, 80), (3, 30), (5, 50), (36, 60)] := by
  have hcmp : Consistent (compareOn fun key : Nat => key % 10) := Consistent.of_transCmp
  have hasked : Fanout.smallest ≤ (Origin.order 2 : Origin Nat Nat).requested := by decide
  have hlist : Operation.runList (compareOn fun key : Nat => key % 10) digitRun [] =
      (List.replicate 7 (.value none) ++ [.value (some 10), .value (some 20),
        .entry (some (7, 70)), .value (some 40)], [(1, 80), (3, 30), (5, 50), (36, 60)]) := rfl
  have hlaws := run_eq_runList hcmp hasked
    (rfl : (Origin.order 2 : Origin Nat Nat).entries = .ok []) digitRun
  rw [show Entries.storeAll (compareOn fun key : Nat => key % 10)
    ([] : List (Nat × Nat)) [] = [] from rfl, hlist] at hlaws
  exact ⟨hcmp, hasked, hlaws⟩

/-! ### What the arena went through -/

/-- Two trees answer some operations in the same way and look the same afterwards. -/
def Tree.Matches (t u : Tree K V) (operations : List (Operation K V)) : Prop :=
  ∃ answers t' u' events events' s?, t.run operations = .ok ⟨answers, t', events⟩ ∧
    u.run operations = .ok ⟨answers, u', events'⟩ ∧ t'.shape = .ok s? ∧ u'.shape = .ok s? ∧
    ∀ [Text.Printable K], ∃ text, t'.render = .ok text ∧ u'.render = .ok text

theorem Tree.exists_render [Text.Printable K] {t u : Tree K V} {s? : Option (Shape (K × V))}
    (ht : t.shape = .ok s?) (hu : u.shape = .ok s?) :
    ∃ text, t.render = .ok text ∧ u.render = .ok text := by
  rw [Tree.render, Tree.render, ht, hu]
  cases s? <;> exact ⟨_, rfl, rfl⟩

/-- Sound trees of one shape match in every run. -/
theorem Tree.Sound.matches [Std.TransCmp cmp] {t u : Tree K V} {l? l?' : Option (Layout (K × V))}
    (ht : t.Sound l?) (hu : u.Sound l?') (hcmp : t.cmp = cmp) (hcmp' : u.cmp = cmp)
    (hfanout : u.fanout = t.fanout) (hshape : l?'.map Layout.shape = l?.map Layout.shape)
    (operations : List (Operation K V)) : t.Matches u operations := by
  subst hcmp
  have : Std.TransCmp u.cmp := hcmp' ▸ ‹Std.TransCmp t.cmp›
  obtain ⟨t', m?, events, hrun, ht', hleft, -⟩ := ht.run operations
  obtain ⟨u', m?', events', hrun', hu', hright, -⟩ := hu.run operations
  rw [hcmp', hshape] at hrun'
  rw [hcmp', hfanout, hshape, ← hleft] at hright
  have hlook := ht'.shape_eq
  have hlook' := hu'.shape_eq
  rw [hright] at hlook'
  exact ⟨_, t', u', events, events', _, hrun, hrun', hlook, hlook', Tree.exists_render hlook hlook'⟩

theorem Fanout.eq_of_order {f g : Fanout} (h : f.order = g.order) : f = g := by
  cases f
  cases g
  exact (Fanout.mk.injEq ..).mpr h

/-- A tree is known from its order and its shape. Two trees that share them match in every run,
whatever was done to get there; so the number of nodes that are kept for reuse makes no difference,
and a tree that has been cleared is as good as a new one. -/
theorem matches_of_shape (hcmp : Consistent cmp) :
    (∀ t u : Tree K V, t.Reachable cmp → u.Reachable cmp → t.order = u.order → t.shape = u.shape →
      ∀ operations, t.Matches u operations) ∧
    (∀ order capacity capacity' : Nat, Fanout.smallest ≤ order → ∃ t u : Tree K V,
      Tree.ofOptions ⟨order, capacity⟩ cmp = .ok t ∧
      Tree.ofOptions ⟨order, capacity'⟩ cmp = .ok u ∧ ∀ operations, t.Matches u operations) ∧
    ∀ t : Tree K V, t.Reachable cmp → ∀ capacity : Nat, ∃ u : Tree K V,
      Tree.ofOptions ⟨t.order, capacity⟩ cmp = .ok u ∧
      ∀ operations, t.clear.state.Matches u operations := by
  have := hcmp.transCmp
  refine ⟨?_, ?_, ?_⟩
  · intro t u hreach hreach' horder hshape operations
    obtain ⟨l?, ht, hsame⟩ := hreach.sound
    obtain ⟨l?', hu, hsame'⟩ := hreach'.sound
    obtain ⟨tall, hstands⟩ := ht.stands
    obtain ⟨tall', hstands'⟩ := hu.stands
    rw [ht.holds.shape_eq hstands, hu.holds.shape_eq hstands'] at hshape
    exact ht.matches hu hsame hsame' (Fanout.eq_of_order horder.symm) (Except.ok.inj hshape).symm
      operations
  · intro order capacity capacity' hasked
    exact ⟨_, _, Tree.ofOptions_eq hasked cmp, Tree.ofOptions_eq hasked cmp,
      (Tree.sound_empty ..).matches (Tree.sound_empty ..) (rfl : _ = cmp) rfl rfl rfl⟩
  · intro t hreach capacity
    obtain ⟨l?, ht, hsame⟩ := hreach.sound
    have hthree : 3 ≤ t.order := t.fanout.three_le
    have hasked : Fanout.smallest ≤ (Options.mk t.order capacity).order := Nat.le_of_succ_le hthree
    exact ⟨_, Tree.ofOptions_eq hasked cmp, t.sound_clear.matches (Tree.sound_empty ..) hsame rfl
      (Fanout.eq_of_order (Nat.max_eq_left hthree)) rfl⟩

/-- A leaf that was never anything else matches a leaf that two others were merged into, whose arena
has kept their slots. -/
theorem matches_of_shape_merged :
    Consistent (compare : Nat → Nat → Ordering) ∧
      ∃ t u v w : Tree Nat Nat, t.Reachable compare ∧ u.Reachable compare ∧ t.order = u.order ∧
        t.shape = u.shape ∧ t.arena.slots.size = 1 ∧ u.arena.slots.size = 3 ∧
        (∀ operations, t.Matches u operations) ∧
        Tree.ofOptions ⟨3, 0⟩ compare = .ok v ∧ Tree.ofOptions ⟨3, 64⟩ compare = .ok w ∧
        (∀ operations, v.Matches w operations) ∧
        ∀ operations, u.clear.state.Matches v operations := by
  have hcmp : Consistent (compare : Nat → Nat → Ordering) := Consistent.of_transCmp
  obtain ⟨t, u, ht, hu, horder, hshape, hsmall, hlarge, hthree⟩ : ∃ t u : Tree Nat Nat,
      t.Reachable compare ∧ u.Reachable compare ∧ t.order = u.order ∧ t.shape = u.shape ∧
        t.arena.slots.size = 1 ∧ u.arena.slots.size = 3 ∧ u.order = 3 := by
    refine ⟨_, _, ⟨.options ⟨3, 0⟩, _, [.insert 1 10], _, _, rfl, rfl⟩,
      ⟨.options ⟨3, 2⟩, _, [.insert 1 10, .insert 2 20, .insert 3 30, .erase 3, .erase 2], _, _,
        rfl, rfl⟩, rfl, rfl, rfl, rfl, rfl⟩
  obtain ⟨hsame, hcapacity, hcleared⟩ := matches_of_shape (V := Nat) hcmp
  obtain ⟨v, w, hv, hw, hboth⟩ := hcapacity 3 0 64 (by decide)
  obtain ⟨v', hv', hfresh⟩ := hcleared u hu 0
  rw [hthree] at hv'
  obtain rfl : v = v' := Except.ok.inj (hv.symm.trans hv')
  exact ⟨hcmp, t, u, v, w, ht, hu, horder, hshape, hsmall, hlarge, hsame t u ht hu horder hshape, hv,
    hw, hboth, hfresh⟩

end Multiway
