import Multiway.Proofs.Run.Reference
import Multiway.Proofs.Tree.Slots

/-!
Slots in runs.

Whatever was done to a tree, its slots are accounted for: the tree that a run leaves behind holds a
layout, and more is not needed. The slot that is handed out next is then one that nothing uses.

Slots are handed out by insertions only. The first one, for a new root, is handed out before anything
has changed; all others are asked for while nodes are cut one after the other on the way up. `Round`
lists the trees that an insertion goes through there. Each of them holds a layout as well, in which
one node may be too full. After the last cut the upper part of the old root is not linked yet, and
the new root must stand apart from it, too.
-/

namespace Multiway

variable {K V : Type} {cmp : K → K → Ordering}

namespace Tree

variable {t u : Tree K V} {key : K} {value : V} {id : NodeId}

/-- The trees that an insertion goes through, each with the node that is looked at there: first the
leaf with the new entry, and after every cut the node above. -/
inductive Round (t : Tree K V) (key : K) (value : V) : Tree K V → NodeId → Prop
  | leaf {root id : NodeId} {position : Nat} {node : Node K V} {entries : List (K × V)}
      {arena : Arena K V} (hroot : t.root = some root)
      (hdescend : t.descend key t.bound root = .ok (id, .absent position))
      (hnode : t.arena.node id = .ok node)
      (hentries : insertAt node.entries position (key, value) = .ok entries)
      (hwrite : t.arena.write id { node with entries } = .ok arena) :
      Round t key value { t with arena, size := t.size + 1 } id
  | above {u v w : Tree K V} {id parent right : NodeId} {node : Node K V} {median : K × V}
      (h : Round t key value u id) (hnode : u.arena.node id = .ok node)
      (hfull : ¬ node.entries.length ≤ u.fanout.mostEntries)
      (hcut : u.cutNode id = .ok (v, median, right)) (hparent : node.parent = some parent)
      (hlink : v.linkRight parent median right = .ok w) : Round t key value w parent

/-- In every round the node that is looked at stands at the end of a path, and the tree is in order
but for the size of this node and as high as before. Slots were added only as far as the nodes need
them. -/
theorem Sound.round_filling [Std.TransCmp t.cmp] {l? : Option (Layout (K × V))} (h : t.Sound l?)
    (hround : t.Round key value u id) :
    ∃ path l height, u.Filling path l height ∧ l.slot = id ∧ Alike t u ∧
      u.arena.slots.size =
        max t.arena.slots.size (cells (some (Layout.plug path l))).card ∧
      t.height = .ok (height + path.length + 1) := by
  induction hround with
  | @leaf root id position node entries arena hroot hdescend hnode hentries hwrite =>
      cases l? with
      | none =>
          rw [h.holds.root] at hroot
          contradiction
      | some l =>
          obtain ⟨tall, height, -, hsound⟩ := h.stands
          obtain rfl := Option.some.inj (hroot.symm.trans h.holds.root)
          rcases h.holds.search_cases hsound h.ascending key with
            ⟨path, focus, rest, low, entry, high, -, rfl, -, -, -, -, -, -, hfound⟩ |
            ⟨path, leaf, low, high, hheight, rfl, hleaf, hlow, hsplit, -, -, habsent⟩
          · rw [hfound] at hdescend
            exact absurd (congrArg Prod.snd (Except.ok.inj hdescend)) nofun
          · obtain ⟨rfl, hposition⟩ := Prod.mk.inj (Except.ok.inj (habsent.symm.trans hdescend))
            obtain rfl := Place.absent.inj hposition
            obtain rfl := Except.ok.inj (h.holds.stores.reads.node_plug.symm.trans hnode)
            rw [hlow, insertAt_append] at hentries
            obtain rfl := Except.ok.inj hentries
            obtain ⟨arena', fuller, hwrite', hslot, -, hfilling, hstock⟩ :=
              h.exists_filling hheight hsound hleaf hlow hsplit value
            obtain rfl := Except.ok.inj (hwrite'.symm.trans hwrite)
            have hsize : arena'.slots.size = t.arena.slots.size :=
              congrArg Arena.Stock.size hstock
            refine ⟨path, fuller, 0, hfilling, hslot,
              ⟨rfl, rfl, congrArg Arena.Stock.capacity hstock⟩,
              hsize ▸ (Nat.max_eq_left hfilling.holds.card_le).symm, ?_⟩
            rw [Nat.zero_add, ← hheight]
            exact h.holds.height_eq ⟨height, rfl, hsound⟩
  | @above u v w id parent right node median hround hnode hfull hcut hparent hlink ih =>
      obtain ⟨path, l, height, hfilling, rfl, halike, hsize, htall⟩ := ih
      have := halike.transCmp
      obtain ⟨path', l', hnext, hslot, halike', hlength, hgrown, hcard⟩ :=
        hfilling.above hnode hfull hcut hparent hlink
      refine ⟨path', l', height + 1, hnext, hslot, halike.trans halike', ?_, ?_⟩
      · rw [hgrown, hsize, cells, cells, hcard]
        omega
      · rw [htall, hlength, Nat.add_right_comm height 1, ← Nat.add_assoc height]

/-- In every round the next slot that is handed out is unused, for the upper part of the node and for
a new root above both parts. -/
theorem Sound.round_handsOut [Std.TransCmp t.cmp] {l? : Option (Layout (K × V))} (h : t.Sound l?)
    (hround : t.Round key value u id) :
    u.Accounted ∧ u.HandsOut [] ∧ ∀ node v median right, u.arena.node id = .ok node →
      ¬ node.entries.length ≤ u.fanout.mostEntries → node.parent = none →
        u.cutNode id = .ok (v, median, right) → v.HandsOut [right] := by
  obtain ⟨path, l, height, hfilling, rfl, -⟩ := h.round_filling hround
  refine ⟨hfilling.holds.accounted, hfilling.holds.handsOut, ?_⟩
  intro node v median right hnode hfull hparent hcut
  obtain rfl := Except.ok.inj (hfilling.holds.stores.reads.node_plug.symm.trans hnode)
  cases path with
  | cons frame path => contradiction
  | nil =>
      have hstores : u.arena.Stores (l.cells none + 0) :=
        hfilling.holds.stores.congr (add_zero _).symm
      obtain ⟨right', a, hcut', hparts, -⟩ :=
        cutNode_eq hstores hfilling.regular (u.fanout.middle_lt hfull)
      obtain ⟨rfl, heq⟩ := Prod.mk.inj (Except.ok.inj (hcut'.symm.trans hcut))
      obtain ⟨rfl, rfl⟩ := Prod.mk.inj heq
      rw [add_zero] at hparts
      have hlow : ({ u with arena := a } : Tree K V).root =
          (some (l.lowPart u.fanout.middle)).map Layout.slot := hfilling.holds.root
      refine handsOut_of_stores (t := { u with arena := a }) hparts hlow ?_
      intro id hid
      obtain rfl := List.mem_singleton.mp hid
      exact Multiset.mem_map_of_mem Prod.fst ((l.highPart u.fanout.middle id).slot_mem_cells none)

end Tree

namespace Origin

/-- How long the free list may grow. -/
def capacity : Origin K V → Nat
  | .options chosen => chosen.freeCapacity
  | .order _ | .standard | .list _ | @Origin.json .. => ({} : Options).freeCapacity

theorem ofList_capacity (cmp : K → K → Ordering) [Std.TransCmp cmp] {stored : List (K × V)}
    {start : Tree K V} (h : Tree.ofList cmp stored = .ok start) :
    start.arena.capacity = ({} : Options).freeCapacity := by
  obtain ⟨start', l?, hmake, -, -, -, halike⟩ := Tree.ofList_eq cmp stored
  obtain rfl := Except.ok.inj (hmake.symm.trans h)
  exact halike.capacity

theorem make_capacity (cmp : K → K → Ordering) [Std.TransCmp cmp] {origin : Origin K V}
    {start : Tree K V} (h : origin.make cmp = .ok (.ok start)) :
    start.arena.capacity = origin.capacity := by
  obtain ⟨hasked, stored, hstored⟩ := accepted_of_make h
  cases origin with
  | options chosen =>
      rw [make, Tree.ofOptions_eq hasked] at h
      cases h
      rfl
  | order asked =>
      have hoptions : Fanout.smallest ≤ ({ order := asked } : Options).order := hasked
      rw [make, Tree.ofOrder, Tree.ofOptions_eq hoptions] at h
      cases h
      rfl
  | standard =>
      cases h
      rfl
  | list given =>
      obtain ⟨start', l?, hmake, -⟩ := ofList_made cmp given
      rw [make, hmake] at h
      cases h
      exact ofList_capacity cmp hmake
  | json text =>
      rw [make, Tree.ofJson_eq] at h
      cases hread : (Json.readMembers text : Except Json.Failure (List (K × V))) with
      | error failure =>
          rw [hread] at h
          cases h
      | ok members =>
          obtain ⟨start', l?, hmake, -⟩ := ofList_made cmp members
          rw [hread] at h
          simp only [hmake] at h
          cases h
          exact ofList_capacity cmp hmake

end Origin

/-- Every run leaves all slots accounted for. What is handed out next is unused, also while an
insertion cuts nodes, and without entries no node is handed out. -/
theorem run_accounted (hcmp : Consistent cmp) {origin : Origin K V} {stored : List (K × V)}
    (hasked : Fanout.smallest ≤ origin.requested) (hstored : origin.entries = .ok stored)
    (operations : List (Operation K V)) :
    ∃ start final answers events, origin.make cmp = .ok (.ok start) ∧
      start.run operations = .ok ⟨answers, final, events⟩ ∧
      final.arena.capacity = origin.capacity ∧ final.Accounted ∧ final.HandsOut [] ∧
      (final.size = 0 → final.arena.live = .ok 0) ∧
      ∀ key value u id, final.Round key value u id → u.Accounted ∧ u.HandsOut [] ∧
        ∀ node v median right, u.arena.node id = .ok node →
          ¬ node.entries.length ≤ u.fanout.mostEntries → node.parent = none →
            u.cutNode id = .ok (v, median, right) → v.HandsOut [right] := by
  have := hcmp.transCmp
  obtain ⟨start, l?, hmake, hstart, rfl, -⟩ := Origin.make_eq cmp hasked hstored
  obtain ⟨final, l?', events, hrun, hfinal, -, -, halike⟩ := hstart.run operations
  have := halike.transCmp
  refine ⟨start, final, _, events, hmake, hrun, ?_, hfinal.holds.accounted, hfinal.holds.handsOut,
    hfinal.live_of_size, fun key value u id => hfinal.round_handsOut⟩
  rw [halike.capacity, Origin.make_capacity start.cmp hmake]

/-- The free list has room for one of two nodes that are given up, and the other one is vacant. The
next insertion cuts the root, for which both are handed out again. -/
theorem run_accounted_overflow :
    Consistent (compare : Nat → Nat → Ordering) ∧
      Fanout.smallest ≤ (Origin.options ⟨2, 1⟩ : Origin Nat Nat).requested ∧
      ∃ start final answers events,
        (Origin.options ⟨2, 1⟩ : Origin Nat Nat).make compare = .ok (.ok start) ∧
        start.run [.insert 1 10, .insert 2 20, .insert 3 30, .erase 3] =
          .ok ⟨answers, final, events⟩ ∧
        final.arena.free = [1] ∧ final.arena.vacant = [2] ∧ final.arena.capacity = 1 ∧
        final.Accounted ∧ final.HandsOut [] ∧ (final.size = 0 → final.arena.live = .ok 0) ∧
        ∃ u v median, final.Round 4 40 u 0 ∧ u.Accounted ∧ u.HandsOut [] ∧
          u.cutNode 0 = .ok (v, median, 1) ∧ v.HandsOut [1] := by
  have hcmp : Consistent (compare : Nat → Nat → Ordering) := Consistent.of_transCmp
  have hasked : Fanout.smallest ≤ (Origin.options ⟨2, 1⟩ : Origin Nat Nat).requested := by decide
  obtain ⟨start, final, answers, events, hmake, hrun, hcapacity, haccounted, hnext, hempty, hround⟩ :=
    run_accounted hcmp hasked rfl [.insert 1 10, .insert 2 20, .insert 3 30, .erase 3]
  have hlists : final.arena.free = [1] ∧ final.arena.vacant = [2] ∧
      ∃ u v median node, final.Round 4 40 u 0 ∧ u.arena.node 0 = .ok node ∧
        ¬ node.entries.length ≤ u.fanout.mostEntries ∧ node.parent = none ∧
        u.cutNode 0 = .ok (v, median, 1) := by
    cases hmake
    cases hrun
    exact ⟨rfl, rfl, _, _, _, _, .leaf rfl rfl rfl rfl rfl, rfl, by decide, rfl, rfl⟩
  obtain ⟨hfree, hvacant, u, v, median, node, hleaf, hnode, hfull, hparent, hcut⟩ := hlists
  obtain ⟨hthere, hright, habove⟩ := hround 4 40 u 0 hleaf
  exact ⟨hcmp, hasked, start, final, answers, events, hmake, hrun, hfree, hvacant, hcapacity,
    haccounted, hnext, hempty, u, v, median, hleaf, hthere, hright, hcut,
    habove node v median 1 hnode hfull hparent hcut⟩

end Multiway
