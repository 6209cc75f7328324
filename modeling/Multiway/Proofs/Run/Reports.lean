import Multiway.Json.Decode
import Multiway.Proofs.Run.Reference
import Multiway.Proofs.Tree.Slots

/-!
What the events tell.

An observer sees neither the nodes nor the two lists, only the events. They can be relied on: a root
split is told when and only when the tree has become higher, a collapse when and only when it has
become lower, and both name the height that `height` answers afterwards. Every slot that a removal
gives up is either kept or told, so that what is not told can be counted.

The heights come from the shapes, of which an operation is known to change the number of levels by
one at most. The slots come from the arena: whatever is in use before a removal and not after it has
been given up, and nothing else has.
-/

namespace Multiway

variable {K V α : Type} {cmp : K → K → Ordering}

/-- The events of an insertion, between two heights. -/
structure Grows (tall tall' : Nat) (events : List Event) : Prop where
  once : events = [] ∨ events = [.rootSplit (tall + 1)]
  split : events = [.rootSplit (tall + 1)] ↔ 1 ≤ tall ∧ tall' = tall + 1
  /-- The first level is not told. -/
  silent : events = [] → tall' = tall ∨ tall = 0 ∧ tall' = 1

namespace Tree

/-- The events of a removal, between two trees. The slots in `kept` and then those in `dropped` were
given up, in this order. -/
structure Shrinks (t : Tree K V) (tall : Nat) (change : Change (Tree K V) α)
    (kept dropped : List NodeId) : Prop where
  nodup : (kept ++ dropped).Nodup
  /-- A slot is given up when it is not reached any more. -/
  mem_iff : ∀ id, id ∈ kept ++ dropped ↔ t.Reaches id ∧ ¬ change.state.Reaches id
  live : ∃ nodes, change.state.arena.live = .ok nodes ∧
    t.arena.live = .ok (nodes + (kept ++ dropped).length)
  length_le : (kept ++ dropped).length ≤ tall
  /-- Both lists are stacks, with the slot that was given up last on top. -/
  free : change.state.arena.free = kept.reverse ++ t.arena.free
  vacant : change.state.arena.vacant = dropped.reverse ++ t.arena.vacant
  freeCount : change.state.freeCount = min t.arena.capacity (t.freeCount + (kept ++ dropped).length)
  length_dropped : dropped.length = t.freeCount + (kept ++ dropped).length - t.arena.capacity
  height : ∃ tall', change.state.height = .ok tall' ∧ (tall' = tall ∨ tall = tall' + 1) ∧
    change.events = dropped.map .nodeDropped ++
      if tall' < tall then [.rootCollapsed (tall - 1)] else []

/-- The events of reading a text. -/
structure Reloads (t : Tree K V) (change : Change (Tree K V) (Except Error Unit)) : Prop where
  refused : ∀ error, change.answer = .error error → change.events = []
  accepted : change.answer = .ok () → ∃ levels, change.state.height = .ok levels ∧
    change.events = .cleared t.clear.state.freeCount ::
      ((List.range' 2 (levels - 1)).map .rootSplit ++ [.loaded change.state.size])

variable {t : Tree K V} {l? : Option (Layout (K × V))}

/-! ### Insertions -/

theorem Sound.insert_grows [Std.TransCmp t.cmp] (h : t.Sound l?) {tall : Nat}
    (hstands : Shape.Stands t.fanout tall (l?.map Layout.shape)) (key : K) (value : V) :
    ∃ change tall', t.insert key value = .ok change ∧ change.state.height = .ok tall' ∧
      Grows tall tall' change.events := by
  obtain ⟨u, l, hinsert, hu, hshape, -⟩ := h.insert key value
  obtain ⟨-, tall', hstands', hevents⟩ := Shape.put_spec hstands h.ascending key value
  rw [← hshape] at hstands'
  refine ⟨_, tall', hinsert, hu.holds.height_eq hstands', ?_⟩
  rcases hevents with ⟨htall, hevents⟩ | ⟨hpos, htall, hevents⟩
  · refine ⟨.inl hevents, ?_, fun _ => by omega⟩
    rw [hevents]
    exact iff_of_false nofun (by omega)
  · refine ⟨.inr hevents, iff_of_true hevents ⟨hpos, htall⟩, ?_⟩
    rw [hevents]
    nofun

/-! ### Removals -/

/-- A removal gives up the slots that are not reached afterwards, and tells what it should. -/
theorem Sound.shrinks (h : t.Sound l?) {tall : Nat} {answer : α}
    {pure : Option (Shape (K × V)) × List Event} {run : Except Fault (Change (Tree K V) α)}
    (hstands : Shape.Stands t.fanout tall (l?.map Layout.shape))
    (hshrinks : Shape.Shrinks t.fanout tall pure) (hremoves : t.Removes answer pure run) :
    ∃ change kept dropped, run = .ok change ∧ t.Shrinks tall change kept dropped := by
  obtain ⟨u, l?', ids, rfl, hu, hshape, halike, hstock, levels, hlevels, hfew⟩ := hremoves
  obtain ⟨tall', hstands', hevents⟩ := hshrinks
  have hslots := h.holds.stores.slots_store hu.holds.stores hstock
  have hnodup := h.holds.stores.nodup
  rw [hslots, Multiset.nodup_add] at hnodup
  obtain ⟨-, hids, hdisjoint⟩ := hnodup
  have hreaches := reaches_iff h.holds.stores.reads h.holds.root
  have hreaches' := reaches_iff hu.holds.stores.reads hu.holds.root
  obtain rfl := Except.ok.inj (hlevels.symm.trans (h.holds.height_eq hstands))
  have hsplit := List.take_append_drop (t.arena.capacity - t.arena.free.length) ids
  refine ⟨_, ids.take (t.arena.capacity - t.arena.free.length),
    ids.drop (t.arena.capacity - t.arena.free.length), rfl, ?_⟩
  constructor
  case nodup => rwa [hsplit, ← Multiset.coe_nodup]
  case mem_iff =>
    intro id
    rw [hsplit, hreaches, hreaches', hslots, Multiset.mem_add, Multiset.mem_coe]
    constructor
    · exact fun hmem => ⟨.inr hmem, fun hin => Multiset.disjoint_left.mp hdisjoint hin
        (Multiset.mem_coe.mpr hmem)⟩
    · exact fun ⟨hmem, hout⟩ => hmem.resolve_left hout
  case live =>
    have hcard := congrArg Multiset.card hslots
    rw [Multiset.card_add, Multiset.card_map, Multiset.card_map, Multiset.coe_card] at hcard
    refine ⟨_, hu.holds.stores.live_eq, ?_⟩
    rw [h.holds.stores.live_eq, hcard, hsplit]
  case length_le => rwa [hsplit]
  case free => exact congrArg Arena.Stock.free hstock
  case vacant => exact congrArg Arena.Stock.vacant hstock
  case freeCount =>
    rw [hsplit]
    exact (congrArg (fun stock => stock.free.length) hstock).trans
      (Arena.Stock.length_store h.holds.stores.room ids)
  case length_dropped =>
    have hroom := h.holds.stores.room
    rw [hsplit, List.length_drop, Tree.freeCount]
    omega
  case height =>
    rw [← hshape] at hstands'
    refine ⟨tall', hu.holds.height_eq hstands', ?_⟩
    rcases hevents with ⟨rfl, hevents⟩ | ⟨rfl, hevents⟩
    · refine ⟨.inl rfl, ?_⟩
      rw [hevents, if_neg (Nat.lt_irrefl _)]
      rfl
    · refine ⟨.inr rfl, ?_⟩
      rw [hevents, if_pos (Nat.lt_succ_self _)]
      rfl

/-! ### Texts -/

theorem reloads [Std.TransCmp t.cmp] [Json.ObjectReader K V] (text : String) :
    ∃ change, t.replaceFromJson text = .ok change ∧ t.Reloads change := by
  have hreplace := t.replaceFromJson_eq (K := K) (V := V) text
  cases hread : (Json.readMembers text : Except Json.Failure (List (K × V))) with
  | error failure =>
      rw [hread] at hreplace
      exact ⟨_, hreplace, fun _ _ => rfl, nofun⟩
  | ok entries =>
      rw [hread] at hreplace
      obtain ⟨u, l?', hstep, hu, hshape, hlist, halike⟩ := hreplace
      have hstands : Shape.Stands t.fanout 0 (none : Option (Shape (K × V))) := rfl
      have hascending : Ascending t.cmp (Shape.contents (none : Option (Shape (K × V)))) := .nil
      obtain ⟨levels, hstands, -, hevents⟩ := Shape.putAll_spec hstands hascending entries
      rw [← hshape] at hstands
      refine ⟨_, hstep, nofun, fun _ => ⟨levels, hu.holds.height_eq hstands, ?_⟩⟩
      rw [hevents]
      rfl

end Tree

/-- What a tree that can be reached tells of its height and its slots is true. -/
theorem events_truthful (hcmp : Consistent cmp) {t : Tree K V} (hreach : t.Reachable cmp) :
    ∃ tall, t.height = .ok tall ∧
      (∀ key value, ∃ change tall', t.insert key value = .ok change ∧
        change.state.height = .ok tall' ∧ Grows tall tall' change.events) ∧
      (∀ key, ∃ change kept dropped, t.erase key = .ok change ∧
        t.Shrinks tall change kept dropped) ∧
      (∃ change kept dropped, t.extractMin = .ok change ∧ t.Shrinks tall change kept dropped) ∧
      (∃ change kept dropped, t.extractMax = .ok change ∧ t.Shrinks tall change kept dropped) ∧
      ∀ [Json.ObjectReader K V] (text : String), ∃ change,
        t.replaceFromJson text = .ok change ∧ t.Reloads change := by
  have := hcmp.transCmp
  obtain ⟨l?, hsound, rfl⟩ := hreach.sound
  obtain ⟨tall, hstands⟩ := hsound.stands
  refine ⟨tall, hsound.holds.height_eq hstands, fun key value => ?_, fun key => ?_, ?_, ?_, ?_⟩
  · exact hsound.insert_grows hstands key value
  · have hshrinks := (Shape.erase_spec hstands hsound.ascending key).2
    exact hsound.shrinks hstands hshrinks (hsound.erase key)
  · exact hsound.shrinks hstands (Shape.popFirst_spec hstands).2 hsound.extractMin
  · exact hsound.shrinks hstands (Shape.popLast_spec hstands).2 hsound.extractMax
  · exact fun text => Tree.reloads text

/-- The third entry of `t` needs a second level. The free list of `u` has room for one node, so that
of the two that are given up when the second level is lost the root is told. -/
theorem events_truthful_overflow :
    Consistent (compare : UInt8 → UInt8 → Ordering) ∧
      ∃ t u : Tree UInt8 UInt8, t.Reachable compare ∧ u.Reachable compare ∧ t.height = .ok 1 ∧
        u.height = .ok 2 ∧ u.freeCount = 0 ∧ u.arena.capacity = 1 ∧
        (∃ change, t.insert 3 30 = .ok change ∧ change.state.height = .ok 2 ∧
          change.events = [.rootSplit 2]) ∧
        (∃ change, u.erase 3 = .ok change ∧ u.Shrinks 2 change [1] [2] ∧
          change.events = [.nodeDropped 2, .rootCollapsed 1]) ∧
        ∃ change, u.replaceFromJson "\x7b\"1\":10,\"2\":20,\"3\":30\x7d" = .ok change ∧
          u.Reloads change ∧ change.events = [.cleared 1, .rootSplit 2, .loaded 3] := by
  have hcmp : Consistent (compare : UInt8 → UInt8 → Ordering) := Consistent.of_transCmp
  obtain ⟨t, ht, hheight, hgrown⟩ : ∃ t : Tree UInt8 UInt8, t.Reachable compare ∧
      t.height = .ok 1 ∧ (t.insert 3 30 >>= fun change => change.state.height) = .ok 2 :=
    Tree.exists_reachable (.order 2) [.insert 1 10, .insert 2 20] (by decide +kernel)
  obtain ⟨u, hu, hheight', hfree, hvacant, hcapacity, hlists, htold, hloaded⟩ :
      ∃ u : Tree UInt8 UInt8, u.Reachable compare ∧ u.height = .ok 2 ∧ u.arena.free = [] ∧
        u.arena.vacant = [] ∧ u.arena.capacity = 1 ∧
        (u.erase 3).map (fun change => (change.state.arena.free, change.state.arena.vacant)) =
          .ok ([1], [2]) ∧
        (u.erase 3).map Change.events = .ok [.nodeDropped 2, .rootCollapsed 1] ∧
        (u.replaceFromJson "\x7b\"1\":10,\"2\":20,\"3\":30\x7d").map Change.events =
          .ok [.cleared 1, .rootSplit 2, .loaded 3] :=
    Tree.exists_reachable (.options ⟨2, 1⟩) [.insert 1 10, .insert 2 20, .insert 3 30]
      (by decide +kernel)
  obtain ⟨tall, htall, hinsert, -⟩ := events_truthful hcmp ht
  obtain rfl := Except.ok.inj (htall.symm.trans hheight)
  obtain ⟨levels, hlevels, -, herase, -, -, hload⟩ := events_truthful hcmp hu
  obtain rfl := Except.ok.inj (hlevels.symm.trans hheight')
  refine ⟨hcmp, t, u, ht, hu, hheight, hheight', congrArg List.length hfree, hcapacity, ?_, ?_, ?_⟩
  · obtain ⟨change, tall', hchange, hafter, hgrows⟩ := hinsert 3 30
    rw [hchange, ok_bind, hafter] at hgrown
    obtain rfl := Except.ok.inj hgrown
    exact ⟨change, hchange, hafter, hgrows.split.mpr ⟨Nat.le_refl 1, rfl⟩⟩
  · obtain ⟨change, kept, dropped, hchange, hshrinks⟩ := herase 3
    rw [hchange] at hlists htold
    obtain ⟨hkept, hdropped⟩ := Prod.mk.inj (Except.ok.inj hlists)
    rw [hshrinks.free, hfree, List.append_nil, List.reverse_eq_iff] at hkept
    rw [hshrinks.vacant, hvacant, List.append_nil, List.reverse_eq_iff] at hdropped
    obtain rfl : kept = [1] := hkept
    obtain rfl : dropped = [2] := hdropped
    exact ⟨change, hchange, hshrinks, Except.ok.inj htold⟩
  · obtain ⟨change, hchange, hreloads⟩ := hload "\x7b\"1\":10,\"2\":20,\"3\":30\x7d"
    rw [hchange] at hloaded
    exact ⟨change, hchange, hreloads, Except.ok.inj hloaded⟩

end Multiway
