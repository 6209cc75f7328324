import Multiway.Proofs.Run.Faultless
import Multiway.Proofs.Tree.Slots

/-!
Copies.

A copy looks like its original from outside, and inside it is as if it had just been made. Its nodes
are numbered from zero on, each in front of those below it, and no slot is left over. Which number a
node has got is read off the list of the nodes of the original: a node is found there in the place
that its copy has for a number, and every link is changed accordingly.

That the two lists of spare slots differ cannot be noticed later. A run is described by orders and
shapes, and the copy has those of the original.
-/

namespace Multiway

variable {K V : Type} {cmp : K → K → Ordering}

namespace Tree

/-- Where the nodes of `t`, which are listed in `ids`, are in `u`. -/
structure Renumbered (t u : Tree K V) (ids : List NodeId) : Prop where
  listed : t.preorder = .ok ids
  nodup : ids.Nodup
  mem_iff : ∀ id, id ∈ ids ↔ t.Reaches id
  renumbered : u.preorder = .ok (List.range ids.length)
  root : u.root = t.root.map fun _ => 0
  node : ∀ (i : Nat) (id : NodeId), ids[i]? = some id → ∃ node, t.arena.node id = .ok node ∧
    u.arena.node i = .ok (node.rename ids.idxOf)
  /-- There are no slots but those of the nodes. -/
  size : u.arena.slots.size = ids.length
  free : u.arena.free = []
  vacant : u.arena.vacant = []
  live : t.arena.live = .ok ids.length ∧ u.arena.live = .ok ids.length

/-- What shows that `u` is as good as `t`. -/
structure Resembles (cmp : K → K → Ordering) (t u : Tree K V) : Prop where
  shape : ∃ s?, t.shape = .ok s? ∧ u.shape = .ok s?
  height : ∃ levels, t.height = .ok levels ∧ u.height = .ok levels
  render : ∀ [Text.Printable K], ∃ text, t.render = .ok text ∧ u.render = .ok text
  equal : ∀ [BEq K] [ReflBEq K] [BEq V] [ReflBEq V], t.equal u = .ok true
  /-- No comparison with a third tree tells them apart, even if keys or values may differ from
  themselves. -/
  equal_left : ∀ [BEq K] [BEq V] (v : Tree K V), v.Reachable cmp →
    ∃ same, t.equal v = .ok same ∧ u.equal v = .ok same
  equal_right : ∀ [BEq K] [BEq V] (v : Tree K V), v.Reachable cmp →
    ∃ same, v.equal t = .ok same ∧ v.equal u = .ok same
  size : u.size = t.size
  order : u.order = t.order
  comparison : u.cmp = t.cmp
  capacity : u.arena.capacity = t.arena.capacity
  /-- Whatever is done to both afterwards has the same answers and leaves the same shapes. -/
  matches_run : ∀ operations, t.Matches u operations

/-- Between two operations a tree is valid, and all its slots are accounted for. -/
structure Intact (cmp : K → K → Ordering) (t : Tree K V) : Prop where
  valid : t.Valid
  audit : t.audit = .ok (.ok ())
  accounted : t.Accounted
  reachable : t.Reachable cmp

variable {t u : Tree K V} {l? l?' : Option (Layout (K × V))}

/-- Every tree that can be reached is intact. -/
theorem Reachable.intact [Std.TransCmp cmp] (h : t.Reachable cmp) : t.Intact cmp := by
  obtain ⟨l?, hsound, rfl⟩ := h.sound
  exact ⟨hsound.valid, hsound.audit_eq, hsound.holds.accounted, h⟩

/-- Two trees of one shape, of which the second is numbered from zero on. -/
theorem Sound.renumbered (ht : t.Sound l?) (hu : u.Sound l?')
    (hshape : l?'.map Layout.shape = l?.map Layout.shape)
    (hnumbers : numbers l?' = List.range (numbers l?).length)
    (hstock : u.arena.stock = ⟨[], [], t.arena.capacity, (numbers l?).length⟩) :
    t.Renumbered u (numbers l?) := by
  obtain ⟨tall, hstands⟩ := ht.stands
  obtain ⟨tall', hstands'⟩ := hu.stands
  have hreads := ht.holds.stores.reads
  have hnodup : (numbers l?).Nodup := by
    have hcells := ht.holds.stores.nodup
    rwa [map_fst_cells, Multiset.coe_nodup] at hcells
  -- The second layout is the first one with every slot called by its place in the list.
  have hrename : l?' = l?.map (Layout.rename (numbers l?).idxOf) := by
    cases l? with
    | none => exact Option.map_eq_none_iff.mp hshape
    | some l =>
        obtain ⟨l', rfl, hshape'⟩ := Option.map_eq_some_iff.mp hshape
        have hplaces := hnumbers.trans (Layout.map_idxOf hnodup).symm
        exact congrArg some (Layout.eq_rename hshape' hplaces)
  constructor
  case listed => exact ht.holds.preorder_eq hstands
  case nodup => exact hnodup
  case mem_iff =>
    intro id
    rw [reaches_iff hreads ht.holds.root, map_fst_cells, Multiset.mem_coe]
  case renumbered => rw [hu.holds.preorder_eq hstands', hnumbers]
  case root =>
    rw [hu.holds.root, ht.holds.root, hrename]
    cases l? with
    | none => rfl
    | some l =>
        obtain ⟨slot, entries, children⟩ := l
        rw [Option.map_some, Option.map_some, Layout.slot_rename, numbers, Layout.numbers_node]
        exact congrArg some List.idxOf_cons_self
  case node =>
    intro i id hid
    obtain ⟨hlt, rfl⟩ := List.getElem?_eq_some_iff.mp hid
    have hmem : (numbers l?)[i] ∈ (cells l?).map Prod.fst := by
      rw [map_fst_cells]
      exact List.getElem_mem hlt
    obtain ⟨⟨id, node⟩, hcell, hslot⟩ := Multiset.mem_map.mp hmem
    obtain rfl : id = (numbers l?)[i] := hslot
    refine ⟨node, hreads _ hcell, ?_⟩
    have hrenamed : (i, node.rename (numbers l?).idxOf) ∈ cells l?' := by
      cases l? with
      | none => exact absurd hcell (Multiset.notMem_zero _)
      | some l =>
          rw [hrename, Option.map_some, cells, ← Option.map_none, Layout.cells_rename]
          refine Multiset.mem_map.mpr ⟨_, hcell, ?_⟩
          rw [hnodup.idxOf_getElem i hlt]
    exact hu.holds.stores.reads _ hrenamed
  case size => exact congrArg Arena.Stock.size hstock
  case free => exact congrArg Arena.Stock.free hstock
  case vacant => exact congrArg Arena.Stock.vacant hstock
  case live =>
    refine ⟨ht.holds.live_eq, ?_⟩
    rw [hu.holds.live_eq, hnumbers, List.length_range]

/-- Trees of one shape that are made alike cannot be told apart. -/
theorem Sound.resembles [Std.TransCmp t.cmp] (ht : t.Sound l?) (hu : u.Sound l?')
    (hshape : l?'.map Layout.shape = l?.map Layout.shape) (halike : Alike t u)
    (hsize : u.size = t.size) : Resembles t.cmp t u := by
  have := halike.transCmp
  obtain ⟨tall, hstands⟩ := ht.stands
  have hlook := ht.shape_eq
  have hlook' := hu.shape_eq
  rw [hshape] at hlook'
  constructor
  case shape => exact ⟨_, hlook, hlook'⟩
  case height =>
    exact ⟨tall, ht.holds.height_eq hstands, hu.holds.height_eq (f := t.fanout) (hshape ▸ hstands)⟩
  case render => exact exists_render hlook hlook'
  case equal =>
    intros
    rw [ht.equal_eq hu, hshape, BEq.rfl]
  case equal_left =>
    intro _ _ v hv
    obtain ⟨m?, hv, hcmp⟩ := hv.sound
    have : Std.TransCmp v.cmp := hcmp ▸ ‹Std.TransCmp t.cmp›
    refine ⟨_, ht.equal_eq hv, ?_⟩
    rw [hu.equal_eq hv, hshape]
  case equal_right =>
    intro _ _ v hv
    obtain ⟨m?, hv, hcmp⟩ := hv.sound
    have : Std.TransCmp v.cmp := hcmp ▸ ‹Std.TransCmp t.cmp›
    refine ⟨_, hv.equal_eq ht, ?_⟩
    rw [hv.equal_eq hu, hshape]
  case size => exact hsize
  case order => exact congrArg Fanout.order halike.fanout
  case comparison => exact halike.cmp
  case capacity => exact halike.capacity
  case matches_run => exact ht.matches hu rfl halike.cmp halike.fanout hshape

end Tree

/-- A tree that can be reached can be copied. The copy has the nodes of the tree and no other slots,
numbered from zero on, each in front of those below it, and cannot be told from the tree. -/
theorem copy_faithful (hcmp : Consistent cmp) {t : Tree K V} (hreach : t.Reachable cmp) :
    ∃ u ids, t.copy = .ok u ∧ t.Renumbered u ids ∧ t.Resembles cmp u ∧ u.Intact cmp := by
  have := hcmp.transCmp
  obtain ⟨l?, hsound, rfl⟩ := hreach.sound
  obtain ⟨u, l?', hcopy, hu, hshape, halike, hnumbers, hstock⟩ := hsound.copy
  have := halike.transCmp
  have hperform : t.perform .copy = .ok ⟨.done, u, []⟩ := by
    rw [Tree.perform, hcopy]
    rfl
  have hsize : u.size = t.size := by
    rw [hu.size_eq, hsound.size_eq, hshape]
  exact ⟨u, _, hcopy, hsound.renumbered hu hshape hnumbers hstock,
    hsound.resembles hu hshape halike hsize, (hreach.perform hperform).intact⟩

/-- Of seven slots three were given up, one of which the free list has kept. The root is in slot 2
and its second child in slot 3; their copies are in the slots 0 and 2. -/
theorem copy_faithful_scattered :
    Consistent (compare : Nat → Nat → Ordering) ∧
      ∃ t u : Tree Nat Nat, t.Reachable compare ∧ t.arena.slots.size = 7 ∧ t.arena.free = [1] ∧
        t.arena.vacant = [6, 5] ∧ t.copy = .ok u ∧ t.Renumbered u [2, 0, 3, 4] ∧
        u.preorder = .ok [0, 1, 2, 3] ∧ u.arena.slots.size = 4 ∧
        u.arena.node 0 = .ok ⟨[(4, 40), (6, 60)], [1, 2, 3], none⟩ ∧
        u.arena.node 2 = .ok ⟨[(5, 50)], [], some 0⟩ ∧ t.Resembles compare u ∧
        u.Intact compare := by
  have hcmp : Consistent (compare : Nat → Nat → Ordering) := Consistent.of_transCmp
  obtain ⟨t, hreach, hslots, hfree, hvacant, hlisted, hroot, hchild⟩ : ∃ t : Tree Nat Nat,
      t.Reachable compare ∧ t.arena.slots.size = 7 ∧ t.arena.free = [1] ∧ t.arena.vacant = [6, 5] ∧
        t.preorder = .ok [2, 0, 3, 4] ∧
        t.arena.node 2 = .ok ⟨[(4, 40), (6, 60)], [0, 3, 4], none⟩ ∧
        t.arena.node 3 = .ok ⟨[(5, 50)], [], some 2⟩ :=
    Tree.exists_reachable (.options ⟨2, 1⟩) [.insert 1 10, .insert 2 20, .insert 3 30, .insert 4 40,
      .insert 5 50, .insert 6 60, .insert 7 70, .erase 1] (by decide +kernel)
  obtain ⟨u, ids, hcopy, hrenumbered, hresembles, hintact⟩ := copy_faithful hcmp hreach
  obtain rfl := Except.ok.inj (hrenumbered.listed.symm.trans hlisted)
  refine ⟨hcmp, t, u, hreach, hslots, hfree, hvacant, hcopy, hrenumbered, hrenumbered.renumbered,
    hrenumbered.size, ?_, ?_, hresembles, hintact⟩
  · obtain ⟨node, hnode, hcopied⟩ := hrenumbered.node 0 2 rfl
    obtain rfl := Except.ok.inj (hnode.symm.trans hroot)
    exact hcopied
  · obtain ⟨node, hnode, hcopied⟩ := hrenumbered.node 2 3 rfl
    obtain rfl := Except.ok.inj (hnode.symm.trans hchild)
    exact hcopied

end Multiway
