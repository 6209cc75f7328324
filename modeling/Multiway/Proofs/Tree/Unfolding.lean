import Multiway.Proofs.Arena.Numbering
import Multiway.Proofs.Tree.Slots
import Multiway.Proofs.Tree.Valid

/-!
From links to a layout.

An operation is described by what it does to the layout that a tree holds, but a tree is an arena
with numbers in it, and nothing in the numbers says that following them ends. It does when different
ways lead to different slots: a way of some length passes that many slots and one more, so there is
no way longer than the arena. Reading the links from the root downwards then gives a layout, and a
tree whose slots are accounted for and whose children name their parents holds it.
-/

namespace Multiway

variable {K V : Type}

/-- What the links below a slot say, down to some depth. -/
def Arena.layoutFrom (a : Arena K V) : Nat → NodeId → Layout (K × V)
  | 0, id => .node id [] []
  | depth + 1, id =>
    match a.node id with
    | .error _ => .node id [] []
    | .ok node => .node id node.entries (node.children.map (a.layoutFrom depth))

namespace Arena

variable {a : Arena K V} {id : NodeId} {n : Node K V}

@[simp] theorem slot_layoutFrom (depth : Nat) : (a.layoutFrom depth id).slot = id := by
  cases depth with
  | zero => rfl
  | succ depth =>
      rw [layoutFrom]
      split <;> rfl

theorem layoutFrom_succ (depth : Nat) (h : a.node id = .ok n) :
    a.layoutFrom (depth + 1) id = .node id n.entries (n.children.map (a.layoutFrom depth)) := by
  rw [layoutFrom, h]

theorem map_slot_layoutFrom (depth : Nat) (ids : List NodeId) :
    (ids.map (a.layoutFrom depth)).map Layout.slot = ids := by
  rw [List.map_map]
  exact (List.map_congr_left fun id _ => slot_layoutFrom depth).trans (List.map_id ids)

end Arena

/-- When different ways lead to different slots, no slot comes twice. -/
theorem Layout.nodup_numbers {l : Layout (K × V)}
    (h : ∀ way way' focus focus', l.below? way = some focus → l.below? way' = some focus' →
      focus.slot = focus'.slot → way = way') : l.numbers.Nodup := by
  induction l using induct with
  | h slot entries children ih =>
      have hreach {i : Nat} {child : Layout (K × V)} (hchild : children[i]? = some child)
          {id : NodeId} (hmem : id ∈ child.numbers) :
          ∃ way focus, (node slot entries children).below? (way ++ [i]) = some focus ∧
            focus.slot = id := by
        rw [← Multiset.mem_coe, ← child.map_fst_cells none] at hmem
        obtain ⟨cell, hcell, rfl⟩ := Multiset.mem_map.mp hmem
        obtain ⟨way, focus, hway, hslot⟩ := exists_below? hcell
        exact ⟨way, focus, (below?_append hchild way).trans hway, hslot⟩
      rw [numbers_node, List.nodup_cons, List.nodup_flatMap]
      refine ⟨fun hmem => ?_, fun child hmem => ?_, ?_⟩
      · obtain ⟨child, hchild, hmem⟩ := List.mem_flatMap.mp hmem
        obtain ⟨i, hget⟩ := List.getElem?_of_mem hchild
        obtain ⟨way, focus, hway, hslot⟩ := hreach hget hmem
        have heq := h _ [] _ _ hway rfl hslot
        simp at heq
      · obtain ⟨i, hget⟩ := List.getElem?_of_mem hmem
        refine ih child hmem fun way way' focus focus' hway hway' hslot => ?_
        exact List.append_cancel_right (h _ _ _ _ ((below?_append hget way).trans hway)
          ((below?_append hget way').trans hway') hslot)
      · -- A slot below two children would be reached by two ways that differ in their first step.
        rw [List.pairwise_iff_getElem]
        intro i j hi hj hlt id hmem hmem'
        obtain ⟨way, focus, hway, hslot⟩ := hreach (List.getElem?_eq_getElem hi) hmem
        obtain ⟨way', focus', hway', hslot'⟩ := hreach (List.getElem?_eq_getElem hj) hmem'
        have heq := congrArg List.getLast? (h _ _ _ _ hway hway' (hslot.trans hslot'.symm))
        rw [List.getLast?_concat, List.getLast?_concat] at heq
        exact Nat.ne_of_lt hlt (Option.some.inj heq)

namespace Tree

variable {t : Tree K V} {v : Visit K V}

theorem Visited.node (hv : t.Visited v) : t.arena.node v.id = .ok v.node := by
  cases hv with
  | root hroot hnode => exact hnode
  | child hv hchild hnode => exact hnode

/-- A visit goes along a way. -/
theorem Visited.exists_way (hv : t.Visited v) :
    ∃ way, t.slotAt way = some v.id ∧ way.length = v.depth := by
  induction hv with
  | root hroot hnode => exact ⟨[], hroot, rfl⟩
  | @child v position id node hv hchild hnode ih =>
      obtain ⟨way, hway, hlength⟩ := ih
      refine ⟨position :: way, ?_, congrArg Nat.succ hlength⟩
      rw [slotAt, hway, Option.bind_some, Arena.node_eq_ok_iff.mp hv.node, Option.bind_some, hchild]

/-- Every part of a way leads to a slot of its own. -/
theorem Accounted.exists_passed (h : t.Accounted) {way : List Nat} {id : NodeId}
    (hway : t.slotAt way = some id) :
    ∃ passed : List NodeId, passed.length = way.length + 1 ∧ passed.Nodup ∧
      ∀ other ∈ passed, ∃ part, t.slotAt part = some other ∧ part.length ≤ way.length := by
  induction way generalizing id with
  | nil =>
      refine ⟨[id], rfl, List.nodup_singleton id, fun other hmem => ?_⟩
      exact ⟨[], List.mem_singleton.mp hmem ▸ hway, Nat.le_refl _⟩
  | cons position way ih =>
      obtain ⟨above, habove, -⟩ := Option.bind_eq_some_iff.mp hway
      obtain ⟨passed, hlength, hnodup, hparts⟩ := ih habove
      refine ⟨id :: passed, congrArg Nat.succ hlength, List.nodup_cons.mpr ⟨fun hmem => ?_, hnodup⟩,
        fun other hmem => ?_⟩
      · obtain ⟨part, hpart, hle⟩ := hparts id hmem
        rw [h.apart _ _ id hpart hway, List.length_cons] at hle
        omega
      · rcases List.mem_cons.mp hmem with rfl | hmem
        · exact ⟨position :: way, hway, Nat.le_refl _⟩
        · obtain ⟨part, hpart, hle⟩ := hparts other hmem
          exact ⟨part, hpart, Nat.le_succ_of_le hle⟩

/-- No visit is as deep as the arena is large. -/
theorem Accounted.depth_lt (h : t.Accounted) (hv : t.Visited v) :
    v.depth < t.arena.slots.size := by
  obtain ⟨way, hway, hlength⟩ := hv.exists_way
  obtain ⟨passed, hpassed, hnodup, hparts⟩ := h.exists_passed hway
  have hsub : passed ⊆ List.range t.arena.slots.size := by
    intro other hmem
    obtain ⟨part, hpart, -⟩ := hparts other hmem
    exact List.mem_range.mpr (h.reached_lt other ⟨part, hpart⟩)
  have hle := (hnodup.subperm hsub).length_le
  rw [List.length_range] at hle
  omega

/-- Below a visit the links are read as far as they go. -/
theorem reads_layoutFrom {fuel : Nat} (hv : t.Visited v)
    (hdeep : ∀ w, t.Visited w → w.depth < v.depth + fuel)
    (hchild : ∀ w, t.Visited w → ∀ id ∈ w.node.children, ∃ node, t.arena.node id = .ok node)
    (hparent : ∀ w, t.Visited w → w.node.parent = w.parent) :
    t.arena.Reads ((t.arena.layoutFrom fuel v.id).cells v.parent) := by
  induction fuel generalizing v with
  | zero => exact absurd (hdeep v hv) (Nat.lt_irrefl v.depth)
  | succ fuel ih =>
      rw [Arena.layoutFrom_succ fuel hv.node, Layout.cells_node, Arena.map_slot_layoutFrom,
        ← hparent v hv]
      intro cell hcell
      rcases Multiset.mem_add.mp hcell with hcell | hcell
      · obtain rfl := Multiset.mem_singleton.mp hcell
        exact hv.node
      · obtain ⟨l, hl, hcell⟩ := Layout.mem_allCells.mp hcell
        obtain ⟨id, hid, rfl⟩ := List.mem_map.mp hl
        obtain ⟨node, hnode⟩ := hchild v hv id hid
        obtain ⟨position, hget⟩ := List.getElem?_of_mem hid
        refine ih (.child hv hget hnode) (fun w hw => ?_) cell hcell
        have := hdeep w hw
        show w.depth < v.depth + 1 + fuel
        omega

/-- A tree whose slots are accounted for holds what its links say. -/
theorem Accounted.exists_holds (h : t.Accounted) {root : NodeId} (hroot : t.root = some root)
    (hnode : ∃ node, t.arena.node root = .ok node)
    (hchild : ∀ v, t.Visited v → ∀ id ∈ v.node.children, ∃ node, t.arena.node id = .ok node)
    (hparent : ∀ v, t.Visited v → v.node.parent = v.parent) :
    ∃ l, t.Holds (some l) := by
  obtain ⟨node, hnode⟩ := hnode
  have hreads : t.arena.Reads (cells (some (t.arena.layoutFrom t.bound root))) := by
    refine reads_layoutFrom (.root hroot hnode) (fun w hw => ?_) hchild hparent
    rw [Nat.zero_add]
    exact h.depth_lt hw
  generalize hl : t.arena.layoutFrom t.bound root = l at hreads
  have hslot : t.root = (some l).map Layout.slot := by
    rw [hroot, ← hl, Option.map_some, Arena.slot_layoutFrom]
  have hreaches := reaches_iff hreads hslot
  have hcells : ((l.cells none).map Prod.fst).Nodup := by
    rw [l.map_fst_cells none, Multiset.coe_nodup]
    refine Layout.nodup_numbers fun way way' focus focus' hway hway' heq => ?_
    refine h.apart way way' focus.slot ?_ ?_
    · rw [slotAt_eq hreads hslot, Option.bind_some, hway, Option.map_some]
    · rw [slotAt_eq hreads hslot, Option.bind_some, hway', Option.map_some, heq]
  have hlists : (t.arena.free ++ t.arena.vacant).Nodup := by
    refine List.nodup_append'.mpr ⟨h.free_nodup, h.vacant_nodup, fun id hfree hvacant => ?_⟩
    rcases h.one id (h.free_lt id hfree) with ⟨-, hout, -⟩ | ⟨-, -, hout⟩ | ⟨-, hout, -⟩
    · exact hout hfree
    · exact hout hvacant
    · exact hout hfree
  have hspare (id : NodeId) (hmem : id ∈ t.arena.free ++ t.arena.vacant) :
      id < t.arena.slots.size ∧ t.arena.node id = .ok {} := by
    rcases List.mem_append.mp hmem with hmem | hmem
    · exact ⟨h.free_lt id hmem, h.free_blank id hmem⟩
    · exact ⟨h.vacant_lt id hmem, h.vacant_blank id hmem⟩
  have hout (id : NodeId) (hreach : t.Reaches id) : id ∉ t.arena.free ++ t.arena.vacant := by
    rw [List.mem_append, not_or]
    rcases h.one id (h.reached_lt id hreach) with ⟨-, hout⟩ | ⟨hnot, -⟩ | ⟨hnot, -⟩
    · exact hout
    · exact absurd hreach hnot
    · exact absurd hreach hnot
  refine ⟨l, ⟨fun cell hmem => Arena.node_eq_ok_iff.mp (hreads cell hmem),
    fun id hmem => Arena.node_eq_ok_iff.mp (hspare id hmem).2, ?_, h.room⟩, hslot⟩
  refine (Multiset.Nodup.ext (Multiset.nodup_add.mpr
    ⟨hcells, Multiset.coe_nodup.mpr hlists, ?_⟩) (Multiset.nodup_range _)).mpr fun id => ?_
  · rw [Multiset.disjoint_left]
    exact fun hcell hmem => hout _ ((hreaches _).mpr hcell) (Multiset.mem_coe.mp hmem)
  · rw [Multiset.mem_add, Multiset.mem_coe, Multiset.mem_range]
    constructor
    · rintro (hcell | hmem)
      · exact h.reached_lt id ((hreaches id).mpr hcell)
      · exact (hspare id hmem).1
    · intro hlt
      rcases h.one id hlt with ⟨hreach, -⟩ | ⟨-, hfree, -⟩ | ⟨-, -, hvacant⟩
      · exact .inl ((hreaches id).mp hreach)
      · exact .inr (List.mem_append_left _ hfree)
      · exact .inr (List.mem_append_right _ hvacant)

end Tree

end Multiway
