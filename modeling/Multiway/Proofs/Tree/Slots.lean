import Mathlib.Data.Finset.Card
import Multiway.Proofs.Tree.Holding

/-!
What every slot is used for.

A way down a tree is a list of positions of children, and it leads to at most one slot. That a slot is
handed out to the tree and that some way leads to it are two different things: the first is what the
arena believes, the second is what the links say. A tree that holds a layout keeps the two together.
Every slot is then reached by one way, or waits for reuse on one of the two lists, and no other slot
than those on the lists is ever handed out.

None of this needs the nodes to be balanced or the keys to ascend, so it holds in the middle of an
operation as well.
-/

namespace Multiway

variable {K V α : Type}

namespace Layout

/-- The part of a layout to which a way leads. The last step of the way comes first. -/
def below? (l : Layout α) : List Nat → Option (Layout α)
  | [] => some l
  | position :: way => (l.below? way).bind fun focus => focus.children[position]?

theorem below?_cons {l focus : Layout α} {position : Nat} {way : List Nat} :
    l.below? (position :: way) = some focus ↔
      ∃ above, l.below? way = some above ∧ above.children[position]? = some focus :=
  Option.bind_eq_some_iff

/-- A way below a child is a way below the whole layout. -/
theorem below?_append {l child : Layout α} {position : Nat}
    (hchild : l.children[position]? = some child) (way : List Nat) :
    l.below? (way ++ [position]) = child.below? way := by
  induction way with
  | nil => exact hchild
  | cons step way ih => exact congrArg (Option.bind · _) ih

/-- The node that lists what stands at the end of a way among its children. -/
def aboveOf (l : Layout α) : List Nat → Option NodeId
  | [] => none
  | _ :: way => (l.below? way).map slot

theorem slots_le_allCells (parent : Option NodeId) (layouts : List (Layout (K × V))) :
    ((layouts.map slot : List NodeId) : Multiset NodeId) ≤
      (allCells parent layouts).map Prod.fst := by
  induction layouts with
  | nil => exact Multiset.zero_le _
  | cons l layouts ih =>
      have hl : {l.slot} ≤ (l.cells parent).map Prod.fst :=
        Multiset.singleton_le.mpr (Multiset.mem_map_of_mem Prod.fst (l.slot_mem_cells parent))
      rw [allCells_cons, Multiset.map_add, List.map_cons, ← Multiset.cons_coe,
        ← Multiset.singleton_add]
      exact add_le_add hl ih

theorem cells_le_allCells {parent : Option NodeId} {layouts : List (Layout (K × V))}
    {l : Layout (K × V)} (hmem : l ∈ layouts) : l.cells parent ≤ allCells parent layouts := by
  obtain ⟨low, high, rfl⟩ := List.append_of_mem hmem
  rw [allCells_append, allCells_cons]
  exact (Multiset.le_add_right _ _).trans (Multiset.le_add_left _ _)

/-- The cells at the end of a way are among those of the layout. -/
theorem cells_below? {l focus : Layout (K × V)} {way : List Nat} (h : l.below? way = some focus) :
    focus.cells (l.aboveOf way) ≤ l.cells none := by
  induction way generalizing focus with
  | nil =>
      obtain rfl := Option.some.inj h
      exact le_rfl
  | cons position way ih =>
      obtain ⟨above, habove, hchild⟩ := below?_cons.mp h
      have hcells : focus.cells (some above.slot) ≤ above.cells (l.aboveOf way) := by
        rw [cells_eq (l.aboveOf way)]
        exact (cells_le_allCells (List.mem_of_getElem? hchild)).trans (Multiset.le_add_left _ _)
      rw [aboveOf, habove]
      exact hcells.trans (ih habove)

/-- In one slot there is one node, and it names one parent. -/
theorem aboveOf_eq {l focus focus' : Layout (K × V)} {way way' : List Nat}
    (hnodup : ((l.cells none).map Prod.fst).Nodup) (h : l.below? way = some focus)
    (h' : l.below? way' = some focus') (hslot : focus.slot = focus'.slot) :
    l.aboveOf way = l.aboveOf way' :=
  congrArg (fun cell => cell.2.parent) (Multiset.inj_on_of_nodup_map hnodup _
    (Multiset.mem_of_le (cells_below? h) (focus.slot_mem_cells _)) _
    (Multiset.mem_of_le (cells_below? h') (focus'.slot_mem_cells _)) hslot)

/-- The children of a node stand in different slots. -/
theorem nodup_children {l focus : Layout (K × V)} {way : List Nat}
    (hnodup : ((l.cells none).map Prod.fst).Nodup) (h : l.below? way = some focus) :
    (focus.children.map slot).Nodup := by
  have hle := Multiset.map_le_map (f := Prod.fst) (cells_below? h)
  rw [cells_eq, Multiset.map_add] at hle
  exact Multiset.coe_nodup.mp (Multiset.nodup_of_le
    (((slots_le_allCells _ _).trans (Multiset.le_add_left _ _)).trans hle) hnodup)

/-- Two ways that lead to one slot are one way. -/
theorem eq_of_below? {l focus focus' : Layout (K × V)} {way way' : List Nat}
    (hnodup : ((l.cells none).map Prod.fst).Nodup) (h : l.below? way = some focus)
    (h' : l.below? way' = some focus') (hslot : focus.slot = focus'.slot) : way = way' := by
  -- The ways are compared from their ends upwards, since a node knows its parent.
  have habove := aboveOf_eq hnodup h h' hslot
  induction way generalizing way' focus focus' with
  | nil =>
      cases way' with
      | nil => rfl
      | cons position' way' =>
          obtain ⟨above', habove', -⟩ := below?_cons.mp h'
          rw [aboveOf, aboveOf, habove'] at habove
          contradiction
  | cons position way ih =>
      obtain ⟨above, hway, hchild⟩ := below?_cons.mp h
      cases way' with
      | nil =>
          rw [aboveOf, aboveOf, hway] at habove
          contradiction
      | cons position' way' =>
          obtain ⟨above', hway', hchild'⟩ := below?_cons.mp h'
          rw [aboveOf, aboveOf, hway, hway'] at habove
          have hsame : above.slot = above'.slot := Option.some.inj habove
          obtain rfl := ih hway hway' hsame (aboveOf_eq hnodup hway hway' hsame)
          obtain rfl := Option.some.inj (hway.symm.trans hway')
          have hget : (above.children.map slot)[position]? =
              (above.children.map slot)[position']? := by
            rw [List.getElem?_map, List.getElem?_map, hchild, hchild', Option.map_some,
              Option.map_some, hslot]
          have hlt : position < (above.children.map slot).length := by
            rw [List.length_map]
            exact (List.getElem?_eq_some_iff.mp hchild).1
          rw [(List.getElem?_inj hlt (nodup_children hnodup hway)).mp hget]

/-- Some way leads to every cell. -/
theorem exists_below? {l : Layout (K × V)} {parent : Option NodeId} {cell : NodeId × Node K V}
    (h : cell ∈ l.cells parent) : ∃ way focus, l.below? way = some focus ∧ focus.slot = cell.1 := by
  induction l using induct generalizing parent with
  | h slot entries children ih =>
      rw [cells_node] at h
      rcases Multiset.mem_add.mp h with h | h
      · obtain rfl := Multiset.mem_singleton.mp h
        exact ⟨[], _, rfl, rfl⟩
      · obtain ⟨child, hmem, hcell⟩ := mem_allCells.mp h
        obtain ⟨way, focus, hway, hslot⟩ := ih child hmem hcell
        obtain ⟨position, hchild⟩ := List.getElem?_of_mem hmem
        exact ⟨way ++ [position], focus, (below?_append hchild way).trans hway, hslot⟩

end Layout

namespace Tree

/-- The slot to which a way leads from the root. The last step of the way comes first. -/
def slotAt (t : Tree K V) : List Nat → Option NodeId
  | [] => t.root
  | position :: way =>
    (t.slotAt way).bind fun id => t.arena.slots[id]?.bind fun node => node.children[position]?

/-- Some way leads from the root to a slot. -/
def Reaches (t : Tree K V) (id : NodeId) : Prop := ∃ way, t.slotAt way = some id

/-- What is known of the slots of a tree. -/
structure Accounted (t : Tree K V) : Prop where
  /-- Every slot is in use, free or vacant, and it is only one of the three. -/
  one : ∀ id < t.arena.slots.size,
    t.Reaches id ∧ id ∉ t.arena.free ∧ id ∉ t.arena.vacant ∨
      ¬ t.Reaches id ∧ id ∈ t.arena.free ∧ id ∉ t.arena.vacant ∨
        ¬ t.Reaches id ∧ id ∉ t.arena.free ∧ id ∈ t.arena.vacant
  /-- Whatever is reached or waits for reuse is a slot. -/
  reached_lt : ∀ id, t.Reaches id → id < t.arena.slots.size
  free_lt : ∀ id ∈ t.arena.free, id < t.arena.slots.size
  vacant_lt : ∀ id ∈ t.arena.vacant, id < t.arena.slots.size
  free_nodup : t.arena.free.Nodup
  vacant_nodup : t.arena.vacant.Nodup
  /-- The free list keeps to its capacity. -/
  room : t.arena.free.length ≤ t.arena.capacity
  /-- A slot that waits for reuse has no entries, no children and no parent. -/
  free_blank : ∀ id ∈ t.arena.free, t.arena.node id = .ok {}
  vacant_blank : ∀ id ∈ t.arena.vacant, t.arena.node id = .ok {}
  /-- Different ways lead to different slots. -/
  apart : ∀ way way' id, t.slotAt way = some id → t.slotAt way' = some id → way = way'
  /-- As many slots are handed out as are reached. -/
  live : ∃ reached : Finset NodeId, (∀ id, id ∈ reached ↔ t.Reaches id) ∧
    t.arena.live = .ok reached.card

/-- So many slots are reached from the root. -/
def Occupies (t : Tree K V) (nodes : Nat) : Prop :=
  ∃ reached : Finset NodeId, (∀ id, id ∈ reached ↔ t.Reaches id) ∧ reached.card = nodes

/-- The arena of a tree hands out an empty slot without links, to which no way leads and which is
none of the slots in `others`. Every way leads where it led before. -/
def HandsOut (t : Tree K V) (others : List NodeId) : Prop :=
  ∃ id arena, t.arena.acquire = .ok (id, arena) ∧ arena.node id = .ok {} ∧ ¬ t.Reaches id ∧
    id ∉ others ∧ id ∉ arena.free ∧ id ∉ arena.vacant ∧
    ∀ way, ({ t with arena } : Tree K V).slotAt way = t.slotAt way

variable {t : Tree K V} {l? : Option (Layout (K × V))}

/-- What the ways down a tree lead to is what they lead to in the layout. -/
theorem slotAt_eq (hreads : t.arena.Reads (cells l?)) (hroot : t.root = l?.map Layout.slot)
    (way : List Nat) :
    t.slotAt way = (l?.bind fun l => l.below? way).map Layout.slot := by
  induction way with
  | nil =>
      rw [slotAt, hroot]
      cases l? <;> rfl
  | cons position way ih =>
      rw [slotAt, ih]
      cases l? with
      | none => rfl
      | some l =>
          rw [Option.bind_some, Option.bind_some, Layout.below?]
          cases hbelow : l.below? way with
          | none => rfl
          | some focus =>
              have hnode := hreads _ (Multiset.mem_of_le (Layout.cells_below? hbelow)
                (focus.slot_mem_cells _))
              rw [Option.map_some, Option.bind_some, Arena.node_eq_ok_iff.mp hnode,
                Option.bind_some, Option.bind_some, List.getElem?_map]

/-- The slots that are reached are those of the cells. -/
theorem reaches_iff (hreads : t.arena.Reads (cells l?)) (hroot : t.root = l?.map Layout.slot)
    (id : NodeId) : t.Reaches id ↔ id ∈ (cells l?).map Prod.fst := by
  cases l? with
  | none =>
      refine ⟨?_, fun hmem => absurd hmem (Multiset.notMem_zero id)⟩
      rintro ⟨way, hway⟩
      rw [slotAt_eq hreads hroot] at hway
      contradiction
  | some l =>
      constructor
      · rintro ⟨way, hway⟩
        rw [slotAt_eq hreads hroot, Option.bind_some] at hway
        obtain ⟨focus, hbelow, rfl⟩ := Option.map_eq_some_iff.mp hway
        exact Multiset.mem_map_of_mem Prod.fst
          (Multiset.mem_of_le (Layout.cells_below? hbelow) (focus.slot_mem_cells _))
      · intro hmem
        obtain ⟨cell, hcell, rfl⟩ := Multiset.mem_map.mp hmem
        obtain ⟨way, focus, hbelow, hslot⟩ := Layout.exists_below? hcell
        refine ⟨way, ?_⟩
        rw [slotAt_eq hreads hroot, Option.bind_some, hbelow, Option.map_some, hslot]

theorem Occupies.unique {nodes nodes' : Nat} (h : t.Occupies nodes) (h' : t.Occupies nodes') :
    nodes = nodes' := by
  obtain ⟨reached, hmem, rfl⟩ := h
  obtain ⟨reached', hmem', rfl⟩ := h'
  exact congrArg Finset.card (Finset.ext fun id => (hmem id).trans (hmem' id).symm)

/-- As many slots are reached as there are cells. -/
theorem Holds.occupies (h : t.Holds l?) : t.Occupies (cells l?).card := by
  refine ⟨((cells l?).map Prod.fst).toFinset, fun id => ?_, ?_⟩
  · rw [Multiset.mem_toFinset, reaches_iff h.stores.reads h.root]
  · rw [Multiset.toFinset_card_of_nodup h.stores.nodup, Multiset.card_map]

/-- A tree that holds a layout has all its slots accounted for. -/
theorem Holds.accounted (h : t.Holds l?) : t.Accounted := by
  have hreaches := reaches_iff h.stores.reads h.root
  have hall : (Multiset.range t.arena.slots.size).Nodup := Multiset.nodup_range _
  rw [← h.stores.cover, Multiset.nodup_add, Multiset.coe_nodup, List.nodup_append'] at hall
  obtain ⟨hcells, ⟨hfree, hvacant, hlists⟩, hspare⟩ := hall
  have hlt (id : NodeId) : id < t.arena.slots.size ↔
      t.Reaches id ∨ id ∈ t.arena.free ++ t.arena.vacant := by
    rw [← Multiset.mem_range, ← h.stores.cover, Multiset.mem_add, Multiset.mem_coe, hreaches]
  have hreached (id : NodeId) (hmem : id ∈ t.arena.free ++ t.arena.vacant) : ¬ t.Reaches id := by
    rw [hreaches]
    exact fun hcell => Multiset.disjoint_left.mp hspare hcell hmem
  have hblank (id : NodeId) (hmem : id ∈ t.arena.free ++ t.arena.vacant) :
      t.arena.node id = .ok {} := Arena.node_eq_ok_iff.mpr (h.stores.blank id hmem)
  constructor
  case one =>
    intro id hid
    rcases (hlt id).mp hid with hin | hin
    · have hout := mt (hreached id) (not_not_intro hin)
      rw [List.mem_append, not_or] at hout
      exact .inl ⟨hin, hout⟩
    · have hout := hreached id hin
      rcases List.mem_append.mp hin with hin | hin
      · exact .inr (.inl ⟨hout, hin, hlists hin⟩)
      · exact .inr (.inr ⟨hout, fun hother => hlists hother hin, hin⟩)
  case reached_lt => exact fun id hin => (hlt id).mpr (.inl hin)
  case free_lt => exact fun id hin => (hlt id).mpr (.inr (List.mem_append_left _ hin))
  case vacant_lt => exact fun id hin => (hlt id).mpr (.inr (List.mem_append_right _ hin))
  case free_nodup => exact hfree
  case vacant_nodup => exact hvacant
  case room => exact h.stores.room
  case free_blank => exact fun id hin => hblank id (List.mem_append_left _ hin)
  case vacant_blank => exact fun id hin => hblank id (List.mem_append_right _ hin)
  case apart =>
    intro way way' id hway hway'
    rw [slotAt_eq h.stores.reads h.root] at hway hway'
    cases l? with
    | none => contradiction
    | some l =>
        obtain ⟨focus, hbelow, hslot⟩ := Option.map_eq_some_iff.mp hway
        obtain ⟨focus', hbelow', hslot'⟩ := Option.map_eq_some_iff.mp hway'
        exact Layout.eq_of_below? hcells hbelow hbelow' (hslot.trans hslot'.symm)
  case live =>
    obtain ⟨reached, hmem, hcard⟩ := h.occupies
    exact ⟨reached, hmem, hcard ▸ h.stores.live_eq⟩

/-- Where all slots are accounted for, the arena knows how many of them are reached. -/
theorem Accounted.live_iff (h : t.Accounted) {nodes : Nat} :
    t.arena.live = .ok nodes ↔ t.Occupies nodes := by
  obtain ⟨reached, hmem, hlive⟩ := h.live
  rw [hlive, Except.ok.injEq]
  exact ⟨fun hcard => ⟨reached, hmem, hcard⟩, fun hnodes => Occupies.unique ⟨reached, hmem, rfl⟩ hnodes⟩

/-- What is handed out next stands apart from the layout at the root and from all other cells. -/
theorem handsOut_of_stores {others : Multiset (NodeId × Node K V)}
    (h : t.arena.Stores (cells l? + others)) (hroot : t.root = l?.map Layout.slot)
    {taken : List NodeId} (htaken : ∀ id ∈ taken, id ∈ others.map Prod.fst) :
    t.HandsOut taken := by
  obtain ⟨id, arena, hacquire, hstores, -⟩ := h.acquire
  have hnodup := hstores.nodup
  rw [Multiset.map_add, Multiset.map_singleton, Multiset.singleton_add, Multiset.nodup_cons,
    Multiset.map_add, Multiset.mem_add, not_or] at hnodup
  have hspare := hstores.not_mem_spare (id, {}) (Multiset.mem_add.mpr (.inl (by simp)))
  rw [List.mem_append, not_or] at hspare
  refine ⟨id, arena, hacquire, hstores.node, ?_, fun hmem => hnodup.1.2 (htaken id hmem), hspare.1,
    hspare.2, fun way => ?_⟩
  · rw [reaches_iff h.reads.left hroot]
    exact hnodup.1.1
  · have hnew := slotAt_eq (t := { t with arena }) hstores.reads.right.left hroot way
    rw [hnew, slotAt_eq h.reads.left hroot]

theorem Holds.handsOut (h : t.Holds l?) : t.HandsOut [] :=
  handsOut_of_stores (h.stores.congr (add_zero _).symm) h.root nofun

/-- A tree without entries has no node handed out. -/
theorem Sound.live_of_size (h : t.Sound l?) (hsize : t.size = 0) : t.arena.live = .ok 0 := by
  cases l? with
  | none => exact h.holds.stores.live_eq
  | some l =>
      obtain ⟨tall, height, -, hsound⟩ := h.stands
      have hentries := (Shape.entries_sublist_toList l.shape).length_le
      have hsome : 1 ≤ l.shape.entries.length := hsound.2.1
      have hlength : l.shape.toList.length = 0 := h.size_eq.symm.trans hsize
      omega

end Tree

end Multiway
