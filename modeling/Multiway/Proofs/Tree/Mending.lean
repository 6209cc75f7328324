import Multiway.Proofs.Shape.Removal
import Multiway.Proofs.Tree.Search
import Multiway.Tree.Removal

/-!
Mending a tree from which an entry was taken.

A node with too few entries looks for itself among the children of its parent, and finds the gap
through which the path goes because no slot is used twice. Lending changes two neighbours, their
parent and the children that move over; merging changes one neighbour and the parent and gives the
other slot up. Each is a fixed sequence of writes into single cells, shown once for both sides.
`replenish` then follows the function of the same name on shapes, by induction on the path up.

The slots that are given up are collected in order, since the free list takes them in that order and
those for which it has no room are told.
-/

namespace Multiway

variable {K V : Type} {f : Fanout} {height : Nat}

namespace Tree

variable {t : Tree K V} {slot : NodeId} {path : List (Frame (K × V))} {l sibling : Layout (K × V)}
  {before : List (Layout (K × V) × (K × V))} {behind : List ((K × V) × Layout (K × V))}
  {separator : K × V}

/-! ### Lending -/

theorem Holds.node_above {g : Gap (K × V) (Layout (K × V))}
    (h : t.Holds (some (Layout.plug ((slot, g) :: path) l))) :
    t.arena.node slot = .ok (Layout.frameNode (Layout.parentOf none path) l.slot g) :=
  h.stores.reads.node_above

theorem getElem?_children_behind {parent : Option NodeId} :
    (Layout.frameNode parent l.slot ⟨before, (separator, sibling) :: behind⟩).children[
      before.length + 1]? = some sibling.slot := by
  simp [Layout.frameNode, Gap.around, Gap.map]

theorem replaceAt_entries_behind {parent : Option NodeId} {hole : NodeId} (lent : K × V) :
    replaceAt (Layout.frameNode parent hole ⟨before, (separator, sibling) :: behind⟩).entries
        before.length lent =
      .ok (separator, (Gap.mk before ((lent, sibling) :: behind)).entries) := by
  have hreplace := replaceAt_append (Gap.mk before behind).low (Gap.mk before behind).high separator
    lent
  rw [Gap.length_low] at hreplace
  rw [Layout.frameNode, Gap.entries_cons_behind, Gap.entries_cons_behind]
  exact hreplace

theorem Holds.shiftFromRight_none
    (h : t.Holds (some (Layout.plug ((slot, ⟨before, behind⟩) :: path) l)))
    (hnone : Shape.lendRight t.fanout (Gap.map Layout.shape ⟨before, behind⟩) l.shape = none) :
    t.shiftFromRight slot before.length = .ok none := by
  rw [shiftFromRight, h.node_above, ok_bind]
  rcases behind with _ | ⟨⟨separator, sibling⟩, behind⟩
  · have hlast : (Layout.frameNode (Layout.parentOf none path) l.slot ⟨before, []⟩).children[
        before.length + 1]? = none := by
      simp [Layout.frameNode, Gap.around, Gap.map]
    simp only [hlast]
    rfl
  · have hreads := h.stores.reads
    rw [cells, Layout.cells_plug_behind] at hreads
    have hpoor : sibling.entries.length ≤ t.fanout.fewestEntries := by
      rw [← Layout.entries_shape]
      exact Shape.le_of_lendRight_eq_none hnone
    simp only [getElem?_children_behind, hreads.right.left.node, ok_bind, hpoor, if_true]
    rfl

/-- The right neighbour gives its first entry away, and its first child if it has one. -/
theorem Holds.shiftFromRight_eq {lent : K × V} {others : List (K × V)}
    {moved kept : List (Layout (K × V))}
    (h : t.Holds (some (Layout.plug ((slot, ⟨before, (separator, sibling) :: behind⟩) :: path) l)))
    (hrich : t.fanout.fewestEntries < sibling.entries.length)
    (hentries : sibling.entries = lent :: others) (hmoved : sibling.children.take 1 = moved)
    (hkept : sibling.children.drop 1 = kept) :
    ∃ u, t.shiftFromRight slot before.length = .ok (some u) ∧
      u.Holds (some (Layout.plug
        ((slot, ⟨before, (lent, .node sibling.slot others kept) :: behind⟩) :: path)
        (.node l.slot (l.entries ++ [separator]) (l.children ++ moved)))) ∧
      Alike t u ∧ u.size = t.size ∧ u.arena.stock = t.arena.stock := by
  have hsplit := Layout.allCells_take_drop (some sibling.slot) 1 sibling.children
  rw [hmoved, hkept] at hsplit
  have hstores := h.stores
  rw [cells, Layout.cells_plug_behind] at hstores
  obtain ⟨a₁, a₂, a₃, a, hlender, habove, hcurrent, hadopt, hstores, hstock⟩ :=
    hstores.lend hsplit ((Layout.allCells_append _ l.children moved).trans (add_comm _ _))
      others (l.entries ++ [separator])
      (Layout.frameNode (Layout.parentOf none path) l.slot
        ⟨before, (lent, .node sibling.slot others kept) :: behind⟩)
      (fun node => { node with
        entries := node.entries ++ [separator]
        children := node.children ++ moved.map Layout.slot })
      (by rw [List.map_append])
  refine ⟨{ t with arena := a }, ?_, ⟨?_, ?_⟩, ⟨rfl, rfl, congrArg Arena.Stock.capacity hstock⟩,
    rfl, hstock⟩
  · have hreads := h.stores.reads
    rw [cells, Layout.cells_plug_behind] at hreads
    have hchild : itemAt (Layout.frameNode (Layout.parentOf none path) l.slot
        ⟨before, (separator, sibling) :: behind⟩).children before.length = .ok l.slot :=
      Layout.itemAt_frameNode ..
    have habove : a₁.write slot { Layout.frameNode (Layout.parentOf none path) l.slot
        ⟨before, (separator, sibling) :: behind⟩ with
          entries := (Gap.mk before ((lent, sibling) :: behind)).entries } = .ok a₂ := habove
    have hremove : removeAt sibling.entries 0 = .ok (lent, others) := by
      rw [hentries]
      rfl
    rw [shiftFromRight, h.node_above, ok_bind]
    simp only [getElem?_children_behind, hreads.right.left.node, ok_bind,
      if_neg (Nat.not_le_of_lt hrich), hremove, ← List.map_take, ← List.map_drop, hmoved, hkept,
      hlender, replaceAt_entries_behind, habove, hchild, hcurrent, hadopt]
    rfl
  · exact hstores.congr (Layout.cells_plug_behind ..).symm
  · exact h.root.trans (congrArg some (Layout.slot_plug_congr path rfl))

theorem Holds.shiftFromRight_some
    (h : t.Holds (some (Layout.plug ((slot, ⟨before, behind⟩) :: path) l))) {above : Shape (K × V)}
    (hsome : Shape.lendRight t.fanout (Gap.map Layout.shape ⟨before, behind⟩) l.shape =
      some above) :
    ∃ u l', t.shiftFromRight slot before.length = .ok (some u) ∧
      u.Holds (some (Layout.plug path l')) ∧ l'.shape = above ∧ Alike t u ∧ u.size = t.size ∧
      u.arena.stock = t.arena.stock := by
  rcases behind with _ | ⟨⟨separator, sibling⟩, behind⟩
  · contradiction
  · have hrich : t.fanout.fewestEntries < sibling.entries.length := by
      rw [← Layout.entries_shape]
      exact Shape.lt_of_lendRight_eq_some hsome
    obtain ⟨lent, others, hentries⟩ := List.exists_cons_of_length_pos (Nat.zero_lt_of_lt hrich)
    -- A leaf has no first child to move over, so the children that move are a list.
    generalize hmoved : sibling.children.take 1 = moved
    generalize hkept : sibling.children.drop 1 = kept
    have hcut : sibling.shape.cut 0 = some (.node [] (moved.map Layout.shape), lent,
        (Layout.node sibling.slot others kept).shape) := by
      rw [Shape.cut, Layout.entries_shape, hentries, Layout.children_shape, Layout.shape_node,
        ← hmoved, ← hkept, List.map_take, List.map_drop]
      rfl
    obtain ⟨u, hshift, hholds, hrest⟩ := h.shiftFromRight_eq hrich hentries hmoved hkept
    refine ⟨u, _, hshift, hholds, ?_, hrest⟩
    have hlend : Shape.lendRight t.fanout
        (Gap.map Layout.shape ⟨before, (separator, sibling) :: behind⟩) l.shape = _ :=
      Shape.lendRight_of_lt (by rwa [Layout.entries_shape]) hcut
    rw [Option.some.inj (hsome.symm.trans hlend), Layout.shape_fill, Layout.shape_node,
      Shape.join, Layout.entries_shape, Layout.children_shape, List.map_append]
    rfl

theorem itemAt_children_before {parent : Option NodeId} :
    itemAt (Layout.frameNode parent l.slot ⟨(sibling, separator) :: before, behind⟩).children
      before.length = .ok sibling.slot := by
  have hitem := itemAt_append (before.map fun pair => pair.1.slot).reverse
    (l.slot :: behind.map fun pair => pair.2.slot) sibling.slot
  rw [List.length_reverse, List.length_map] at hitem
  simpa [Layout.frameNode, Gap.around, Gap.map, Function.comp_def] using hitem

theorem replaceAt_entries_before {parent : Option NodeId} {hole : NodeId} (lent : K × V) :
    replaceAt (Layout.frameNode parent hole ⟨(sibling, separator) :: before, behind⟩).entries
        before.length lent =
      .ok (separator, (Gap.mk ((sibling, lent) :: before) behind).entries) := by
  have hreplace := replaceAt_append (Gap.mk before behind).low (Gap.mk before behind).high separator
    lent
  rw [Gap.length_low] at hreplace
  rw [Layout.frameNode, Gap.entries_cons_before, Gap.entries_cons_before]
  exact hreplace

theorem Holds.shiftFromLeft_none
    (h : t.Holds (some (Layout.plug ((slot, ⟨before, behind⟩) :: path) l)))
    (hnone : Shape.lendLeft t.fanout (Gap.map Layout.shape ⟨before, behind⟩) l.shape = none) :
    t.shiftFromLeft slot before.length = .ok none := by
  rcases before with _ | ⟨⟨sibling, separator⟩, before⟩
  · rfl
  · have hreads := h.stores.reads
    rw [cells, Layout.cells_plug_before] at hreads
    have hpoor : sibling.entries.length ≤ t.fanout.fewestEntries := by
      rw [← Layout.entries_shape]
      exact Shape.le_of_lendLeft_eq_none hnone
    rw [List.length_cons, shiftFromLeft, h.node_above, ok_bind]
    simp only [itemAt_children_before, hreads.right.left.node, ok_bind, hpoor, if_true]
    rfl

/-- There is one child more than entries, so the last child goes with the last entry. -/
theorem last_child (hl : l.shape.Level height) {others : List (K × V)} {last : K × V}
    (hentries : l.entries = others ++ [last]) :
    l.children.dropLast = l.children.take (others.length + 1) ∧
      l.children.getLast?.toList = l.children.drop (others.length + 1) := by
  rcases Layout.children_of_level hl with hnone | hlength
  · rw [hnone]
    exact ⟨rfl, rfl⟩
  · rw [hentries, List.length_append, List.length_singleton] at hlength
    obtain ⟨children, child, hchildren⟩ := exists_concat (by omega : 0 < l.children.length)
    have hcount : children.length = others.length + 1 := by
      rw [hchildren, List.length_append, List.length_singleton] at hlength
      omega
    rw [hchildren, ← hcount, List.dropLast_concat, List.getLast?_concat, List.take_left,
      List.drop_left]
    exact ⟨rfl, rfl⟩

/-- The left neighbour gives its last entry away, and its last child if it has one. -/
theorem Holds.shiftFromLeft_eq {lent : K × V} {others : List (K × V)}
    {moved kept : List (Layout (K × V))}
    (h : t.Holds (some (Layout.plug ((slot, ⟨(sibling, separator) :: before, behind⟩) :: path) l)))
    (hlevel : sibling.shape.Level height)
    (hrich : t.fanout.fewestEntries < sibling.entries.length)
    (hentries : sibling.entries = others ++ [lent])
    (hmoved : sibling.children.drop (others.length + 1) = moved)
    (hkept : sibling.children.take (others.length + 1) = kept) :
    ∃ u, t.shiftFromLeft slot (before.length + 1) = .ok (some u) ∧
      u.Holds (some (Layout.plug
        ((slot, ⟨(.node sibling.slot others kept, lent) :: before, behind⟩) :: path)
        (.node l.slot (separator :: l.entries) (moved ++ l.children)))) ∧
      Alike t u ∧ u.size = t.size ∧ u.arena.stock = t.arena.stock := by
  obtain ⟨hdropLast, hgetLast⟩ := last_child hlevel hentries
  rw [hmoved] at hgetLast
  rw [hkept] at hdropLast
  have hsplit := Layout.allCells_take_drop (some sibling.slot) (others.length + 1)
    sibling.children
  rw [hmoved, hkept, add_comm] at hsplit
  have hstores := h.stores
  rw [cells, Layout.cells_plug_before] at hstores
  obtain ⟨a₁, a₂, a₃, a, hlender, habove, hcurrent, hadopt, hstores, hstock⟩ :=
    hstores.lend hsplit (Layout.allCells_append _ moved l.children)
      others (separator :: l.entries)
      (Layout.frameNode (Layout.parentOf none path) l.slot
        ⟨(.node sibling.slot others kept, lent) :: before, behind⟩)
      (fun node => { node with
        entries := separator :: node.entries
        children := moved.map Layout.slot ++ node.children })
      (by rw [List.map_append])
  refine ⟨{ t with arena := a }, ?_, ⟨?_, ?_⟩, ⟨rfl, rfl, congrArg Arena.Stock.capacity hstock⟩,
    rfl, hstock⟩
  · have hreads := h.stores.reads
    rw [cells, Layout.cells_plug_before] at hreads
    have hchild : itemAt (Layout.frameNode (Layout.parentOf none path) l.slot
        ⟨(sibling, separator) :: before, behind⟩).children (before.length + 1) = .ok l.slot :=
      Layout.itemAt_frameNode ..
    have habove : a₁.write slot { Layout.frameNode (Layout.parentOf none path) l.slot
        ⟨(sibling, separator) :: before, behind⟩ with
          entries := (Gap.mk ((sibling, lent) :: before) behind).entries } = .ok a₂ := habove
    have hlast : sibling.entries.getLast? = some lent := by
      rw [hentries, List.getLast?_concat]
    have hinit : sibling.entries.dropLast = others := by
      rw [hentries, List.dropLast_concat]
    have hshown : (sibling.children.map Layout.slot).getLast?.toList =
        moved.map Layout.slot := by
      rw [List.getLast?_map, ← hgetLast, Option.toList_map]
    rw [shiftFromLeft, h.node_above, ok_bind]
    simp only [itemAt_children_before, hreads.right.left.node, ok_bind,
      if_neg (Nat.not_le_of_lt hrich), hlast, hinit, ← List.map_dropLast, hdropLast,
      hlender, replaceAt_entries_before, habove, hchild, hshown, hcurrent, hadopt]
    rfl
  · exact hstores.congr (Layout.cells_plug_before ..).symm
  · exact h.root.trans (congrArg some (Layout.slot_plug_congr path rfl))

theorem Holds.shiftFromLeft_some
    (h : t.Holds (some (Layout.plug ((slot, ⟨before, behind⟩) :: path) l)))
    (hpath : Shape.RegularPath t.fanout height (Layout.shapes ((slot, ⟨before, behind⟩) :: path)))
    {above : Shape (K × V)}
    (hsome : Shape.lendLeft t.fanout (Gap.map Layout.shape ⟨before, behind⟩) l.shape =
      some above) :
    ∃ u l', t.shiftFromLeft slot before.length = .ok (some u) ∧
      u.Holds (some (Layout.plug path l')) ∧ l'.shape = above ∧ Alike t u ∧ u.size = t.size ∧
      u.arena.stock = t.arena.stock := by
  rcases before with _ | ⟨⟨sibling, separator⟩, before⟩
  · contradiction
  · have hrich : t.fanout.fewestEntries < sibling.entries.length := by
      rw [← Layout.entries_shape]
      exact Shape.lt_of_lendLeft_eq_some hsome
    obtain ⟨others, lent, hentries⟩ := exists_concat (Nat.zero_lt_of_lt hrich)
    obtain ⟨hsides, -, -⟩ := Layout.regularPath_cons.mp hpath
    obtain ⟨⟨hregular, -⟩, -⟩ := Shape.forall_mem_around_before.mp hsides
    generalize hmoved : sibling.children.drop (others.length + 1) = moved
    generalize hkept : sibling.children.take (others.length + 1) = kept
    have hcut : sibling.shape.cut (sibling.shape.entries.length - 1) =
        some ((Layout.node sibling.slot others kept).shape, lent,
          .node [] (moved.map Layout.shape)) := by
      rw [Shape.cut, Layout.entries_shape, hentries, Layout.children_shape, Layout.shape_node,
        ← hmoved, ← hkept, List.map_take, List.map_drop]
      simp
    obtain ⟨u, hshift, hholds, hrest⟩ :=
      h.shiftFromLeft_eq hregular.level hrich hentries hmoved hkept
    refine ⟨u, _, hshift, hholds, ?_, hrest⟩
    have hlend : Shape.lendLeft t.fanout
        (Gap.map Layout.shape ⟨(sibling, separator) :: before, behind⟩) l.shape = _ :=
      Shape.lendLeft_of_lt (by rwa [Layout.entries_shape]) hcut
    rw [Option.some.inj (hsome.symm.trans hlend), Layout.shape_fill, Layout.shape_node,
      Shape.join, Layout.entries_shape, Layout.children_shape, List.map_append]
    rfl

/-! ### Merging -/

/-- Two neighbours and the entry between them, in the slot of the left one. -/
def merged (low : Layout (K × V)) (separator : K × V) (high : Layout (K × V)) : Layout (K × V) :=
  .node low.slot (low.entries ++ separator :: high.entries) (low.children ++ high.children)

theorem shape_merged (low : Layout (K × V)) (separator : K × V) (high : Layout (K × V)) :
    (merged low separator high).shape = Shape.join low.shape separator high.shape := by
  rw [merged, Layout.shape_node, Shape.join, Layout.entries_shape, Layout.entries_shape,
    Layout.children_shape, Layout.children_shape, List.map_append]

theorem removeAt_entries_behind {parent : Option NodeId} {hole : NodeId}
    {g : Gap (K × V) (Layout (K × V))} :
    removeAt (Layout.frameNode parent hole ⟨g.before, (separator, sibling) :: g.behind⟩).entries
        g.position = .ok (separator, g.entries) := by
  have hremove := removeAt_append g.low g.high separator
  rw [Gap.length_low] at hremove
  exact hremove

theorem removeAt_children_behind {parent : Option NodeId} {hole : NodeId}
    {g : Gap (K × V) (Layout (K × V))} :
    removeAt (Layout.frameNode parent hole ⟨g.before, (separator, sibling) :: g.behind⟩).children
        (g.position + 1) = .ok (sibling.slot, (g.map Layout.slot).around [hole]) := by
  have hremove := removeAt_append ((g.before.map fun pair => pair.1.slot).reverse ++ [hole])
    (g.behind.map fun pair => pair.2.slot) sibling.slot
  simpa [Layout.frameNode, Gap.around, Gap.map, Gap.position, Function.comp_def] using hremove

/-- Merging makes one node of the two and gives up the slot of the right one. -/
theorem Holds.mergeAt_eq {g : Gap (K × V) (Layout (K × V))} {low high : Layout (K × V)}
    (h : t.Holds (some (Layout.plug
      ((slot, ⟨g.before, (separator, high) :: g.behind⟩) :: path) low))) :
    ∃ u, t.mergeAt slot g.position = .ok (u, t.arena.stock.drops [high.slot]) ∧
      u.Holds (some (Layout.plug path (Layout.fill (slot, g) (merged low separator high)))) ∧
      Alike t u ∧ u.size = t.size ∧ u.arena.stock = t.arena.stock.store [high.slot] := by
  have hstores := h.stores
  rw [cells, Layout.cells_plug_behind] at hstores
  obtain ⟨a₁, a₂, a₃, a, hne, habove, hlow, hhigh, hmerge, hadopt, hrelease, hstores, hstock⟩ :=
    hstores.merge (low.entries ++ separator :: high.entries)
      (Layout.frameNode (Layout.parentOf none path) low.slot g)
  refine ⟨{ t with arena := a }, ?_, ⟨hstores.congr ?_, ?_⟩,
    ⟨rfl, rfl, congrArg Arena.Stock.capacity hstock⟩, rfl, hstock⟩
  · have hchild : itemAt ((g.map Layout.slot).around [low.slot]) g.position = .ok low.slot :=
      Layout.itemAt_frameNode none low.slot g
    have habove : t.arena.write slot { Layout.frameNode (Layout.parentOf none path) low.slot
        ⟨g.before, (separator, high) :: g.behind⟩ with
          entries := g.entries, children := (g.map Layout.slot).around [low.slot] } = .ok a₁ :=
      habove
    rw [mergeAt, h.node_above, ok_bind]
    simp only [removeAt_entries_behind, removeAt_children_behind, ok_bind, hchild, habove,
      Arena.apart, if_neg hne, hlow, hhigh, hmerge, hadopt, hrelease]
    rfl
  · show _ = (Layout.plug ((slot, g) :: path) (merged low separator high)).cells none
    rw [Layout.cells_plug_cons, ← merged]
    rfl
  · exact h.root.trans (congrArg some (Layout.slot_plug_congr path rfl))

/-- The right neighbour is merged into a node, or the last child into the left one. From left to right
these are two neighbours either way. -/
theorem exists_neighbours (slot : NodeId) (parent : Option NodeId)
    {g : Gap (K × V) (Layout (K × V))} (hg : 0 < g.entries.length) :
    ∃ (g' : Gap (K × V) (Layout (K × V))) (low : Layout (K × V)) (separator : K × V)
        (high : Layout (K × V)),
      Layout.fill (slot, g) l =
        Layout.fill (slot, ⟨g'.before, (separator, high) :: g'.behind⟩) low ∧
      mergePosition (Layout.frameNode parent l.slot g) g.position = .ok g'.position ∧
      (Layout.fill (slot, g') (merged low separator high)).shape =
        Shape.merge (g.map Layout.shape) l.shape ∧ (low = l ∨ high = l) := by
  have hlength : (Layout.frameNode parent l.slot g).children.length =
      g.before.length + g.behind.length + 1 := by
    rw [Layout.frameNode, Gap.length_around, Gap.entries_map, Gap.length_entries]
    rfl
  obtain ⟨before, behind⟩ := g
  rcases behind with _ | ⟨⟨separator, sibling⟩, behind⟩
  · rcases before with _ | ⟨⟨sibling, separator⟩, before⟩
    · contradiction
    · refine ⟨⟨before, []⟩, sibling, separator, l, ?_, ?_, ?_, .inr rfl⟩
      · rw [Layout.fill, Layout.fill, Gap.entries_cons_before, Gap.around_cons_before,
          Gap.entries_cons_behind, Gap.around_cons_behind]
        rfl
      · rw [mergePosition, hlength]
        exact if_neg (Nat.lt_irrefl _)
      · rw [Layout.shape_fill, shape_merged]
        rfl
  · refine ⟨⟨before, behind⟩, l, separator, sibling, rfl, ?_, ?_, .inl rfl⟩
    · rw [mergePosition, hlength, if_pos]
      · rfl
      · show before.length + 1 < before.length + (behind.length + 1) + 1
        omega
    · rw [Layout.shape_fill, shape_merged]
      rfl

/-- Merging a node with a neighbour leaves one layout in the place of two. -/
theorem Holds.merge_eq {g : Gap (K × V) (Layout (K × V))}
    (h : t.Holds (some (Layout.plug ((slot, g) :: path) l))) (hg : 0 < g.entries.length) :
    ∃ u l' position id,
      mergePosition (Layout.frameNode (Layout.parentOf none path) l.slot g) g.position =
        .ok position ∧
      t.mergeAt slot position = .ok (u, t.arena.stock.drops [id]) ∧
      u.Holds (some (Layout.plug path l')) ∧
      l'.shape = Shape.merge (g.map Layout.shape) l.shape ∧ l'.slot = slot ∧ Alike t u ∧
      u.size = t.size ∧ u.arena.stock = t.arena.stock.store [id] := by
  obtain ⟨g', low, separator, high, hfill, hposition, hshape, -⟩ :=
    exists_neighbours slot (Layout.parentOf none path) (l := l) hg
  rw [Layout.plug, hfill] at h
  obtain ⟨u, hmerge, hholds, halike, hsize, hstock⟩ := Holds.mergeAt_eq (g := g') h
  exact ⟨u, _, g'.position, high.slot, hposition, hmerge, hholds, hshape, rfl, halike, hsize,
    hstock⟩

/-- Merging where no neighbour lends leaves one entry less in the parent, which stays regular. -/
theorem Holds.merge_spec {g : Gap (K × V) (Layout (K × V))}
    (h : t.Holds (some (Layout.plug ((slot, g) :: path) l))) (hl : l.shape.Regular t.fanout height)
    (hpath : Shape.RegularPath t.fanout height (Layout.shapes ((slot, g) :: path)))
    (hpoor : ¬ t.fanout.fewestEntries ≤ l.entries.length)
    (hleast : t.fanout.fewestEntries ≤ l.entries.length + 1)
    (hright : Shape.lendRight t.fanout (g.map Layout.shape) l.shape = none)
    (hleft : Shape.lendLeft t.fanout (g.map Layout.shape) l.shape = none) :
    ∃ u l' position id,
      mergePosition (Layout.frameNode (Layout.parentOf none path) l.slot g) g.position =
        .ok position ∧
      t.mergeAt slot position = .ok (u, t.arena.stock.drops [id]) ∧
      u.Holds (some (Layout.plug path l')) ∧
      l'.shape = Shape.merge (g.map Layout.shape) l.shape ∧ l'.slot = slot ∧
      l'.shape.Regular t.fanout (height + 1) ∧ l'.entries.length + 1 = g.entries.length ∧
      Alike t u ∧ u.size = t.size ∧ u.arena.stock = t.arena.stock.store [id] := by
  obtain ⟨hsides, hwide, -⟩ := Layout.regularPath_cons.mp hpath
  have hlength : l.shape.entries.length + 1 = t.fanout.fewestEntries := by
    rw [Layout.entries_shape]
    omega
  have hpos : 0 < (g.map Layout.shape).entries.length := by
    rw [Gap.entries_map]
    exact hwide.root.1
  obtain ⟨hregular, hless, -⟩ := Shape.merge_spec hsides hl hlength hpos hright hleft
  obtain ⟨u, l', position, id, hmerge, hmergeAt, hholds, hshape, hslot, hrest⟩ :=
    h.merge_eq hwide.root.1
  rw [Gap.entries_map, ← hshape, Layout.entries_shape] at hless
  rw [← hshape] at hregular
  exact ⟨u, l', position, id, hmerge, hmergeAt, hholds, hshape, hslot, hregular, hless, hrest⟩

/-! ### Mending -/

/-- A regular node without entries has one child at most. -/
theorem exists_heir (hl : l.shape.Regular f height) (hentries : l.entries = []) :
    ∃ heir? : Option (Layout (K × V)), l.children = heir?.toList ∧
      Shape.Stands f height (heir?.map Layout.shape) := by
  cases height with
  | zero =>
      exact ⟨none, Layout.leaf_of_level hl.level, rfl⟩
  | succ height =>
      have hlength := Layout.length_of_level hl.level
      rw [hentries] at hlength
      obtain ⟨heir, hheir⟩ := List.length_eq_one_iff.mp hlength
      have hmem : heir ∈ l.children := hheir ▸ List.mem_singleton.mpr rfl
      obtain ⟨hregular, hsize⟩ := Layout.regular_child hl hmem
      rw [← Layout.entries_shape] at hsize
      exact ⟨some heir, hheir, height, rfl, hregular, hsize.root⟩

/-- A root without entries gives way to its only child, if it has one. -/
theorem Holds.lowerRoot_empty {heir? : Option (Layout (K × V))} (h : t.Holds (some l))
    (hentries : l.entries = []) (hchildren : l.children = heir?.toList)
    (hstands : Shape.Stands f height (heir?.map Layout.shape)) :
    ∃ u, t.lowerRoot l.slot =
        .ok (u, t.arena.stock.drops [l.slot] ++ [.rootCollapsed height]) ∧
      u.Holds heir? ∧ Alike t u ∧ u.size = t.size ∧
      u.arena.stock = t.arena.stock.store [l.slot] := by
  have hstores := h.stores
  rw [cells, Layout.cells_eq, add_comm] at hstores
  obtain ⟨a, horphan, hstores, hstock⟩ := hstores.orphan
  rw [add_comm] at hstores
  obtain ⟨b, hrelease, hstores, hstock'⟩ := hstores.release
  rw [hstock] at hrelease hstock'
  have hhead : (l.children.map Layout.slot).head? = heir?.map Layout.slot := by
    rw [hchildren]
    cases heir? <;> rfl
  have hholds : Holds { t with arena := b, root := heir?.map Layout.slot } heir? := by
    refine ⟨hstores.congr ?_, rfl⟩
    rw [hchildren]
    cases heir? with
    | none => rfl
    | some heir => exact add_zero _
  have hslots : (heir?.map Layout.slot).toList = l.children.map Layout.slot := by
    rw [hchildren, Option.toList_map]
  refine ⟨_, ?_, hholds, ⟨rfl, rfl, congrArg Arena.Stock.capacity hstock'⟩, rfl, hstock'⟩
  rw [lowerRoot, h.stores.reads.node, ok_bind]
  simp only [hentries, List.isEmpty_nil, Bool.not_true, Bool.false_eq_true, if_false, hhead, hslots,
    horphan, hrelease, ok_bind, hholds.height_eq hstands]
  rfl

/-- A root that has entries stays. -/
theorem Holds.lowerRoot_full (h : t.Holds (some l)) (hentries : l.entries ≠ []) :
    t.lowerRoot l.slot = .ok (t, []) := by
  rw [lowerRoot, h.stores.reads.node, ok_bind]
  simp only [List.isEmpty_eq_false_iff.mpr hentries, Bool.not_false, if_true]
  rfl

/-- Looking at the root does what it does to the shape. -/
theorem Holds.lowerRoot_eq (h : t.Holds (some l)) (hl : l.shape.Regular f height) :
    ∃ u l?' ids, t.lowerRoot l.slot =
        .ok (u, t.arena.stock.drops ids ++ (Shape.replenish f [] l.shape).2) ∧
      u.Holds l?' ∧ l?'.map Layout.shape = (Shape.replenish f [] l.shape).1 ∧ Alike t u ∧
      u.size = t.size ∧ u.arena.stock = t.arena.stock.store ids ∧ ids.length ≤ 1 := by
  rw [Shape.replenish, Layout.entries_shape, Layout.children_shape]
  rcases hentries : l.entries with _ | ⟨entry, entries⟩
  · obtain ⟨heir?, hchildren, hstands⟩ := exists_heir hl hentries
    obtain ⟨u, hlower, hholds, halike, hsize, hstock⟩ :=
      h.lowerRoot_empty hentries hchildren hstands
    have hmap : (l.children.map Layout.shape).head? = heir?.map Layout.shape := by
      rw [hchildren]
      cases heir? <;> rfl
    refine ⟨u, heir?, [l.slot], ?_, hholds, hmap.symm, halike, hsize, hstock, Nat.le_refl 1⟩
    simp only [List.isEmpty_nil, if_true, hmap, Shape.tall_eq hstands, hlower]
  · refine ⟨t, some l, [], ?_, h, rfl, .refl t, rfl, t.arena.stock.store_nil.symm, Nat.zero_le 1⟩
    rw [t.arena.stock.drops_nil]
    exact h.lowerRoot_full (by simp [hentries])

/-- What every round of replenishing finds: only the node that is looked at may lack an entry. -/
structure Lacking (t : Tree K V) (path : List (Frame (K × V))) (l : Layout (K × V))
    (height : Nat) : Prop where
  holds : t.Holds (some (Layout.plug path l))
  regular : l.shape.Regular t.fanout height
  around : Shape.RegularPath t.fanout height (Layout.shapes path)
  least : (if path.isEmpty then 1 else t.fanout.fewestEntries) ≤ l.entries.length + 1
  most : l.entries.length ≤ t.fanout.mostEntries

/-- It does not matter how many entries are counted. -/
theorem Lacking.resize {t : Tree K V} {path : List (Frame (K × V))} {l : Layout (K × V)}
    (h : t.Lacking path l height) (size : Nat) : ({ t with size } : Tree K V).Lacking path l height :=
  ⟨⟨h.holds.stores, h.holds.root⟩, h.regular, h.around, h.least, h.most⟩

/-- Mending a node of a tree does what mending does to the shape. The slots of merged nodes and of a
dropped root are given up, on every level one at most. -/
theorem Lacking.replenish_eq {t : Tree K V} {path : List (Frame (K × V))} {l : Layout (K × V)}
    {fuel : Nat} (h : t.Lacking path l height) (hfuel : path.length < fuel) :
    ∃ u l?' ids, replenish fuel l.slot t = .ok
        (u, t.arena.stock.drops ids ++
          (Shape.replenish t.fanout (Layout.shapes path) l.shape).2) ∧
      u.Holds l?' ∧
      l?'.map Layout.shape = (Shape.replenish t.fanout (Layout.shapes path) l.shape).1 ∧
      Alike t u ∧ u.size = t.size ∧ u.arena.stock = t.arena.stock.store ids ∧
      ids.length ≤ path.length + 1 := by
  -- Only a merge goes on to the node above; its slot is given up before those from further up.
  obtain ⟨h, hl, hpath, hleast, hmost⟩ := h
  induction path generalizing t l height fuel with
  | nil =>
      obtain ⟨fuel, rfl⟩ : ∃ rest, fuel = rest + 1 := ⟨fuel - 1, by omega⟩
      obtain ⟨u, l?', ids, hlower, hholds, hshape, hrest⟩ := Holds.lowerRoot_eq (l := l) h hl
      refine ⟨u, l?', ids, ?_, hholds, hshape, hrest⟩
      rw [replenish, h.stores.reads.node_plug, ok_bind]
      exact hlower
  | cons frame path ih =>
      obtain ⟨fuel, rfl⟩ : ∃ rest, fuel = rest + 1 := ⟨fuel - 1, by omega⟩
      obtain ⟨slot, g⟩ := frame
      rw [replenish, h.stores.reads.node_plug, ok_bind, Layout.shapes_cons, Shape.replenish,
        Layout.entries_shape]
      by_cases hrich : t.fanout.fewestEntries ≤ l.entries.length
      · refine ⟨t, _, [], ?_, h, ?_, .refl t, rfl, t.arena.stock.store_nil.symm, Nat.zero_le _⟩
        · rw [t.arena.stock.drops_nil]
          simp only [Layout.parentOf, if_pos hrich]
          rfl
        · rw [if_pos hrich]
          exact congrArg some (Layout.shape_plug _ l)
      · have hposition : (Layout.frameNode (Layout.parentOf none path) l.slot g).positionOf?
            l.slot = some g.position := h.stores.positionOf_plug
        have hparent : Layout.parentOf none ((slot, g) :: path) = some slot := rfl
        simp only [hparent, if_neg hrich, h.node_above, ok_bind, hposition]
        obtain ⟨before, behind⟩ := g
        cases hright : Shape.lendRight t.fanout (Gap.map Layout.shape ⟨before, behind⟩) l.shape with
        | some above =>
            obtain ⟨u, l', hshift, hholds, rfl, halike, hsize, hstock⟩ :=
              h.shiftFromRight_some hright
            refine ⟨u, _, [], ?_, hholds, congrArg some (Layout.shape_plug path l'), halike, hsize,
              hstock.trans t.arena.stock.store_nil.symm, Nat.zero_le _⟩
            rw [t.arena.stock.drops_nil]
            simp only [Gap.position, hshift, ok_bind]
            rfl
        | none =>
            have hshift := h.shiftFromRight_none hright
            cases hleft : Shape.lendLeft t.fanout (Gap.map Layout.shape ⟨before, behind⟩)
              l.shape with
            | some above =>
                obtain ⟨u, l', hshift', hholds, rfl, halike, hsize, hstock⟩ :=
                  h.shiftFromLeft_some hpath hleft
                refine ⟨u, _, [], ?_, hholds, congrArg some (Layout.shape_plug path l'), halike,
                  hsize, hstock.trans t.arena.stock.store_nil.symm, Nat.zero_le _⟩
                rw [t.arena.stock.drops_nil]
                simp only [Gap.position, hshift, hshift', ok_bind]
                rfl
            | none =>
                have hshift' := h.shiftFromLeft_none hleft
                obtain ⟨-, hwide, hrest⟩ := Layout.regularPath_cons.mp hpath
                obtain ⟨u, l', position, id, hmerge, hmergeAt, hholds, hshape, rfl, hregular, hless,
                  halike, hsize, hstock⟩ := h.merge_spec hl hpath hrich hleast hright hleft
                have := hwide.1
                have := hwide.2
                obtain ⟨v, l?', ids, hreplenish, hholds', hshape', halike', hsize', hstock',
                  hfew⟩ := ih (by simpa using hfuel) hholds (by rwa [halike.fanout])
                    (by rwa [halike.fanout]) (by rw [halike.fanout]; omega)
                    (by rw [halike.fanout]; omega)
                rw [halike.fanout, hshape] at hreplenish hshape'
                rw [hstock] at hreplenish
                refine ⟨v, l?', [id] ++ ids, ?_, hholds', hshape', halike.trans halike',
                  hsize'.trans hsize, ?_, Nat.succ_le_succ hfew⟩
                · rw [t.arena.stock.drops_append, List.append_assoc]
                  simp only [Gap.position, hshift, hshift', ok_bind] at hmerge ⊢
                  simp only [hmerge, hmergeAt, hreplenish, ok_bind]
                  rfl
                · rw [hstock', hstock]
                  exact (t.arena.stock.store_append [id] ids).symm

end Tree

end Multiway
