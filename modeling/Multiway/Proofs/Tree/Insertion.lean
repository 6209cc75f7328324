import Multiway.Proofs.Tree.Search
import Multiway.Tree.Insertion

/-!
Inserting into a tree that holds a layout.

Each step of an insertion is shown to succeed and to leave the arena with the cells of the layout
that the step is about: cutting a node gives a second node beside it, linking puts that node into the
gap of the parent, raising puts both below a new root. `relieve` then follows the function of the
same name on shapes, by induction on the path up.

The parent of a cut node looks for the place of the new node by key. That it finds the gap through
which the path goes is where the order of the keys is needed.
-/

namespace Multiway

variable {K V : Type} {f : Fanout} {height : Nat}

namespace Node

/-- A node that branches, or is a leaf, is cut like the lists in it. -/
theorem cut_eq {entries : List (K × V)} {children : List NodeId} {parent : Option NodeId}
    {middle : Nat} (hmiddle : middle < entries.length)
    (hchildren : children = [] ∨ children.length = entries.length + 1) :
    (⟨entries, children, parent⟩ : Node K V).cut middle =
      .ok (⟨entries.take middle, children.take (middle + 1), parent⟩, entries[middle],
        ⟨entries.drop (middle + 1), children.drop (middle + 1), parent⟩) := by
  have hlength : (entries.take middle).length = middle := List.length_take_of_le (by omega)
  have hremove := removeAt_append (entries.take middle) [] entries[middle]
  rw [hlength, List.append_nil, ← List.take_succ_eq_append_getElem hmiddle] at hremove
  have hcut : cutChildren middle (⟨entries, children, parent⟩ : Node K V) =
      .ok (children.take (middle + 1), children.drop (middle + 1)) := by
    rw [cutChildren]
    rcases hchildren with rfl | hlength
    · rfl
    · rw [isLeaf, if_neg, cutAt_of_le (by show _ ≤ children.length; omega)]
      rw [List.isEmpty_iff]
      rintro (rfl : children = [])
      simp at hlength
  simp only [cut, cutAt_of_le (Nat.succ_le_of_lt hmiddle), ok_bind, hremove, hcut]
  rfl

end Node

namespace Layout

/-- The part of a node below the entry in a position, which keeps the slot. -/
def lowPart (middle : Nat) (l : Layout (K × V)) : Layout (K × V) :=
  .node l.slot (l.entries.take middle) (l.children.take (middle + 1))

/-- The part of a node above the entry in a position, in a slot of its own. -/
def highPart (middle : Nat) (slot : NodeId) (l : Layout (K × V)) : Layout (K × V) :=
  .node slot (l.entries.drop (middle + 1)) (l.children.drop (middle + 1))

@[simp] theorem slot_highPart (middle : Nat) (slot : NodeId) (l : Layout (K × V)) :
    (l.highPart middle slot).slot = slot := rfl

theorem cut_shape {middle : Nat} {l : Layout (K × V)} (h : middle < l.entries.length)
    (slot : NodeId) :
    l.shape.cut middle =
      some ((l.lowPart middle).shape, l.entries[middle], (l.highPart middle slot).shape) := by
  rw [Shape.cut, entries_shape, List.drop_eq_getElem_cons h, lowPart, highPart, shape_node,
    shape_node, children_shape, List.map_take, List.map_drop]

theorem card_parts (middle : Nat) (slot : NodeId) (parent : Option NodeId) (l : Layout (K × V)) :
    ((l.lowPart middle).cells parent + (l.highPart middle slot).cells parent).card =
      (l.cells parent).card + 1 := by
  have hsplit := allCells_take_drop (some l.slot) (middle + 1) l.children
  rw [cells_eq parent l, lowPart, highPart, cells_node, cells_node, hsplit]
  simp only [Multiset.card_add, Multiset.card_singleton]
  rw [card_allCells (some slot) (some l.slot)]
  omega

/-- The cells around a node that was cut, with both parts in its gap. -/
theorem cells_plug_parts (slot : NodeId) (g : Gap (K × V) (Layout (K × V)))
    (path : List (Frame (K × V))) (middle : Nat) (right : NodeId) (median : K × V)
    (l : Layout (K × V)) :
    (plug path (fill (slot, ⟨(l.lowPart middle, median) :: g.before, g.behind⟩)
        (l.highPart middle right))).cells none =
      {(slot, frameNode (parentOf none path) right
        ⟨(l.lowPart middle, median) :: g.before, g.behind⟩)} +
      ((l.lowPart middle).cells (some slot) + ((l.highPart middle right).cells (some slot) +
        (allCells (some slot) (g.around []) + pathCells none slot path))) := by
  have hcons := cells_plug_cons none slot ⟨(l.lowPart middle, median) :: g.before, g.behind⟩ path
    (l.highPart middle right)
  rw [plug] at hcons
  rw [hcons, Gap.around_cons_before, allCells_around, slot_highPart]
  abel

theorem card_pair (slot : NodeId) (entries : List (K × V)) (low high : Layout (K × V))
    (parent other : Option NodeId) :
    ((node slot entries [low, high]).cells parent).card =
      (low.cells other + high.cells other).card + 1 := by
  rw [cells_node, allCells_cons, allCells_cons, allCells_nil, add_zero, Multiset.card_add,
    Multiset.card_add, Multiset.card_add, Multiset.card_singleton, card_cells _ other low,
    card_cells _ other high]
  omega

end Layout

namespace Tree

variable {t : Tree K V} {rest : Multiset (NodeId × Node K V)}

/-- Cutting a node gives a second one beside it, with a new slot. -/
theorem cutNode_eq {l : Layout (K × V)} {parent : Option NodeId}
    (h : t.arena.Stores (l.cells parent + rest)) (hl : l.shape.Regular f height)
    (hmiddle : t.fanout.middle < l.entries.length) :
    ∃ right arena, t.cutNode l.slot = .ok ({ t with arena }, l.entries[t.fanout.middle], right) ∧
      arena.Stores ((l.lowPart t.fanout.middle).cells parent +
        ((l.highPart t.fanout.middle right).cells parent + rest)) ∧
      arena.capacity = t.arena.capacity ∧
      arena.slots.size = max t.arena.slots.size ((l.cells parent + rest).card + 1) := by
  obtain ⟨right, a, hacquire, hstores, hcapacity, hsize⟩ := h.acquire
  -- Both parts are written after the node was read, so the new slot must be another one.
  have hne : l.slot ≠ right := by
    have hmem : (l.slot, ⟨l.entries, l.children.map Layout.slot, parent⟩) ∈
        l.cells parent + rest := Multiset.mem_add.mpr (.inl (l.slot_mem_cells parent))
    exact hstores.ne_of_mem hmem
  have hnode := hstores.reads.right.left.node
  have hchildren : l.children.map Layout.slot = [] ∨
      (l.children.map Layout.slot).length = l.entries.length + 1 := by
    rw [List.map_eq_nil_iff, List.length_map]
    exact Layout.children_of_level hl.level
  have hcut : (⟨l.entries, l.children.map Layout.slot, parent⟩ : Node K V).cut _ = _ :=
    Node.cut_eq hmiddle hchildren
  rw [← List.map_take, ← List.map_drop] at hcut
  have hsplit := Layout.allCells_take_drop (some l.slot) (t.fanout.middle + 1) l.children
  generalize hnear : l.children.take (t.fanout.middle + 1) = near at hcut hsplit
  generalize hfar : l.children.drop (t.fanout.middle + 1) = far at hcut hsplit
  have hfront : a.Stores ({(l.slot, ⟨l.entries, l.children.map Layout.slot, parent⟩)} +
      ({(right, {})} + (Layout.allCells (some l.slot) near +
        (Layout.allCells (some l.slot) far + rest)))) := by
    apply hstores.congr
    rw [Layout.cells_eq, hsplit]
    abel
  obtain ⟨b, hlow, hstores, hstock⟩ := hfront.write
    ⟨l.entries.take t.fanout.middle, near.map Layout.slot, parent⟩
  rw [add_left_comm] at hstores
  obtain ⟨c, hhigh, hstores, hstock'⟩ := hstores.update
    (Node.extend ⟨l.entries.drop (t.fanout.middle + 1), far.map Layout.slot, parent⟩)
  rw [Node.extend_empty] at hstores
  have hupper := hstores.node
  have hfront : c.Stores (Layout.allCells (some l.slot) far +
      ({(right, ⟨l.entries.drop (t.fanout.middle + 1), far.map Layout.slot, parent⟩)} +
        ({(l.slot, ⟨l.entries.take t.fanout.middle, near.map Layout.slot, parent⟩)} +
          (Layout.allCells (some l.slot) near + rest)))) := hstores.congr (by abel)
  obtain ⟨d, hadopt, hstores, hstock''⟩ := hfront.adopt right
  have hall := (hstock''.trans hstock').trans hstock
  refine ⟨right, d, ?_, ?_, ?_, ?_⟩
  · rw [cutNode]
    simp only [hacquire, ok_bind, Arena.apart, if_neg hne, hnode, hcut, hlow, hhigh, hupper, hadopt]
    rfl
  · apply hstores.congr
    rw [Layout.lowPart, Layout.highPart, Layout.cells_node, Layout.cells_node, hnear, hfar]
    abel
  · exact (congrArg Arena.Stock.capacity hall).trans hcapacity
  · exact (congrArg Arena.Stock.size hall).trans hsize

/-- A node and its right neighbour around an entry stand in the gap in which the node stood. -/
theorem linkRight_eq {slot : NodeId} {parent : Option NodeId} {g : Gap (K × V) (Layout (K × V))}
    (low : Layout (K × V)) (median : K × V) (right : NodeId)
    (h : t.arena.Stores ({(slot, Layout.frameNode parent low.slot g)} + rest))
    (hsearch : Shape.search t.cmp median.1 g.entries = .absent g.position) :
    ∃ arena, t.linkRight slot median right = .ok { t with arena } ∧
      arena.Stores
        ({(slot, Layout.frameNode parent right ⟨(low, median) :: g.before, g.behind⟩)} + rest) ∧
      arena.stock = t.arena.stock := by
  obtain ⟨arena, hwrite, hstores, hstock⟩ := h.write
    (Layout.frameNode parent right ⟨(low, median) :: g.before, g.behind⟩)
  refine ⟨arena, ?_, hstores, hstock⟩
  have hplace : (Layout.frameNode parent low.slot g).search t.cmp median.1 =
      .absent g.position := hsearch
  have hentries : insertAt (Layout.frameNode parent low.slot g).entries g.position median =
      .ok (Layout.frameNode parent right ⟨(low, median) :: g.before, g.behind⟩).entries := by
    rw [Layout.frameNode, Layout.frameNode, Gap.entries_cons_before, ← Gap.length_low]
    exact insertAt_append ..
  have hchildren : insertAt (Layout.frameNode parent low.slot g).children (g.position + 1) right =
      .ok (Layout.frameNode parent right ⟨(low, median) :: g.before, g.behind⟩).children := by
    have hinsert := insertAt_append ((g.before.map fun pair => pair.1.slot).reverse ++ [low.slot])
      (g.behind.map fun pair => pair.2.slot) right
    simpa [Layout.frameNode, Gap.around, Gap.map, Gap.position, Function.comp_def] using hinsert
  rw [linkRight]
  simp only [h.node, ok_bind, hplace, Place.position, hentries, hchildren]
  exact congrArg (fun a => a >>= fun arena => .ok { t with arena }) hwrite

/-- The new root has two children and one entry between them. -/
theorem raiseRoot_eq {low high : Layout (K × V)} {parent : Option NodeId}
    (h : t.arena.Stores (low.cells parent + high.cells parent)) (median : K × V) :
    ∃ root arena, t.raiseRoot low.slot median high.slot =
        .ok { t with arena, root := some root } ∧
      arena.Stores ((Layout.node root [median] [low, high]).cells none) ∧
      arena.capacity = t.arena.capacity ∧
      arena.slots.size = max t.arena.slots.size ((low.cells parent + high.cells parent).card + 1) := by
  obtain ⟨root, a, hacquire, hstores, hcapacity, hsize⟩ := h.acquire
  obtain ⟨b, hwrite, hstores, hstock⟩ := hstores.update fun node =>
    { node with
      entries := node.entries ++ [median]
      children := node.children ++ [low.slot, high.slot] }
  have hfront : b.Stores (Layout.allCells parent [low, high] +
      {(root, ⟨[median], [low.slot, high.slot], none⟩)}) := by
    apply hstores.congr
    rw [Layout.allCells_cons, Layout.allCells_cons, Layout.allCells_nil, add_zero, add_comm]
    rfl
  obtain ⟨c, hadopt, hstores, hstock'⟩ := hfront.adopt root
  have hall := hstock'.trans hstock
  refine ⟨root, c, ?_, ?_, ?_, ?_⟩
  · rw [raiseRoot]
    simp only [hacquire, ok_bind, hwrite]
    exact congrArg (fun a => a >>= fun arena => .ok { t with arena, root := some root }) hadopt
  · apply hstores.congr
    rw [Layout.cells_node, add_comm]
    rfl
  · exact (congrArg Arena.Stock.capacity hall).trans hcapacity
  · exact (congrArg Arena.Stock.size hall).trans hsize

/-- The entries of a node lead its parent to the gap in which the node stands. -/
theorem search_of_mem {cmp : K → K → Ordering} [Std.TransCmp cmp] {slot : NodeId}
    {g : Gap (K × V) (Layout (K × V))} {path : List (Frame (K × V))} {l : Layout (K × V)}
    (hlist : Ascending cmp (Layout.plug ((slot, g) :: path) l).shape.toList) {entry : K × V}
    (hmem : entry ∈ l.entries) : Shape.search cmp entry.1 g.entries = .absent g.position := by
  rw [Layout.shape_plug, Layout.shapes_cons, Shape.plug, Shape.toList_plug] at hlist
  have hinner := (List.pairwise_append.mp (List.pairwise_append.mp hlist).1).2.1
  rw [← Layout.entries_shape] at hmem
  have hsplit := Shape.splits_of_mem hinner ((Shape.entries_sublist_toList l.shape).subset hmem)
  rw [Gap.low_map, Gap.high_map] at hsplit
  rw [Gap.entries, ← Gap.length_low]
  exact Shape.search_of_splits hsplit

/-- One round of `relieve` below the root: the node is cut, and its parent holds the parts. -/
theorem Holds.cutLink_eq [Std.TransCmp t.cmp] {slot : NodeId} {g : Gap (K × V) (Layout (K × V))}
    {path : List (Frame (K × V))} {l : Layout (K × V)}
    (h : t.Holds (some (Layout.plug ((slot, g) :: path) l))) (hl : l.shape.Regular f height)
    (hmiddle : t.fanout.middle < l.entries.length)
    (hlist : Ascending t.cmp (Layout.plug ((slot, g) :: path) l).shape.toList) :
    ∃ a right median u low high, t.cutNode l.slot = .ok ({ t with arena := a }, median, right) ∧
      linkRight { t with arena := a } slot median right = .ok u ∧
      l.shape.cut t.fanout.middle = some (low.shape, median, high.shape) ∧
      u.Holds (some (Layout.plug path
        (Layout.fill (slot, ⟨(low, median) :: g.before, g.behind⟩) high))) ∧
      Alike t u ∧ u.size = t.size ∧
      u.arena.slots.size = max t.arena.slots.size
        (((Layout.plug ((slot, g) :: path) l).cells none).card + 1) ∧
      ((Layout.plug path (Layout.fill (slot, ⟨(low, median) :: g.before, g.behind⟩) high)).cells
        none).card = ((Layout.plug ((slot, g) :: path) l).cells none).card + 1 := by
  have hstores := h.stores
  rw [cells, Layout.cells_plug_cons] at hstores
  obtain ⟨right, a, hcut, hstores, hcapacity, hsize⟩ := cutNode_eq hstores hl hmiddle
  have hfront : a.Stores ({(slot, Layout.frameNode (Layout.parentOf none path) l.slot g)} +
      ((l.lowPart t.fanout.middle).cells (some slot) +
        ((l.highPart t.fanout.middle right).cells (some slot) +
          (Layout.allCells (some slot) (g.around []) +
            Layout.pathCells none slot path)))) := hstores.congr (by abel)
  -- The median stands below the gap, so its key leads the parent to this gap.
  have hsearch := search_of_mem hlist (List.getElem_mem hmiddle)
  obtain ⟨b, hlink, hstores, hstock⟩ := linkRight_eq (t := { t with arena := a })
    (l.lowPart t.fanout.middle) l.entries[t.fanout.middle] right hfront hsearch
  have hcells := Layout.cells_plug_parts slot g path t.fanout.middle right
    l.entries[t.fanout.middle] l
  refine ⟨a, right, _, _, l.lowPart t.fanout.middle, l.highPart t.fanout.middle right, hcut, hlink,
    Layout.cut_shape hmiddle right, ⟨hstores.congr hcells.symm, ?_⟩, ⟨rfl, rfl, ?_⟩, rfl, ?_, ?_⟩
  · exact h.root.trans (congrArg some (Layout.slot_plug_congr path rfl))
  · exact (congrArg Arena.Stock.capacity hstock).trans hcapacity
  · rw [Layout.cells_plug_cons]
    exact (congrArg Arena.Stock.size hstock).trans hsize
  · have hparts := Layout.card_parts t.fanout.middle right (some slot) l
    rw [Multiset.card_add] at hparts
    rw [hcells, Layout.cells_plug_cons]
    simp only [Multiset.card_add, Multiset.card_singleton]
    omega

/-- The round at the root: the parts stand below a new root. -/
theorem Holds.cutRaise_eq {l : Layout (K × V)} (h : t.Holds (some l))
    (hl : l.shape.Regular f height) (hmiddle : t.fanout.middle < l.entries.length) :
    ∃ a right median u low high root,
      t.cutNode l.slot = .ok ({ t with arena := a }, median, right) ∧
      raiseRoot { t with arena := a } l.slot median right = .ok u ∧
      l.shape.cut t.fanout.middle = some (low.shape, median, high.shape) ∧
      u.Holds (some (Layout.node root [median] [low, high])) ∧ Alike t u ∧ u.size = t.size ∧
      u.arena.slots.size = max t.arena.slots.size ((l.cells none).card + 2) ∧
      ((Layout.node root [median] [low, high]).cells none).card = (l.cells none).card + 2 := by
  have hstores : t.arena.Stores (l.cells none + 0) := h.stores.congr (add_zero _).symm
  obtain ⟨right, a, hcut, hstores, hcapacity, hsize⟩ := cutNode_eq hstores hl hmiddle
  rw [add_zero] at hstores hsize
  obtain ⟨root, b, hraise, hstores, hcapacity', hsize'⟩ :=
    raiseRoot_eq (t := { t with arena := a }) hstores l.entries[t.fanout.middle]
  have hparts := Layout.card_parts t.fanout.middle right none l
  refine ⟨a, right, _, _, l.lowPart t.fanout.middle, l.highPart t.fanout.middle right, root, hcut,
    hraise, Layout.cut_shape hmiddle right, ⟨hstores, rfl⟩, ⟨rfl, rfl, ?_⟩, rfl, ?_, ?_⟩
  · exact hcapacity'.trans hcapacity
  · show b.slots.size = _
    rw [hsize', hparts]
    show max a.slots.size _ = _
    rw [hsize]
    omega
  · rw [Layout.card_pair _ _ _ _ _ none, hparts]

theorem relieve_of_le {path : List (Frame (K × V))} {l : Layout (K × V)} {fuel : Nat}
    (h : t.Holds (some (Layout.plug path l))) (hfits : l.entries.length ≤ t.fanout.mostEntries) :
    relieve fuel l.slot t = .ok (t, []) := by
  rw [relieve, h.stores.reads.node_plug, ok_bind]
  exact if_pos hfits

/-- A root that is too full is cut, and a new root is raised above the parts. -/
theorem relieve_root {l : Layout (K × V)} {fuel : Nat} (h : t.Holds (some l))
    (hl : l.shape.Regular t.fanout height) (hfits : ¬ l.entries.length ≤ t.fanout.mostEntries)
    (hleast : 1 ≤ l.entries.length) (hmost : l.entries.length ≤ t.fanout.order) :
    ∃ u l', relieve (fuel + 1) l.slot t = .ok (u, (Shape.relieve t.fanout [] l.shape).2) ∧
      u.Holds (some l') ∧ l'.shape = (Shape.relieve t.fanout [] l.shape).1 ∧
      Alike t u ∧ u.size = t.size ∧ (l.cells none).card ≤ (l'.cells none).card ∧
      u.arena.slots.size = max t.arena.slots.size (l'.cells none).card := by
  have hfull : ¬ l.shape.entries.length ≤ t.fanout.mostEntries := by
    rwa [Layout.entries_shape]
  obtain ⟨a, right, median, u, low, high, root, hcut, hraise, hshape, hu, halike, hsame, hsize,
    hcard⟩ := h.cutRaise_eq hl (t.fanout.middle_lt hfits)
  have hrelieve := Shape.relieve_nil hfull hshape
  have hnew : (Layout.node root [median] [low, high]).shape =
      (Shape.relieve t.fanout [] l.shape).1 := by
    rw [hrelieve, Layout.shape_node]
    rfl
  have hpath : Shape.RegularPath t.fanout height (Layout.shapes ([] : List (Frame (K × V)))) :=
    trivial
  obtain ⟨-, hspec⟩ := Shape.relieve_spec hl hpath (by rwa [Layout.entries_shape])
    (by rwa [Layout.entries_shape])
  rw [Layout.shapes_nil] at hspec
  rcases hspec with ⟨-, hevents⟩ | ⟨hsound, hevents⟩
  · rw [hrelieve] at hevents
    contradiction
  · have hheight := hu.height_eq ⟨_, rfl, hnew ▸ hsound⟩
    refine ⟨u, _, ?_, hu, hnew, halike, hsame, ?_, ?_⟩
    · have hnode := h.stores.reads.node
      rw [relieve, hnode, ok_bind]
      simp only [if_neg hfits, hcut, ok_bind, hraise, hheight, hevents]
      rfl
    · omega
    · rw [hcard]
      exact hsize

/-- A tree in the middle of an insertion. The node at the end of the path may have one entry too
many, and apart from that all is in order. -/
structure Filling (t : Tree K V) (path : List (Frame (K × V))) (l : Layout (K × V)) (height : Nat) :
    Prop where
  holds : t.Holds (some (Layout.plug path l))
  regular : l.shape.Regular t.fanout height
  around : Shape.RegularPath t.fanout height (Layout.shapes path)
  least : (if path.isEmpty then 1 else t.fanout.fewestEntries) ≤ l.entries.length
  most : l.entries.length ≤ t.fanout.order
  ascending : Ascending t.cmp (Layout.plug path l).shape.toList

/-- After a cut the node above is the one that may be too full, in another tree and one level
higher. -/
theorem Filling.cutLink [Std.TransCmp t.cmp] {slot : NodeId} {g : Gap (K × V) (Layout (K × V))}
    {path : List (Frame (K × V))} {l : Layout (K × V)} (h : t.Filling ((slot, g) :: path) l height)
    (hfits : ¬ l.entries.length ≤ t.fanout.mostEntries) :
    ∃ a right median u low high, t.cutNode l.slot = .ok ({ t with arena := a }, median, right) ∧
      linkRight { t with arena := a } slot median right = .ok u ∧
      l.shape.cut t.fanout.middle = some (low.shape, median, high.shape) ∧
      u.Filling path (Layout.fill (slot, ⟨(low, median) :: g.before, g.behind⟩) high) (height + 1) ∧
      Alike t u ∧ u.size = t.size ∧
      u.arena.slots.size = max t.arena.slots.size
        (((Layout.plug ((slot, g) :: path) l).cells none).card + 1) ∧
      ((Layout.plug path (Layout.fill (slot, ⟨(low, median) :: g.before, g.behind⟩) high)).cells
        none).card = ((Layout.plug ((slot, g) :: path) l).cells none).card + 1 := by
  have hfull : ¬ l.shape.entries.length ≤ t.fanout.mostEntries := by
    rwa [Layout.entries_shape]
  obtain ⟨a, right, median, u, low, high, hcut, hlink, hshape, hu, halike, hsame, hsize, hcard⟩ :=
    h.holds.cutLink_eq h.regular (t.fanout.middle_lt hfits) h.ascending
  obtain ⟨low', median', high', hcut', hjoin, hlow, hhigh⟩ := Shape.exists_cut_middle h.regular
    (Nat.le_antisymm (by rw [Layout.entries_shape]; exact h.most) (Fanout.order_le hfull))
  rw [hshape, Option.some.injEq, Prod.mk.injEq, Prod.mk.injEq] at hcut'
  obtain ⟨rfl, rfl, rfl⟩ := hcut'
  obtain ⟨hsides, hwide, hrest⟩ := Layout.regularPath_cons.mp h.around
  let g' : Gap (K × V) (Layout (K × V)) := ⟨(low, median) :: g.before, g.behind⟩
  have habove : (Layout.fill (slot, g') high).shape = Shape.fill
      ⟨(low.shape, median) :: (g.map Layout.shape).before, (g.map Layout.shape).behind⟩
      high.shape := Layout.shape_fill ..
  have hentries : (Layout.fill (slot, g') high).entries.length = g.entries.length + 1 := by
    show g'.entries.length = _
    simp only [g', Gap.length_entries, List.length_cons]
    omega
  have hkept : (Layout.plug path (Layout.fill (slot, g') high)).shape.toList =
      (Layout.plug ((slot, g) :: path) l).shape.toList := by
    rw [Layout.shape_plug, Layout.shape_plug, habove, Layout.shapes_cons, Shape.plug,
      Shape.toList_plug, Shape.toList_plug, Shape.toList_fill_before hlow.1 hhigh.1, hjoin]
  refine ⟨a, right, median, u, low, high, hcut, hlink, hshape, ?_, halike, hsame, hsize, hcard⟩
  constructor
  case holds => exact hu
  case regular =>
    rw [habove, halike.fanout]
    exact Shape.regular_fill_cut hsides hlow hhigh
  case around => rwa [halike.fanout]
  case least =>
    rw [hentries, halike.fanout]
    exact Nat.le_succ_of_le hwide.1
  case most =>
    rw [hentries, halike.fanout]
    exact Fanout.succ_le_order hwide.2
  case ascending =>
    rw [hkept, halike.cmp]
    exact h.ascending

/-- Whatever a round has done, the tree is filling again, from the node above on. -/
theorem Filling.above {t u v : Tree K V} [Std.TransCmp t.cmp] {path : List (Frame (K × V))}
    {l : Layout (K × V)} {node : Node K V} {parent right : NodeId} {median : K × V}
    (h : t.Filling path l height) (hnode : t.arena.node l.slot = .ok node)
    (hfull : ¬ node.entries.length ≤ t.fanout.mostEntries)
    (hcut : t.cutNode l.slot = .ok (u, median, right)) (hparent : node.parent = some parent)
    (hlink : u.linkRight parent median right = .ok v) :
    ∃ path' l', v.Filling path' l' (height + 1) ∧ l'.slot = parent ∧ Alike t v ∧
      path.length = path'.length + 1 ∧
      v.arena.slots.size = max t.arena.slots.size
        (((Layout.plug path l).cells none).card + 1) ∧
      ((Layout.plug path' l').cells none).card = ((Layout.plug path l).cells none).card + 1 := by
  obtain rfl := Except.ok.inj (h.holds.stores.reads.node_plug.symm.trans hnode)
  cases path with
  | nil => contradiction
  | cons frame path =>
      obtain ⟨slot, g⟩ := frame
      obtain rfl := Option.some.inj hparent
      obtain ⟨a, right', median', w, low, high, hcut', hlink', -, hnext, halike, -, hsize,
        hcard⟩ := h.cutLink hfull
      obtain ⟨rfl, heq⟩ := Prod.mk.inj (Except.ok.inj (hcut'.symm.trans hcut))
      obtain ⟨rfl, rfl⟩ := Prod.mk.inj heq
      obtain rfl := Except.ok.inj (hlink'.symm.trans hlink)
      exact ⟨path, _, hnext, rfl, halike, rfl, hsize, hcard⟩

/-- Relieving a node of a tree does what relieving does to the shape. The arena grows only as far as
the nodes need it. -/
theorem relieve_eq {t : Tree K V} [Std.TransCmp t.cmp] {path : List (Frame (K × V))}
    {l : Layout (K × V)} {fuel : Nat} (h : t.Filling path l height) (hfuel : path.length < fuel) :
    ∃ u l', relieve fuel l.slot t =
        .ok (u, (Shape.relieve t.fanout (Layout.shapes path) l.shape).2) ∧
      u.Holds (some l') ∧ l'.shape = (Shape.relieve t.fanout (Layout.shapes path) l.shape).1 ∧
      Alike t u ∧ u.size = t.size ∧
      ((Layout.plug path l).cells none).card ≤ (l'.cells none).card ∧
      u.arena.slots.size = max t.arena.slots.size (l'.cells none).card := by
  -- Each cut leaves the same situation one level higher, so the induction is on the path.
  induction path generalizing t l height fuel with
  | nil =>
      obtain ⟨fuel, rfl⟩ : ∃ rest, fuel = rest + 1 := ⟨fuel - 1, by omega⟩
      by_cases hfits : l.entries.length ≤ t.fanout.mostEntries
      · rw [Shape.relieve_of_le (by rwa [Layout.entries_shape]), relieve_of_le h.holds hfits]
        exact ⟨t, l, rfl, h.holds, rfl, .refl t, rfl, Nat.le_refl _,
          (Nat.max_eq_left h.holds.card_le).symm⟩
      · exact relieve_root h.holds h.regular hfits h.least h.most
  | cons frame path ih =>
      obtain ⟨fuel, rfl⟩ : ∃ rest, fuel = rest + 1 := ⟨fuel - 1, by omega⟩
      by_cases hfits : l.entries.length ≤ t.fanout.mostEntries
      · rw [Shape.relieve_of_le (by rwa [Layout.entries_shape]), relieve_of_le h.holds hfits]
        exact ⟨t, _, rfl, h.holds, Layout.shape_plug _ l, .refl t, rfl, Nat.le_refl _,
          (Nat.max_eq_left h.holds.card_le).symm⟩
      · have hfull : ¬ l.shape.entries.length ≤ t.fanout.mostEntries := by
          rwa [Layout.entries_shape]
        obtain ⟨slot, g⟩ := frame
        obtain ⟨a, right, median, u, low, high, hcut, hlink, hshape, hu, halike, hsame, hsize,
          hcard⟩ := h.cutLink hfits
        have := halike.transCmp
        obtain ⟨v, l', hrelieve, hv, hnew, halike', hsame', hle, hgrown⟩ :=
          ih hu (by simpa using hfuel)
        rw [halike.fanout] at hrelieve hnew
        rw [Layout.shape_fill] at hrelieve hnew
        rw [Layout.shapes_cons, Shape.relieve_cons hfull hshape]
        refine ⟨v, l', ?_, hv, hnew, halike.trans halike', hsame'.trans hsame, ?_, ?_⟩
        · rw [relieve, h.holds.stores.reads.node_plug, ok_bind]
          simp only [if_neg hfits, hcut, ok_bind, Layout.parentOf, hlink]
          exact hrelieve
        · omega
        · rw [hgrown, hsize]
          omega

/-! ### Storing a value -/

/-- The first entry is put into a leaf that becomes the root. -/
theorem Sound.plant_eq {t : Tree K V} (h : t.Sound none) (key : K) (value : V) :
    ∃ u slot, t.plant key value = .ok u ∧
      u.Holds (some (Layout.node slot [(key, value)] [])) ∧ Alike t u ∧ u.size = 1 ∧
      u.arena.slots.size = max t.arena.slots.size 1 := by
  obtain ⟨slot, a, hacquire, hstores, hcapacity, hsize⟩ := h.holds.stores.acquire
  obtain ⟨b, hwrite, hstores, hstock⟩ := hstores.update fun node =>
    { node with entries := node.entries ++ [(key, value)] }
  refine ⟨{ t with arena := b, root := some slot, size := 1 }, slot, ?_, ⟨hstores.congr ?_, rfl⟩,
    ⟨rfl, rfl, (congrArg Arena.Stock.capacity hstock).trans hcapacity⟩, rfl, ?_⟩
  · rw [plant]
    simp only [hacquire, ok_bind, hwrite]
    rfl
  · rw [cells, cells, Layout.cells_node]
    rfl
  · exact (congrArg Arena.Stock.size hstock).trans hsize

/-- Under a key that is there, storing is changing the value. -/
theorem insert_eq_modify {root id : NodeId} {position : Nat} {key : K} {value : V}
    (hroot : t.root = some root)
    (hdescend : t.descend key t.bound root = .ok (id, .found position)) :
    t.insert key value = t.modify key fun _ => value := by
  rw [modify, find?_of_found hroot hdescend, Tree.insert, hroot]
  simp only [hdescend, ok_bind]

/-- The entry is put into the leaf in which the search has ended. -/
theorem Sound.exists_filling {t : Tree K V} [Std.TransCmp t.cmp] {path : List (Frame (K × V))}
    {leaf : Layout (K × V)} {low high : List (K × V)} {key : K}
    (h : t.Sound (some (Layout.plug path leaf))) (hheight : height = path.length)
    (hsound : (Layout.plug path leaf).shape.Sound t.fanout height) (hleaf : leaf.children = [])
    (hentries : leaf.entries = low ++ high)
    (hsplit : Splits t.cmp key (Shape.leads (Layout.shapes path) ++ low)
      (high ++ Shape.trails (Layout.shapes path))) (value : V) :
    ∃ arena fuller, t.arena.write leaf.slot ⟨low ++ (key, value) :: high,
        leaf.children.map Layout.slot, Layout.parentOf none path⟩ = .ok arena ∧
      fuller.slot = leaf.slot ∧ fuller.shape = .node (low ++ (key, value) :: high) [] ∧
      Filling { t with arena, size := t.size + 1 } path fuller 0 ∧
      arena.stock = t.arena.stock := by
  obtain ⟨rest, hrest, -, hwide, hpath⟩ := Layout.sound_plug hsound
  obtain rfl : rest = 0 := by omega
  obtain ⟨a, hwrite, hstores, hstock⟩ := h.holds.stores.write_entries_plug
    (low ++ (key, value) :: high)
  generalize hfuller : leaf.withEntries (low ++ (key, value) :: high) = fuller at hstores
  have hslot : fuller.slot = leaf.slot := hfuller ▸ rfl
  have hshape : fuller.shape = .node (low ++ (key, value) :: high) [] := by
    rw [← hfuller, Layout.shape_withEntries, Layout.children_shape, hleaf, List.map_nil]
  have hlength : fuller.entries.length = leaf.entries.length + 1 := by
    rw [← Layout.entries_shape, hshape, hentries, Shape.entries_node]
    simp only [List.length_append, List.length_cons]
    omega
  refine ⟨a, fuller, hwrite, hslot, hshape, ?_, hstock⟩
  constructor
  case holds =>
    exact ⟨hstores, h.holds.root.trans (congrArg some (Layout.slot_plug_congr path hslot).symm)⟩
  case regular =>
    rw [hshape]
    rfl
  case around => exact hpath
  case least =>
    rw [hlength]
    exact Nat.le_succ_of_le hwide.1
  case most =>
    rw [hlength]
    exact Fanout.succ_le_order hwide.2
  case ascending =>
    have hbefore := h.ascending
    rw [Option.map_some, Shape.contents_some, Layout.toList_plug_leaf hleaf hentries] at hbefore
    rw [Layout.shape_plug, hshape, Shape.toList_plug_leaf]
    exact hbefore.insert hsplit

/-- A key that is not there makes a leaf fuller, and the leaf is relieved. -/
theorem Sound.insert_absent {t : Tree K V} [Std.TransCmp t.cmp] {path : List (Frame (K × V))}
    {leaf : Layout (K × V)} {low high : List (K × V)} {key : K}
    (h : t.Sound (some (Layout.plug path leaf))) (hheight : height = path.length)
    (hsound : (Layout.plug path leaf).shape.Sound t.fanout height) (hleaf : leaf.children = [])
    (hentries : leaf.entries = low ++ high)
    (hsplit : Splits t.cmp key (Shape.leads (Layout.shapes path) ++ low)
      (high ++ Shape.trails (Layout.shapes path)))
    (hdescend : t.descend key t.bound (Layout.plug path leaf).slot =
      .ok (leaf.slot, .absent low.length)) (value : V) :
    ∃ u l', t.insert key value = .ok ⟨none, u, (Shape.relieve t.fanout (Layout.shapes path)
        (.node (low ++ (key, value) :: high) [])).2⟩ ∧
      u.Holds (some l') ∧
      l'.shape = (Shape.relieve t.fanout (Layout.shapes path)
        (.node (low ++ (key, value) :: high) [])).1 ∧
      Alike t u ∧ u.size = t.size + 1 ∧
      ((Layout.plug path leaf).cells none).card ≤ (l'.cells none).card ∧
      u.arena.slots.size = max t.arena.slots.size (l'.cells none).card := by
  obtain ⟨a, fuller, hwrite, hslot, hshape, hfilling, hstock⟩ :=
    h.exists_filling hheight hsound hleaf hentries hsplit value
  have hcard := h.holds.stores.card_congr hfilling.holds.stores hstock
  obtain ⟨u, l', hrelieve, hu, hnew, halike, hsame, hle, hgrown⟩ :=
    relieve_eq hfilling h.holds.length_lt
  rw [hshape] at hrelieve hnew
  refine ⟨u, l', ?_, hu, hnew, ⟨halike.cmp, halike.fanout, ?_⟩, hsame, ?_, ?_⟩
  · have hnode := h.holds.stores.reads.node_plug
    rw [hslot] at hrelieve
    rw [hentries] at hnode
    rw [Tree.insert]
    simp only [h.holds.root, Option.map_some, hdescend, ok_bind, hnode, insertAt_append,
      hwrite] at hrelieve ⊢
    rw [hrelieve]
    rfl
  · exact halike.capacity.trans (congrArg Arena.Stock.capacity hstock)
  · exact Nat.le_trans (Nat.le_of_eq hcard.symm) hle
  · rw [hgrown]
    exact congrArg (max · _) (congrArg Arena.Stock.size hstock)

/-- Storing a value does to the shape what it says. -/
theorem Sound.insert_eq {t : Tree K V} [Std.TransCmp t.cmp] {l? : Option (Layout (K × V))}
    (h : t.Sound l?) (key : K) (value : V) :
    ∃ u l', t.insert key value = .ok
        ⟨(Entries.find? t.cmp key (Shape.contents (l?.map Layout.shape))).map Prod.snd, u,
          (Shape.put t.fanout t.cmp key value (l?.map Layout.shape)).2⟩ ∧
      u.Holds (some l') ∧
      l'.shape = (Shape.put t.fanout t.cmp key value (l?.map Layout.shape)).1 ∧
      u.size = (Entries.store t.cmp key value (Shape.contents (l?.map Layout.shape))).length ∧
      Alike t u ∧ (cells l?).card ≤ (cells (some l')).card ∧
      u.arena.slots.size = max t.arena.slots.size (cells (some l')).card := by
  cases l? with
  | none =>
      obtain ⟨u, slot, hplant, hholds, halike, hsize, hgrown⟩ := h.plant_eq key value
      refine ⟨u, _, ?_, hholds, Layout.shape_node .., hsize, halike, Nat.zero_le _, ?_⟩
      · rw [Tree.insert, h.holds.root]
        simp only [Option.map_none, hplant, ok_bind]
        rfl
      · rw [hgrown, cells, Layout.cells_node]
        rfl
  | some l =>
      obtain ⟨tall, hstands⟩ := h.stands
      obtain ⟨height, -, hsound⟩ := id hstands
      have hlist := h.ascending
      have hsize := h.size_eq
      simp only [Option.map_some, Shape.contents_some] at hlist hsize ⊢
      rcases h.holds.search_cases hsound hlist key with
        ⟨path, focus, rest, low, entry, high, -, rfl, hshape, hlow, hhigh, hkey, hwalk, hsearch,
          hdescend⟩ |
        ⟨path, leaf, low, high, hheight, rfl, hleaf, hentries, hsplit, hwalk, hsearch, hdescend⟩
      · have hput : Shape.put t.fanout t.cmp key value (some (Layout.plug path focus).shape) =
            (Shape.revise t.cmp key (fun _ => value) (Layout.plug path focus).shape, []) := by
          simp only [Shape.put, hwalk, hsearch]
        have hfind : Entries.find? t.cmp key (Layout.plug path focus).shape.toList =
            some entry := by
          rw [Layout.shape_plug, hshape, Shape.toList_plug_join entry hlow hhigh] at hlist ⊢
          exact (hlist.splits hkey).find?_of_eq hkey
        obtain ⟨u, l?', hmodify, hholds, hrevised, halike, hsame, hstock⟩ :=
          h.holds.modify_eq hstands h.ascending key fun _ => value
        obtain ⟨l', rfl, hl'⟩ := Option.map_eq_some_iff.mp hrevised
        have hcard := h.holds.stores.card_congr hholds.stores hstock
        rw [hput, insert_eq_modify h.holds.root hdescend, hmodify]
        refine ⟨u, l', rfl, hholds, hl', ?_, halike, Nat.le_of_eq hcard.symm, ?_⟩
        · rw [hsame, hsize, hlist.length_store, if_pos (by rw [hfind]; rfl)]
        · rw [hcard, show u.arena.slots.size = _ from congrArg Arena.Stock.size hstock]
          exact (Nat.max_eq_left h.holds.card_le).symm
      · have hput : Shape.put t.fanout t.cmp key value (some (Layout.plug path leaf).shape) =
            Shape.relieve t.fanout (Layout.shapes path)
              (.node (low ++ (key, value) :: high) []) := by
          simp only [Shape.put, hwalk, Shape.entries_node, hsearch, Shape.children_node,
            insertIdx_length_append]
        have hfind : Entries.find? t.cmp key (Layout.plug path leaf).shape.toList = none := by
          rw [Layout.toList_plug_leaf hleaf hentries]
          exact hsplit.find?_of_absent
        obtain ⟨u, l', hinsert, hholds, hshape, halike, hsame, hle, hgrown⟩ :=
          h.insert_absent hheight hsound hleaf hentries hsplit hdescend value
        rw [hput, hfind]
        refine ⟨u, l', hinsert, hholds, hshape, ?_, halike, hle, hgrown⟩
        rw [hsame, hsize, hlist.length_store, if_neg (by rw [hfind]; exact Bool.false_ne_true)]

/-- Storing a value keeps the invariant. The arena grows only as far as the nodes need it. -/
theorem Sound.insert {t : Tree K V} [Std.TransCmp t.cmp] {l? : Option (Layout (K × V))}
    (h : t.Sound l?) (key : K) (value : V) :
    ∃ u l', t.insert key value = .ok
        ⟨(Entries.find? t.cmp key (Shape.contents (l?.map Layout.shape))).map Prod.snd, u,
          (Shape.put t.fanout t.cmp key value (l?.map Layout.shape)).2⟩ ∧
      u.Sound (some l') ∧
      l'.shape = (Shape.put t.fanout t.cmp key value (l?.map Layout.shape)).1 ∧
      l'.shape.toList =
        Entries.store t.cmp key value (Shape.contents (l?.map Layout.shape)) ∧
      Alike t u ∧ (cells l?).card ≤ (cells (some l')).card ∧
      u.arena.slots.size = max t.arena.slots.size (cells (some l')).card := by
  obtain ⟨tall, hstands⟩ := h.stands
  obtain ⟨hlist, tall', hstands', hevents⟩ := Shape.put_spec hstands h.ascending key value
  obtain ⟨u, l', hinsert, hholds, hshape, hsize, halike, hle, hgrown⟩ := h.insert_eq key value
  refine ⟨u, l', hinsert, ⟨hholds, ⟨tall', ?_⟩, ?_, ?_⟩, hshape, hshape ▸ hlist, halike, hle,
    hgrown⟩
  · rw [halike.fanout, Option.map_some, hshape]
    exact hstands'
  · rw [halike.cmp, Option.map_some, Shape.contents_some, hshape, hlist]
    exact h.ascending.store key value
  · rw [Option.map_some, Shape.contents_some, hshape, hlist, hsize]

end Tree

end Multiway
