import Multiway.Proofs.Arena.Cells
import Multiway.Proofs.Shape.Regular

/-!
Shapes with node numbers.

A layout is a shape in which every node has its slot. It is what an arena has to say about a tree:
`cells` lists the slots of a layout with the nodes that belong in them, and an arena that stores
these cells can be read as the layout. An operation of a tree is then described twice, by a function
on shapes that says what happens and by a statement that the arena ends up with the cells of a
layout of the new shape. Which slots the new nodes got is left open there.

Paths are the same as in shapes, with the slot of every node they pass. Since the cells of a plugged
layout are those of the layout and those of the path, all work at the end of a path leaves the path
alone.
-/

namespace Multiway

/-- Nodes with their slots and, in place of the numbers of their children, the children. -/
inductive Layout (α : Type) where
  | node (slot : NodeId) (entries : List α) (children : List (Layout α))

/-- A node on a path, and the gap through which the path goes. -/
abbrev Frame (α : Type) := NodeId × Gap α (Layout α)

namespace Layout

variable {α K V β : Type} {f : Fanout} {height : Nat}

/-- The slot of the topmost node. -/
def slot : Layout α → NodeId
  | .node slot _ _ => slot

/-- The entries of the topmost node. -/
def entries : Layout α → List α
  | .node _ entries _ => entries

/-- The layouts below the topmost node. -/
def children : Layout α → List (Layout α)
  | .node _ _ children => children

/-- A layout without its slots. -/
def shape : Layout α → Shape α
  | .node _ entries children => .node entries (children.map fun child => child.shape)

/-- The slots of a layout with their nodes, when the topmost node has some parent. -/
def cells (parent : Option NodeId) : Layout (K × V) → Multiset (NodeId × Node K V)
  | .node slot entries children =>
    {(slot, ⟨entries, children.map Layout.slot, parent⟩)} +
      (children.map fun child => child.cells (some slot)).sum

/-- The cells of several layouts that have one parent. -/
def allCells (parent : Option NodeId) (layouts : List (Layout (K × V))) :
    Multiset (NodeId × Node K V) :=
  (layouts.map (cells parent)).sum

/-- The node around a gap. -/
def fill (frame : Frame α) (l : Layout α) : Layout α :=
  .node frame.1 frame.2.entries (frame.2.around [l])

/-- A layout put back into the path that leads to it. -/
def plug : List (Frame α) → Layout α → Layout α
  | [], l => l
  | frame :: path, l => plug path (fill frame l)

/-- A path without its slots. -/
def shapes (path : List (Frame α)) : List (Gap α (Shape α)) :=
  path.map fun frame => frame.2.map shape

/-- The parent of what stands at the end of a path. -/
def parentOf (top : Option NodeId) : List (Frame α) → Option NodeId
  | [] => top
  | frame :: _ => some frame.1

/-- The node of a frame when a slot stands in the gap. -/
def frameNode (parent : Option NodeId) (hole : NodeId) (g : Gap (K × V) (Layout (K × V))) :
    Node K V :=
  ⟨g.entries, (g.map slot).around [hole], parent⟩

/-- The cells of a path with a slot at its end. -/
def pathCells (top : Option NodeId) (hole : NodeId) :
    List (Frame (K × V)) → Multiset (NodeId × Node K V)
  | [] => 0
  | frame :: path =>
    {(frame.1, frameNode (parentOf top path) hole frame.2)} +
      allCells (some frame.1) (frame.2.around []) + pathCells top frame.1 path

/-- To prove something of all layouts it is enough to prove it of a node whose children have it. -/
theorem induct {motive : Layout α → Prop}
    (h : ∀ slot entries children, (∀ child ∈ children, motive child) →
      motive (.node slot entries children)) : ∀ l, motive l
  | .node slot entries children => h slot entries children fun child _ => induct h child

theorem itemAt_frameNode (parent : Option NodeId) (hole : NodeId)
    (g : Gap (K × V) (Layout (K × V))) :
    itemAt (frameNode parent hole g).children g.position = .ok hole := by
  have hget := Gap.getElem?_around (g.map slot) hole []
  rw [Gap.position_map] at hget
  rw [itemAt, show (frameNode parent hole g).children[g.position]? = some hole from hget]

theorem isLeaf_of_leaf {l : Layout (K × V)} (hleaf : l.children = []) (parent : Option NodeId) :
    (⟨l.entries, l.children.map slot, parent⟩ : Node K V).isLeaf = true := by
  rw [Node.isLeaf, hleaf]
  rfl

theorem isLeaf_of_inner {l : Layout (K × V)} (h : l.children.length = l.entries.length + 1)
    (parent : Option NodeId) :
    (⟨l.entries, l.children.map slot, parent⟩ : Node K V).isLeaf = false := by
  rw [Node.isLeaf, List.isEmpty_eq_false_iff]
  exact List.ne_nil_of_length_eq_add_one ((List.length_map _).trans h)

theorem isLeaf_frameNode (parent : Option NodeId) (hole : NodeId)
    (g : Gap (K × V) (Layout (K × V))) : (frameNode parent hole g).isLeaf = false := by
  rw [Node.isLeaf, List.isEmpty_eq_false_iff]
  apply List.ne_nil_of_length_pos
  rw [frameNode, Gap.length_around, List.length_singleton]
  exact Nat.succ_pos _

/-! ### Shapes of layouts -/

theorem shape_node (slot : NodeId) (entries : List α) (children : List (Layout α)) :
    (node slot entries children).shape = .node entries (children.map shape) := by
  rw [shape]

@[simp] theorem entries_shape (l : Layout α) : l.shape.entries = l.entries := by
  cases l
  rw [shape_node]
  rfl

@[simp] theorem children_shape (l : Layout α) : l.shape.children = l.children.map shape := by
  cases l
  rw [shape_node]
  rfl

theorem eq_of_shape {l : Layout α} {entries : List α} (h : l.shape = .node entries []) :
    l.entries = entries ∧ l.children = [] := by
  refine ⟨?_, ?_⟩
  · rw [← entries_shape, h]
    rfl
  · rw [← List.map_eq_nil_iff, ← children_shape, h]
    rfl

theorem shape_of_leaf {l : Layout α} (h : l.children = []) : l.shape = .node l.entries [] := by
  rw [← Shape.node_entries_children l.shape, entries_shape, children_shape, h, List.map_nil]

theorem toList_of_leaf {l : Layout α} (h : l.children = []) : l.shape.toList = l.entries := by
  rw [shape_of_leaf h, Shape.toList_node, Shape.interleave_nil]

@[simp] theorem shapes_nil : shapes ([] : List (Frame α)) = [] := rfl

@[simp] theorem shapes_cons (frame : Frame α) (path : List (Frame α)) :
    shapes (frame :: path) = frame.2.map shape :: shapes path := rfl

theorem shapes_append (path up : List (Frame α)) :
    shapes (path ++ up) = shapes path ++ shapes up := List.map_append

@[simp] theorem length_shapes (path : List (Frame α)) : (shapes path).length = path.length :=
  List.length_map _

theorem isEmpty_shapes (path : List (Frame α)) : (shapes path).isEmpty = path.isEmpty :=
  List.isEmpty_map

@[simp] theorem slot_fill (frame : Frame α) (l : Layout α) : (fill frame l).slot = frame.1 := rfl

theorem shape_fill (frame : Frame α) (l : Layout α) :
    (fill frame l).shape = Shape.fill (frame.2.map shape) l.shape := by
  rw [fill, shape_node, Shape.fill, Gap.entries_map, ← List.map_singleton, Gap.around_map]

theorem shape_plug (path : List (Frame α)) (l : Layout α) :
    (plug path l).shape = Shape.plug (shapes path) l.shape := by
  induction path generalizing l with
  | nil => rfl
  | cons frame path ih => rw [plug, ih, shape_fill, shapes_cons, Shape.plug]

theorem plug_append (path up : List (Frame α)) (l : Layout α) :
    plug (path ++ up) l = plug up (plug path l) := by
  induction path generalizing l with
  | nil => rfl
  | cons frame path ih => exact ih (fill frame l)

theorem toList_plug_leaf {path : List (Frame α)} {l : Layout α} {low high : List α}
    (hleaf : l.children = []) (hentries : l.entries = low ++ high) :
    (plug path l).shape.toList =
      (Shape.leads (shapes path) ++ low) ++ (high ++ Shape.trails (shapes path)) := by
  rw [shape_plug, Shape.toList_plug, toList_of_leaf hleaf, hentries]
  simp

/-- Only the slot of what stands at its end matters to the topmost slot. -/
theorem slot_plug_congr (path : List (Frame α)) {l l' : Layout α} (h : l'.slot = l.slot) :
    (plug path l').slot = (plug path l).slot := by
  induction path generalizing l l' with
  | nil => exact h
  | cons frame path ih => exact ih rfl

/-- A path through the shape of a layout is the shape of a path through the layout. -/
theorem exists_plug {path : List (Gap α (Shape α))} {s : Shape α} {l : Layout α}
    (h : l.shape = Shape.plug path s) :
    ∃ path' l', plug path' l' = l ∧ shapes path' = path ∧ l'.shape = s := by
  induction path generalizing s with
  | nil => exact ⟨[], l, rfl, rfl, h⟩
  | cons g path ih =>
      obtain ⟨path', ⟨slot, entries, children⟩, hplug, hpath, hshape⟩ := ih h
      rw [shape_node] at hshape
      have hentries : entries = g.entries := congrArg Shape.entries hshape
      have hchildren : children.map shape = g.around [s] := congrArg Shape.children hshape
      have hchild : (children.map shape)[g.position]? = some s := by
        rw [hchildren, Gap.getElem?_around]
      rw [List.getElem?_map] at hchild
      obtain ⟨child, hget, rfl⟩ := Option.map_eq_some_iff.mp hchild
      have hlength : children.length = entries.length + 1 := by
        have := congrArg List.length hchildren
        rwa [List.length_map, Gap.length_around, ← hentries] at this
      obtain ⟨hentries', haround, -⟩ := Gap.ofPosition_eq hlength hget
      refine ⟨(slot, Gap.ofPosition g.position entries children) :: path', child, ?_, ?_, rfl⟩
      · rw [plug, fill, hentries', haround]
        exact hplug
      · rw [shapes_cons, Gap.map_ofPosition, hchildren, hentries, Gap.ofPosition_around, hpath]

theorem regularPath_cons {slot : NodeId} {g : Gap α (Layout α)} {path : List (Frame α)} :
    Shape.RegularPath f height (shapes ((slot, g) :: path)) ↔
      (∀ child ∈ (g.map shape).around [],
        child.Regular f height ∧ f.Allows false child.entries.length) ∧
        f.Allows path.isEmpty g.entries.length ∧
          Shape.RegularPath f (height + 1) (shapes path) := by
  rw [shapes_cons, Shape.RegularPath, Gap.entries_map, isEmpty_shapes]

/-- What a sound layout is at the end of a path. -/
theorem sound_plug {path : List (Frame α)} {l : Layout α} (h : (plug path l).shape.Sound f height) :
    ∃ rest, height = rest + path.length ∧ l.shape.Regular f rest ∧
      f.Allows path.isEmpty l.entries.length ∧ Shape.RegularPath f rest (shapes path) := by
  rw [shape_plug] at h
  obtain ⟨rest, rfl⟩ := Shape.exists_height_of_sound h
  obtain ⟨hregular, hsize, hpath⟩ := Shape.sound_plug.mp h
  rw [entries_shape, isEmpty_shapes] at hsize
  exact ⟨rest, by rw [length_shapes], hregular, hsize, hpath⟩

theorem leaf_of_level {l : Layout (K × V)} (h : l.shape.Level 0) : l.children = [] := by
  rwa [Shape.Level, children_shape, List.map_eq_nil_iff] at h

theorem length_of_level {l : Layout (K × V)} (h : l.shape.Level (height + 1)) :
    l.children.length = l.entries.length + 1 := by
  have hlength := h.1
  rwa [children_shape, List.length_map, entries_shape] at hlength

theorem children_of_level {l : Layout (K × V)} (h : l.shape.Level height) :
    l.children = [] ∨ l.children.length = l.entries.length + 1 := by
  cases height with
  | zero => exact .inl (leaf_of_level h)
  | succ height => exact .inr (length_of_level h)

/-- A node that has a child has one more than it has entries. -/
theorem length_of_mem {l child : Layout (K × V)} (h : l.shape.Level height)
    (hmem : child ∈ l.children) : l.children.length = l.entries.length + 1 :=
  (children_of_level h).resolve_left (List.ne_nil_of_mem hmem)

theorem level_child {l child : Layout (K × V)} (h : l.shape.Level (height + 1))
    (hmem : child ∈ l.children) : child.shape.Level height := by
  apply h.2
  rw [children_shape]
  exact List.mem_map_of_mem hmem

/-- What a level layout is at the end of a path. -/
theorem level_of_plug {path : List (Frame α)} {l : Layout α}
    (h : (plug path l).shape.Level height) : ∃ rest, height = rest + path.length ∧
      l.shape.Level rest := by
  rw [shape_plug] at h
  obtain ⟨rest, hheight, hrest⟩ := Shape.level_of_plug h
  exact ⟨rest, by rwa [length_shapes] at hheight, hrest⟩

/-- The children of a regular node are regular, one level lower. -/
theorem regular_child {l child : Layout (K × V)} (h : l.shape.Regular f (height + 1))
    (hmem : child ∈ l.children) :
    child.shape.Regular f height ∧ f.Allows false child.entries.length := by
  rw [← entries_shape]
  apply h.2
  rw [children_shape]
  exact List.mem_map_of_mem hmem

/-! ### Cells of layouts -/

theorem cells_node (parent : Option NodeId) (slot : NodeId) (entries : List (K × V))
    (children : List (Layout (K × V))) :
    (node slot entries children).cells parent =
      {(slot, ⟨entries, children.map Layout.slot, parent⟩)} + allCells (some slot) children := by
  rw [cells]
  rfl

@[simp] theorem allCells_nil (parent : Option NodeId) :
    allCells parent ([] : List (Layout (K × V))) = 0 := rfl

@[simp] theorem allCells_cons (parent : Option NodeId) (l : Layout (K × V))
    (layouts : List (Layout (K × V))) :
    allCells parent (l :: layouts) = l.cells parent + allCells parent layouts :=
  List.sum_cons

@[simp] theorem allCells_append (parent : Option NodeId) (layouts more : List (Layout (K × V))) :
    allCells parent (layouts ++ more) = allCells parent layouts + allCells parent more := by
  rw [allCells, List.map_append, List.sum_append]
  rfl

theorem mem_allCells {parent : Option NodeId} {layouts : List (Layout (K × V))}
    {cell : NodeId × Node K V} :
    cell ∈ allCells parent layouts ↔ ∃ l ∈ layouts, cell ∈ l.cells parent := by
  induction layouts with
  | nil => simp
  | cons l layouts ih => simp [ih]

theorem allCells_around (parent : Option NodeId) (g : Gap (K × V) (Layout (K × V)))
    (l : Layout (K × V)) :
    allCells parent (g.around [l]) = l.cells parent + allCells parent (g.around []) := by
  simp only [Gap.around, allCells_append, allCells_cons, allCells_nil]
  abel

theorem cells_fill (parent : Option NodeId) (frame : Frame (K × V)) (l : Layout (K × V)) :
    (fill frame l).cells parent = l.cells (some frame.1) +
      ({(frame.1, frameNode parent l.slot frame.2)} +
        allCells (some frame.1) (frame.2.around [])) := by
  rw [fill, cells_node, allCells_around, frameNode, ← List.map_singleton, Gap.around_map]
  abel

/-- The cells of a plugged layout are those of the layout and those of the path. -/
theorem cells_plug (top : Option NodeId) (path : List (Frame (K × V))) (l : Layout (K × V)) :
    (plug path l).cells top = l.cells (parentOf top path) + pathCells top l.slot path := by
  induction path generalizing l with
  | nil => rw [plug, pathCells, parentOf, add_zero]
  | cons frame path ih => rw [plug, ih, cells_fill, slot_fill, pathCells, parentOf, add_assoc]

theorem cells_plug_cons (top : Option NodeId) (slot : NodeId) (g : Gap (K × V) (Layout (K × V)))
    (path : List (Frame (K × V))) (l : Layout (K × V)) :
    (plug ((slot, g) :: path) l).cells top = l.cells (some slot) +
      ({(slot, frameNode (parentOf top path) l.slot g)} +
        (allCells (some slot) (g.around []) + pathCells top slot path)) := by
  rw [cells_plug, pathCells, parentOf]
  abel

/-- The cells around a node whose right neighbour matters. -/
theorem cells_plug_behind (top : Option NodeId) (slot : NodeId) {before : List (Layout (K × V) × (K × V))}
    {behind : List ((K × V) × Layout (K × V))} (entry : K × V) (path : List (Frame (K × V)))
    (l sibling : Layout (K × V)) :
    (plug ((slot, ⟨before, (entry, sibling) :: behind⟩) :: path) l).cells top =
      l.cells (some slot) + (sibling.cells (some slot) +
        ({(slot, frameNode (parentOf top path) l.slot ⟨before, (entry, sibling) :: behind⟩)} +
          (allCells (some slot) ((Gap.mk before behind).around []) +
            pathCells top slot path))) := by
  rw [cells_plug_cons, Gap.around_cons_behind, List.nil_append, allCells_around]
  abel

/-- The cells around a node whose left neighbour matters. -/
theorem cells_plug_before (top : Option NodeId) (slot : NodeId)
    {before : List (Layout (K × V) × (K × V))} {behind : List ((K × V) × Layout (K × V))}
    (entry : K × V) (path : List (Frame (K × V))) (l sibling : Layout (K × V)) :
    (plug ((slot, ⟨(sibling, entry) :: before, behind⟩) :: path) l).cells top =
      l.cells (some slot) + (sibling.cells (some slot) +
        ({(slot, frameNode (parentOf top path) l.slot ⟨(sibling, entry) :: before, behind⟩)} +
          (allCells (some slot) ((Gap.mk before behind).around []) +
            pathCells top slot path))) := by
  rw [cells_plug_cons, Gap.around_cons_before, allCells_around]
  abel

theorem allCells_take_drop (parent : Option NodeId) (position : Nat)
    (layouts : List (Layout (K × V))) : allCells parent layouts =
      allCells parent (layouts.take position) + allCells parent (layouts.drop position) := by
  rw [← allCells_append, List.take_append_drop]

theorem slot_mem_cells (parent : Option NodeId) (l : Layout (K × V)) :
    (l.slot, ⟨l.entries, l.children.map slot, parent⟩) ∈ l.cells parent := by
  obtain ⟨slot, entries, children⟩ := l
  rw [cells_node]
  exact Multiset.mem_add.mpr (.inl (Multiset.mem_singleton.mpr rfl))

theorem cells_eq (parent : Option NodeId) (l : Layout (K × V)) :
    l.cells parent = {(l.slot, ⟨l.entries, l.children.map slot, parent⟩)} +
      allCells (some l.slot) l.children := by
  obtain ⟨slot, entries, children⟩ := l
  exact cells_node parent slot entries children

/-- The cell of the topmost node. -/
def head (parent : Option NodeId) (l : Layout (K × V)) : NodeId × Node K V :=
  (l.slot, ⟨l.entries, l.children.map slot, parent⟩)

/-- Only the topmost nodes know the parent. -/
theorem exists_inner (layouts : List (Layout (K × V))) :
    ∃ inner, ∀ parent, allCells parent layouts = ↑(layouts.map (head parent)) + inner := by
  induction layouts with
  | nil => exact ⟨0, fun parent => rfl⟩
  | cons l layouts ih =>
      obtain ⟨inner, hinner⟩ := ih
      refine ⟨allCells (some l.slot) l.children + inner, fun parent => ?_⟩
      rw [allCells_cons, cells_eq, hinner, List.map_cons, ← Multiset.cons_coe, head,
        ← Multiset.singleton_add]
      abel

/-- How many nodes there are does not depend on the parent. -/
theorem card_cells (parent other : Option NodeId) (l : Layout (K × V)) :
    (l.cells parent).card = (l.cells other).card := by
  rw [cells_eq, cells_eq, Multiset.card_add, Multiset.card_add, Multiset.card_singleton,
    Multiset.card_singleton]

theorem card_allCells (parent other : Option NodeId) (layouts : List (Layout (K × V))) :
    (allCells parent layouts).card = (allCells other layouts).card := by
  induction layouts with
  | nil => rfl
  | cons l layouts ih =>
      rw [allCells_cons, allCells_cons, Multiset.card_add, Multiset.card_add, ih,
        card_cells parent other]

/-- There is a node for every level. -/
theorem height_lt_card {l : Layout (K × V)} (h : l.shape.Level height)
    (parent : Option NodeId) : height < (l.cells parent).card := by
  induction height generalizing l parent with
  | zero => exact Multiset.card_pos_iff_exists_mem.mpr ⟨_, slot_mem_cells parent l⟩
  | succ height ih =>
      obtain ⟨child, rest, hcons⟩ := List.exists_cons_of_length_eq_add_one (length_of_level h)
      have hmem : child ∈ l.children := hcons ▸ List.mem_cons_self ..
      have := ih (level_child h hmem) (some l.slot)
      rw [cells_eq, hcons, allCells_cons, Multiset.card_add, Multiset.card_add,
        Multiset.card_singleton]
      omega

theorem length_le_card_pathCells (top : Option NodeId) (hole : NodeId)
    (path : List (Frame (K × V))) : path.length ≤ (pathCells top hole path).card := by
  induction path generalizing hole with
  | nil => exact Nat.zero_le _
  | cons frame path ih =>
      have := ih frame.1
      rw [pathCells, Multiset.card_add, Multiset.card_add, Multiset.card_singleton,
        List.length_cons]
      omega

theorem length_lt_card (top : Option NodeId) (path : List (Frame (K × V))) (l : Layout (K × V)) :
    path.length < ((plug path l).cells top).card := by
  have hpath := length_le_card_pathCells top l.slot path
  have hl : 0 < (l.cells (parentOf top path)).card :=
    Multiset.card_pos_iff_exists_mem.mpr ⟨_, slot_mem_cells _ l⟩
  rw [cells_plug, Multiset.card_add]
  omega

end Layout

end Multiway
