import Multiway.Proofs.Arena.Placing
import Multiway.Proofs.Tree.Search

/-!
Valid trees.

What makes a tree valid is said here of the arena alone, node by node: a visit is a node to which the
children lead from the root, together with what the way to it tells. A sound tree is valid, because
its visits are the places in the layout that it holds.

An entry of a tree has a place, the node and the position in which it stands. Searching for its key
leads there, so the places of all entries, taken in their order, are without repetition and leave out
no place that can be reached.
-/

namespace Multiway

variable {K V : Type} {f : Fanout} {height : Nat}

/-- A node with what is known on the way to it: the node above, how many there are above, and their
entries left and right of the way. -/
structure Visit (K V : Type) where
  id : NodeId
  node : Node K V
  parent : Option NodeId
  depth : Nat
  low : List (K × V)
  high : List (K × V)

/-- What holds of a node between two operations, the number of its entries apart. -/
structure Visit.Fits (t : Tree K V) (v : Visit K V) : Prop where
  /-- Every child is a node. -/
  child : ∀ id ∈ v.node.children, ∃ node, t.arena.node id = .ok node
  /-- A child names the node that lists it as its parent; the root has none. -/
  parent : v.node.parent = v.parent
  /-- The keys ascend strictly. -/
  ascending : Ascending t.cmp v.node.entries
  /-- They lie strictly between the separators of all nodes above. -/
  above : ∀ separator ∈ v.low, ∀ entry ∈ v.node.entries, t.cmp separator.1 entry.1 = .lt
  below : ∀ separator ∈ v.high, ∀ entry ∈ v.node.entries, t.cmp entry.1 separator.1 = .lt
  /-- A node that is no leaf has one child more than entries. -/
  children : v.node.children = [] ∨ v.node.children.length = v.node.entries.length + 1

/-- What holds of a node between two operations. -/
structure Visit.Valid (t : Tree K V) (v : Visit K V) : Prop extends v.Fits t where
  /-- A node other than the root has at least one entry less than half the order, rounded up; the
  root has at least one entry. -/
  least : (if v.parent = none then 1 else (t.order + 1) / 2 - 1) ≤ v.node.entries.length
  /-- No node has as many entries as the order. -/
  most : v.node.entries.length ≤ t.order - 1

namespace Tree

/-- The nodes to which the children lead from the root. -/
inductive Visited (t : Tree K V) : Visit K V → Prop
  | root {id : NodeId} {node : Node K V} (hroot : t.root = some id)
      (hnode : t.arena.node id = .ok node) : Visited t ⟨id, node, none, 0, [], []⟩
  | child {v : Visit K V} {position : Nat} {id : NodeId} {node : Node K V} (h : Visited t v)
      (hchild : v.node.children[position]? = some id) (hnode : t.arena.node id = .ok node) :
      Visited t ⟨id, node, some v.id, v.depth + 1, v.low ++ v.node.entries.take position,
        v.node.entries.drop position ++ v.high⟩

/-- The places of entries are their nodes and positions, in the order of the entries. There is no
other place to which the children lead. -/
structure Places (t : Tree K V) (entries : List (K × V)) (places : List (NodeId × Nat)) : Prop where
  length : places.length = entries.length
  nodup : places.Nodup
  reached : ∀ (id : NodeId) (position : Nat), (id, position) ∈ places ↔
    ∃ v, t.Visited v ∧ v.id = id ∧ position < v.node.entries.length
  entry : ∀ (i : Nat) (id : NodeId) (position : Nat), places[i]? = some (id, position) →
    ∃ node, t.arena.node id = .ok node ∧ node.entries[position]? = entries[i]?

/-- What holds of a tree between two operations. -/
structure Valid (t : Tree K V) : Prop where
  /-- The root is a node. -/
  root : ∀ id, t.root = some id → ∃ node, t.arena.node id = .ok node
  visit : ∀ v, t.Visited v → v.Valid t
  /-- All leaves are equally deep. -/
  depth : ∀ v w, t.Visited v → t.Visited w → v.node.children = [] → w.node.children = [] →
    v.depth = w.depth
  /-- There is no root exactly when there are no entries. -/
  root_none : t.root = none ↔ t.size = 0
  /-- The tree has as many entries as can be reached. -/
  size : ∃ entries places, t.Places entries places ∧ t.size = places.length

end Tree

namespace Layout

/-- The entries above that are left of a path. -/
def lows : List (Frame (K × V)) → List (K × V)
  | [] => []
  | frame :: path => lows path ++ frame.2.low

/-- The entries above that are right of a path. -/
def highs : List (Frame (K × V)) → List (K × V)
  | [] => []
  | frame :: path => frame.2.high ++ highs path

/-- A visit of the end of a path. -/
def visit (path : List (Frame (K × V))) (l : Layout (K × V)) : Visit K V :=
  ⟨l.slot, ⟨l.entries, l.children.map slot, parentOf none path⟩, parentOf none path, path.length,
    lows path, highs path⟩

theorem lows_sublist (path : List (Frame (K × V))) :
    (lows path).Sublist (Shape.leads (shapes path)) := by
  induction path with
  | nil => exact .slnil
  | cons frame path ih =>
      rw [lows, shapes_cons, Shape.leads, ← Gap.low_map shape]
      exact ih.append (Shape.low_sublist_lead _)

theorem highs_sublist (path : List (Frame (K × V))) :
    (highs path).Sublist (Shape.trails (shapes path)) := by
  induction path with
  | nil => exact .slnil
  | cons frame path ih =>
      rw [highs, shapes_cons, Shape.trails, ← Gap.high_map shape]
      exact (Shape.high_sublist_trail _).append ih

/-- A child of a node stands in a gap of the node. -/
theorem exists_fill {l : Layout (K × V)} (hlength : l.children.length = l.entries.length + 1)
    {position : Nat} {child : Layout (K × V)} (hchild : l.children[position]? = some child) :
    ∃ slot g, fill (slot, g) child = l ∧ g.position = position := by
  obtain ⟨slot, entries, children⟩ := l
  obtain ⟨hentries, haround, hposition⟩ := Gap.ofPosition_eq hlength hchild
  refine ⟨slot, Gap.ofPosition position entries children, ?_, hposition⟩
  rw [fill]
  exact congrArg₂ (node slot) hentries haround

theorem visit_cons (slot : NodeId) (g : Gap (K × V) (Layout (K × V)))
    (path : List (Frame (K × V))) (l : Layout (K × V)) :
    visit ((slot, g) :: path) l =
      ⟨l.slot, ⟨l.entries, l.children.map Layout.slot, some slot⟩, some slot, path.length + 1,
        lows path ++ g.entries.take g.position, g.entries.drop g.position ++ highs path⟩ := by
  rw [Gap.entries, ← Gap.length_low, List.take_left, List.drop_left]
  rfl

/-- Every cell of a level layout stands at the end of a path. -/
theorem exists_plug_of_mem {l : Layout (K × V)} {parent : Option NodeId} {cell : NodeId × Node K V}
    (hl : l.shape.Level height) (h : cell ∈ l.cells parent) :
    ∃ path focus, plug path focus = l ∧
      cell = (focus.slot, ⟨focus.entries, focus.children.map slot, parentOf parent path⟩) := by
  induction height generalizing l parent with
  | zero =>
      rw [cells_eq, leaf_of_level hl, allCells_nil, add_zero, Multiset.mem_singleton] at h
      exact ⟨[], l, rfl, by rw [h, leaf_of_level hl]; rfl⟩
  | succ height ih =>
      rw [cells_eq, Multiset.mem_add, Multiset.mem_singleton] at h
      rcases h with rfl | h
      · exact ⟨[], l, rfl, rfl⟩
      · obtain ⟨child, hmem, hcell⟩ := mem_allCells.mp h
        obtain ⟨position, hchild⟩ := List.getElem?_of_mem hmem
        obtain ⟨path, focus, rfl, rfl⟩ := ih (level_child hl hmem) hcell
        obtain ⟨slot, g, rfl, -⟩ := exists_fill (length_of_level hl) hchild
        refine ⟨path ++ [(slot, g)], focus, plug_append path _ focus, ?_⟩
        cases path <;> rfl

end Layout

namespace Tree

variable {t : Tree K V} {l : Layout (K × V)}

theorem Holds.visited_visit {path : List (Frame (K × V))}
    (h : t.Holds (some (Layout.plug path l))) : t.Visited (Layout.visit path l) := by
  induction path generalizing l with
  | nil => exact .root h.root h.stores.reads.node_plug
  | cons frame path ih =>
      obtain ⟨slot, g⟩ := frame
      have hchild : (Layout.visit path (Layout.fill (slot, g) l)).node.children[g.position]? =
          some l.slot := by
        show ((g.around [l]).map Layout.slot)[g.position]? = _
        rw [List.getElem?_map, Gap.getElem?_around]
        rfl
      rw [Layout.visit_cons]
      exact .child (ih h) hchild h.stores.reads.node_plug

/-- The nodes to which the children lead are those of the layout. -/
theorem Holds.visited_iff (h : t.Holds (some l)) (hl : l.shape.Level height) {v : Visit K V} :
    t.Visited v ↔ ∃ path focus, Layout.plug path focus = l ∧ v = Layout.visit path focus := by
  constructor
  · -- A step to a child lengthens the path by the gap in which the child stands.
    intro hv
    induction hv with
    | root hroot hnode =>
        obtain rfl := Option.some.inj (hroot.symm.trans h.root)
        obtain rfl := Except.ok.inj (hnode.symm.trans h.stores.reads.node)
        exact ⟨[], l, rfl, rfl⟩
    | child hv hchild hnode ih =>
        obtain ⟨path, focus, rfl, rfl⟩ := ih
        obtain ⟨rest, -, hfocus⟩ := Layout.level_of_plug hl
        rw [Layout.visit, List.getElem?_map] at hchild
        obtain ⟨child, hget, rfl⟩ := Option.map_eq_some_iff.mp hchild
        have hlength := Layout.length_of_mem hfocus (List.mem_of_getElem? hget)
        obtain ⟨slot, g, rfl, rfl⟩ := Layout.exists_fill hlength hget
        have hreads : t.arena.Reads ((Layout.plug ((slot, g) :: path) child).cells none) :=
          h.stores.reads
        obtain rfl := Except.ok.inj (hnode.symm.trans hreads.node_plug)
        refine ⟨(slot, g) :: path, child, rfl, ?_⟩
        rw [Layout.visit_cons]
        rfl
  · rintro ⟨path, focus, rfl, rfl⟩
    exact h.visited_visit

/-- A node can be visited just when it has a cell. -/
theorem Holds.mem_cells_iff (h : t.Holds (some l)) (hl : l.shape.Level height) {id : NodeId}
    {node : Node K V} : (id, node) ∈ l.cells none ↔ ∃ v, t.Visited v ∧ v.id = id ∧ v.node = node := by
  constructor
  · intro hcell
    obtain ⟨path, focus, rfl, heq⟩ := Layout.exists_plug_of_mem hl hcell
    obtain ⟨rfl, rfl⟩ := Prod.mk.inj heq
    exact ⟨_, h.visited_visit, rfl, rfl⟩
  · rintro ⟨v, hv, rfl, rfl⟩
    obtain ⟨path, focus, rfl, rfl⟩ := (h.visited_iff hl).mp hv
    rw [Layout.cells_plug]
    exact Multiset.mem_add.mpr (.inl (focus.slot_mem_cells _))

/-- Without a root there is nothing to visit. -/
theorem not_visited (hroot : t.root = none) (v : Visit K V) : ¬ t.Visited v := by
  intro hv
  induction hv with
  | root hsome hnode =>
      rw [hroot] at hsome
      contradiction
  | child hv hchild hnode ih => exact ih

/-! ### Places -/

/-- How many places there are is known from the tree alone. -/
theorem Places.length_eq {entries entries' : List (K × V)} {places places' : List (NodeId × Nat)}
    (h : t.Places entries places) (h' : t.Places entries' places') :
    places.length = places'.length := by
  refine ((List.perm_ext_iff_of_nodup h.nodup h'.nodup).mpr ?_).length_eq
  rintro ⟨id, position⟩
  exact (h.reached id position).trans (h'.reached id position).symm

/-- The entries of what a tree holds stand where the layout says. -/
theorem Holds.places (h : t.Holds (some l)) (hl : l.shape.Level height) :
    t.Places l.shape.toList (l.placed.toList.map Prod.fst) := by
  have hreach (id : NodeId) (position : Nat) : (id, position) ∈ l.placed.toList.map Prod.fst ↔
      ∃ node, (id, node) ∈ l.cells none ∧ position < node.entries.length := by
    constructor
    · intro hmem
      obtain ⟨⟨place, entry⟩, hentry, rfl⟩ := List.mem_map.mp hmem
      obtain ⟨node, hcell, hget⟩ := (Layout.mem_placed none).mp hentry
      exact ⟨node, hcell, (List.getElem?_eq_some_iff.mp hget).1⟩
    · rintro ⟨node, hcell, hlt⟩
      exact List.mem_map.mpr ⟨((id, position), node.entries[position]),
        (Layout.mem_placed none).mpr ⟨node, hcell, List.getElem?_eq_getElem hlt⟩, rfl⟩
  constructor
  case length => rw [List.length_map, ← List.length_map (f := Prod.snd), Layout.map_snd_placed]
  case nodup => exact Layout.nodup_placed h.stores.nodup
  case reached =>
    intro id position
    rw [hreach]
    constructor
    · rintro ⟨node, hcell, hlt⟩
      obtain ⟨v, hv, rfl, rfl⟩ := (h.mem_cells_iff hl).mp hcell
      exact ⟨v, hv, rfl, hlt⟩
    · rintro ⟨v, hv, rfl, hlt⟩
      exact ⟨v.node, (h.mem_cells_iff hl).mpr ⟨v, hv, rfl, rfl⟩, hlt⟩
  case entry =>
    intro i id position hplace
    rw [List.getElem?_map] at hplace
    obtain ⟨⟨place, entry⟩, hget, rfl⟩ := Option.map_eq_some_iff.mp hplace
    obtain ⟨node, hcell, hentry⟩ := (Layout.mem_placed none).mp (List.mem_of_getElem? hget)
    refine ⟨node, h.stores.reads _ hcell, ?_⟩
    rw [hentry, ← l.map_snd_placed, List.getElem?_map, hget]
    rfl

/-- Where the search for the key of an entry ends. -/
def placeOf (t : Tree K V) (entry : K × V) : NodeId × Nat :=
  match t.find? entry.1 with
  | .ok (some place) => place
  | _ => (0, 0)

/-- A place that can be reached is where some entry of the layout stands. -/
theorem exists_join (hl : l.shape.Sound f height) {path : List (Frame (K × V))}
    {focus : Layout (K × V)} (hplug : Layout.plug path focus = l) {position : Nat}
    (hposition : position < focus.entries.length) :
    ∃ rest low entry high, height = rest + path.length ∧
      focus.shape = Shape.join low entry high ∧ low.Regular f rest ∧ high.Regular f rest ∧
      low.entries.length = position := by
  subst hplug
  obtain ⟨rest, hheight, hfocus, -⟩ := Layout.sound_plug hl
  rw [← Layout.entries_shape] at hposition
  obtain ⟨low, entry, high, -, hjoin, hlow, hhigh, hlength, -⟩ :=
    Shape.exists_cut hfocus hposition
  exact ⟨rest, low, entry, high, hheight, hjoin.symm, hlow, hhigh, hlength⟩

section places

variable [Std.TransCmp t.cmp]

theorem Holds.placeOf_eq {path : List (Frame (K × V))} {focus : Layout (K × V)}
    {low high : Shape (K × V)} {entry : K × V} (h : t.Holds (some (Layout.plug path focus)))
    (hlist : Ascending t.cmp (Layout.plug path focus).shape.toList)
    (hfocus : focus.shape = Shape.join low entry high) :
    t.placeOf entry = (focus.slot, low.entries.length) := by
  rw [placeOf, h.find?_eq hlist hfocus]

/-- Every entry stands at its place, at the end of some path. -/
theorem Holds.exists_place (h : t.Holds (some l)) (hl : l.shape.Sound f height)
    (hlist : Ascending t.cmp l.shape.toList) {entry : K × V} (hmem : entry ∈ l.shape.toList) :
    ∃ path focus rest low high, Layout.plug path focus = l ∧
      focus.shape = Shape.join low entry high ∧ low.Regular f rest ∧ high.Regular f rest ∧
      t.placeOf entry = (focus.slot, low.entries.length) := by
  have hself : t.cmp entry.1 entry.1 = .eq := Std.ReflCmp.compare_self
  rcases h.search_cases hl hlist entry.1 with
    ⟨path, focus, rest, low, found, high, -, rfl, hshape, hlow, hhigh, hkey, -⟩ |
    ⟨path, leaf, low, high, -, rfl, hleaf, hentries, hsplit, -⟩
  · have hfound : found ∈ (Layout.plug path focus).shape.toList := by
      rw [Layout.shape_plug, hshape, Shape.toList_plug_join found hlow hhigh]
      exact List.mem_append_right _ (List.mem_cons_self ..)
    obtain rfl := hlist.eq_of_eq hfound hmem hkey
    exact ⟨path, focus, rest, low, high, rfl, hshape, hlow, hhigh, h.placeOf_eq hlist hshape⟩
  · rw [Layout.toList_plug_leaf hleaf hentries] at hmem
    rcases List.mem_append.mp hmem with hmem | hmem
    · rw [hsplit.below entry hmem] at hself
      contradiction
    · rw [hsplit.above entry hmem] at hself
      contradiction

theorem Holds.entry_at_place (h : t.Holds (some l)) (hl : l.shape.Sound f height)
    (hlist : Ascending t.cmp l.shape.toList) {entry : K × V} (hmem : entry ∈ l.shape.toList) :
    ∃ node, t.arena.node (t.placeOf entry).1 = .ok node ∧
      node.entries[(t.placeOf entry).2]? = some entry := by
  obtain ⟨path, focus, rest, low, high, rfl, hfocus, -, -, hplace⟩ :=
    h.exists_place hl hlist hmem
  rw [hplace]
  refine ⟨_, h.stores.reads.node_plug, ?_⟩
  show focus.entries[low.entries.length]? = _
  rw [← Layout.entries_shape, hfocus, Shape.getElem?_join]

theorem Holds.mem_places_iff (h : t.Holds (some l)) (hl : l.shape.Sound f height)
    (hlist : Ascending t.cmp l.shape.toList) (id : NodeId) (position : Nat) :
    (id, position) ∈ l.shape.toList.map t.placeOf ↔
      ∃ v, t.Visited v ∧ v.id = id ∧ position < v.node.entries.length := by
  rw [List.mem_map]
  constructor
  · rintro ⟨entry, hmem, heq⟩
    obtain ⟨path, focus, rest, low, high, rfl, hfocus, -, -, hplace⟩ :=
      h.exists_place hl hlist hmem
    obtain ⟨rfl, rfl⟩ := Prod.mk.inj (hplace.symm.trans heq)
    refine ⟨Layout.visit path focus, h.visited_visit, rfl, ?_⟩
    show low.entries.length < focus.entries.length
    rw [← Layout.entries_shape, hfocus]
    exact (List.getElem?_eq_some_iff.mp (Shape.getElem?_join low entry high)).1
  · rintro ⟨v, hv, rfl, hlt⟩
    obtain ⟨path, focus, rfl, rfl⟩ := (h.visited_iff hl.1.level).mp hv
    obtain ⟨rest, low, entry, high, -, hfocus, hlow, hhigh, rfl⟩ := exists_join hl rfl hlt
    refine ⟨entry, ?_, h.placeOf_eq hlist hfocus⟩
    rw [Layout.shape_plug, hfocus, Shape.toList_plug_join entry hlow hhigh]
    exact List.mem_append_right _ (List.mem_cons_self ..)

/-- The places of the entries are all places. -/
theorem Sound.places {l? : Option (Layout (K × V))} (h : t.Sound l?) :
    t.Places (Shape.contents (l?.map Layout.shape))
      ((Shape.contents (l?.map Layout.shape)).map t.placeOf) := by
  cases l? with
  | none =>
      refine ⟨rfl, List.nodup_nil, fun id position => ⟨nofun, ?_⟩, nofun⟩
      rintro ⟨v, hv, -⟩
      exact absurd hv (not_visited h.holds.root v)
  | some l =>
      obtain ⟨tall, height, -, hsound⟩ := h.stands
      have hlist : Ascending t.cmp l.shape.toList := h.ascending
      show t.Places l.shape.toList (l.shape.toList.map t.placeOf)
      refine ⟨List.length_map _, ?_, h.holds.mem_places_iff hsound hlist, ?_⟩
      · -- In one place there is one entry, so entries with one place are the same.
        apply hlist.nodup.map_on
        intro left hleft right hright heq
        obtain ⟨node, hnode, hentry⟩ := h.holds.entry_at_place hsound hlist hleft
        obtain ⟨node', hnode', hentry'⟩ := h.holds.entry_at_place hsound hlist hright
        rw [heq] at hnode hentry
        obtain rfl := Except.ok.inj (hnode.symm.trans hnode')
        exact Option.some.inj (hentry.symm.trans hentry')
      · intro i id position hplace
        rw [List.getElem?_map] at hplace
        obtain ⟨entry, hget, heq⟩ := Option.map_eq_some_iff.mp hplace
        obtain ⟨node, hnode, hentry⟩ :=
          h.holds.entry_at_place hsound hlist (List.mem_of_getElem? hget)
        rw [heq] at hnode hentry
        exact ⟨node, hnode, hentry.trans hget.symm⟩

end places

/-! ### Validity -/

/-- The entries of a node ascend and lie between those of the nodes above. -/
theorem ascending_visit {cmp : K → K → Ordering} {path : List (Frame (K × V))}
    {focus : Layout (K × V)} (h : Ascending cmp (Layout.plug path focus).shape.toList) :
    Ascending cmp (Layout.lows path ++ focus.entries ++ Layout.highs path) := by
  refine h.sublist ?_
  have hentries := Shape.entries_sublist_toList focus.shape
  rw [Layout.entries_shape] at hentries
  rw [Layout.shape_plug, Shape.toList_plug]
  exact ((Layout.lows_sublist path).append hentries).append (Layout.highs_sublist path)

/-- A leaf is as deep as the height says. -/
theorem length_of_leaf {path : List (Frame (K × V))} {focus : Layout (K × V)}
    (h : (Layout.plug path focus).shape.Level height) (hleaf : focus.children = []) :
    path.length = height := by
  obtain ⟨rest, rfl, hfocus⟩ := Layout.level_of_plug h
  cases rest with
  | zero => exact (Nat.zero_add _).symm
  | succ rest =>
      have hlength := Layout.length_of_level hfocus
      rw [hleaf] at hlength
      contradiction

/-- What is told of a visit to a layout is true, but for the number of entries. -/
theorem Holds.visit_fits (h : t.Holds (some l)) (hl : l.shape.Level height)
    (hlist : Ascending t.cmp l.shape.toList) {v : Visit K V} (hv : t.Visited v) : v.Fits t := by
  obtain ⟨path, focus, rfl, rfl⟩ := (h.visited_iff hl).mp hv
  obtain ⟨rest, -, hfocus⟩ := Layout.level_of_plug hl
  obtain ⟨hleft, -, hhighs⟩ := List.pairwise_append.mp (ascending_visit hlist)
  obtain ⟨-, hentries, hlows⟩ := List.pairwise_append.mp hleft
  constructor
  case child =>
    intro id hmem
    obtain ⟨child, hchild, rfl⟩ := List.mem_map.mp hmem
    have hreads := h.stores.reads
    rw [cells, Layout.cells_plug] at hreads
    exact ⟨_, (hreads.left.child hchild).node⟩
  case parent => rfl
  case ascending => exact hentries
  case above => exact hlows
  case below =>
    intro separator hhigh entry hentry
    exact hhighs entry (List.mem_append_right _ hentry) separator hhigh
  case children =>
    show focus.children.map Layout.slot = [] ∨ (focus.children.map Layout.slot).length = _
    rw [List.map_eq_nil_iff, List.length_map]
    exact Layout.children_of_level hfocus

/-- The leaves of a level layout are equally deep. -/
theorem Holds.depth_eq (h : t.Holds (some l)) (hl : l.shape.Level height) {v : Visit K V}
    (hv : t.Visited v) (hleaf : v.node.children = []) : v.depth = height := by
  obtain ⟨path, focus, rfl, rfl⟩ := (h.visited_iff hl).mp hv
  exact length_of_leaf hl (List.map_eq_nil_iff.mp hleaf)

theorem Holds.visit_valid (h : t.Holds (some l)) (hl : l.shape.Sound t.fanout height)
    (hlist : Ascending t.cmp l.shape.toList) {v : Visit K V} (hv : t.Visited v) : v.Valid t := by
  have hfits := h.visit_fits hl.1.level hlist hv
  obtain ⟨path, focus, rfl, rfl⟩ := (h.visited_iff hl.1.level).mp hv
  obtain ⟨rest, -, -, hwide, -⟩ := Layout.sound_plug hl
  refine ⟨hfits, ?_, hwide.2⟩
  cases path with
  | nil => exact hwide.1
  | cons frame path => exact hwide.1

/-- A sound tree is valid. -/
theorem Sound.valid {l? : Option (Layout (K × V))} (h : t.Sound l?) : t.Valid := by
  cases l? with
  | none =>
      have hnone := not_visited h.holds.root
      have hsize : t.size = 0 := h.size_eq
      refine ⟨fun id hroot => ?_, fun v hv => absurd hv (hnone v), fun v _ hv => absurd hv (hnone v),
        ⟨fun _ => hsize, fun _ => h.holds.root⟩, [], [], ⟨rfl, List.nodup_nil, ?_, nofun⟩, hsize⟩
      · rw [h.holds.root] at hroot
        contradiction
      · exact fun id position => ⟨nofun, fun ⟨v, hv, _⟩ => absurd hv (hnone v)⟩
  | some l =>
      obtain ⟨tall, height, -, hsound⟩ := h.stands
      have hlist : Ascending t.cmp l.shape.toList := h.ascending
      have hsize : t.size = l.shape.toList.length := h.size_eq
      have hplaces := h.holds.places hsound.1.level
      constructor
      case root =>
        intro id hroot
        obtain rfl := Option.some.inj (hroot.symm.trans h.holds.root)
        exact ⟨_, h.holds.stores.reads.node⟩
      case visit => exact fun v hv => h.holds.visit_valid hsound hlist hv
      case depth =>
        intro v w hv hw hleaf hleaf'
        exact (h.holds.depth_eq hsound.1.level hv hleaf).trans
          (h.holds.depth_eq hsound.1.level hw hleaf').symm
      case root_none =>
        refine ⟨fun hroot => ?_, fun hzero => ?_⟩
        · rw [h.holds.root] at hroot
          contradiction
        · have hsome : 1 ≤ l.shape.entries.length := hsound.2.1
          have hentries := (Shape.entries_sublist_toList l.shape).length_le
          omega
      case size => exact ⟨_, _, hplaces, hsize.trans hplaces.length.symm⟩

end Tree

end Multiway
