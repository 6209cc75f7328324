import Multiway.Proofs.Run.Reference
import Multiway.Proofs.Tree.Unfolding

/-!
Trees in which the size of one node is wrong.

A loop that mends a tree starts with one node that has an entry too many or too few and pushes the
fault upwards. `ValidBut` says what such a tree is, node by node and of the arena alone: everything
that is asked of a valid tree is asked of it as well, the number of entries in one node excepted.

From this the layout is recovered together with the path to the faulty node. The leaves are level
because all visits of leaves are equally deep, every part that does not contain the faulty node is
regular, and the entries of the whole ascend because those of each child lie between the separators
beside it. The last step needs keys to be comparable across a separator, so the order must be
consistent, or else the entries must be known to ascend as a whole.
-/

namespace Multiway

variable {K V : Type} {f : Fanout} {height : Nat}

/-- What holds of a tree between two operations, but that one node has so many entries. -/
structure Tree.ValidBut (t : Tree K V) (current : NodeId) (entries : Nat) : Prop where
  /-- The root is a node. -/
  root : ∀ id, t.root = some id → ∃ node, t.arena.node id = .ok node
  fits : ∀ v, t.Visited v → v.Fits t
  /-- The node is one of the tree. -/
  located : ∃ v, t.Visited v ∧ v.id = current ∧ v.node.entries.length = entries
  /-- Any other node has at least one entry less than half the order, rounded up, or one entry if it
  is the root. -/
  least : ∀ v, t.Visited v → v.id ≠ current →
    (if v.parent = none then 1 else (t.order + 1) / 2 - 1) ≤ v.node.entries.length
  /-- No other node has as many entries as the order. -/
  most : ∀ v, t.Visited v → v.id ≠ current → v.node.entries.length ≤ t.order - 1
  /-- All leaves are equally deep. -/
  depth : ∀ v w, t.Visited v → t.Visited w → v.node.children = [] → w.node.children = [] →
    v.depth = w.depth
  /-- The tree has as many entries as can be reached. -/
  size : ∃ entries places, t.Places entries places ∧ t.size = places.length
  /-- Every slot is in use or waits for reuse, and what waits is empty and out of reach. -/
  accounted : t.Accounted

/-- What mending a tree leaves: all is valid, and nothing was lost, added or moved past another
entry. -/
structure Tree.Mends (t u : Tree K V) : Prop where
  valid : u.Valid
  accounted : u.Accounted
  alike : Alike t u
  size : u.size = t.size
  inOrder : ∃ entries, t.inOrder = .ok entries ∧ u.inOrder = .ok entries

/-! ### Level leaves -/

namespace Layout

theorem level_succ {l : Layout (K × V)} (hlength : l.children.length = l.entries.length + 1)
    (hchildren : ∀ child ∈ l.children, child.shape.Level height) :
    l.shape.Level (height + 1) := by
  rw [Shape.Level, children_shape, entries_shape, List.length_map]
  exact ⟨hlength, List.forall_mem_map.mpr hchildren⟩

/-- When all leaves are equally deep, every part of a layout is level. -/
theorem exists_level {whole : Layout (K × V)}
    (hwhole : ∀ path l, plug path l = whole →
      l.children = [] ∨ l.children.length = l.entries.length + 1)
    (hdepth : ∀ path path' l l', plug path l = whole → plug path' l' = whole →
      l.children = [] → l'.children = [] → path.length = path'.length)
    (l : Layout (K × V)) (path : List (Frame (K × V))) (hplug : plug path l = whole) :
    ∃ height, l.shape.Level height ∧ ∃ down leaf, plug (down ++ path) leaf = whole ∧
      leaf.children = [] ∧ down.length = height := by
  induction l using induct generalizing path with
  | h slot entries children ih =>
      have hlevel {i : Nat} {child : Layout (K × V)} (hget : children[i]? = some child)
          (hlength : children.length = entries.length + 1) :
          ∃ frame height, child.shape.Level height ∧ ∃ down leaf,
            plug (down ++ frame :: path) leaf = whole ∧ leaf.children = [] ∧
              down.length = height := by
        obtain ⟨slot', g, hfill, -⟩ :=
          exists_fill (l := .node slot entries children) hlength hget
        exact ⟨(slot', g), ih child (List.mem_of_getElem? hget) ((slot', g) :: path)
          ((congrArg (plug path) hfill).trans hplug)⟩
      rcases hwhole path _ hplug with hleaf | hlength
      · obtain rfl : children = [] := hleaf
        exact ⟨0, by rw [shape_node]; rfl, [], _, hplug, rfl, rfl⟩
      · -- The leaf below the first child is as deep as one below any other child.
        obtain ⟨first, hfirst⟩ : ∃ first, children[0]? = some first :=
          ⟨_, List.getElem?_eq_getElem (Nat.lt_of_lt_of_eq (Nat.succ_pos _) hlength.symm)⟩
        obtain ⟨frame, height, -, down, leaf, hleaf, hend, rfl⟩ := hlevel hfirst hlength
        refine ⟨down.length + 1, level_succ hlength fun child hmem => ?_, down ++ [frame], leaf, ?_,
          hend, by rw [List.length_append, List.length_singleton]⟩
        · obtain ⟨i, hget⟩ := List.getElem?_of_mem hmem
          obtain ⟨frame', height', hchild, down', leaf', hleaf', hend', rfl⟩ := hlevel hget hlength
          have hsame := hdepth _ _ _ _ hleaf hleaf' hend hend'
          simp only [List.length_append, List.length_cons, Nat.add_right_cancel_iff] at hsame
          rwa [hsame]
        · rw [List.append_assoc]
          exact hleaf

/-! ### Sizes -/

/-- A level layout is regular when all nodes below the topmost one have a size that is allowed. -/
theorem regular_of_level {l : Layout (K × V)} (hl : l.shape.Level height)
    (h : ∀ cell ∈ allCells (some l.slot) l.children,
      f.Allows cell.2.parent.isNone cell.2.entries.length) : l.shape.Regular f height := by
  induction height generalizing l with
  | zero => exact hl
  | succ height ih =>
      refine ⟨hl.1, fun s hs => ?_⟩
      rw [children_shape] at hs
      obtain ⟨child, hmem, rfl⟩ := List.mem_map.mp hs
      have hcells : ∀ cell ∈ child.cells (some l.slot), _ := fun cell hcell =>
        h cell (mem_allCells.mpr ⟨child, hmem, hcell⟩)
      rw [cells_eq] at hcells
      refine ⟨ih (level_child hl hmem) fun cell hcell =>
        hcells cell (Multiset.mem_add.mpr (.inr hcell)), ?_⟩
      rw [entries_shape]
      exact hcells _ (Multiset.mem_add.mpr (.inl (Multiset.mem_singleton.mpr rfl)))

/-- So is a path in a level layout when this is true of all nodes along it. -/
theorem regularPath_of_level {path : List (Frame (K × V))} {l : Layout (K × V)}
    (hl : (plug path l).shape.Level (height + path.length))
    (h : ∀ cell ∈ pathCells none l.slot path,
      f.Allows cell.2.parent.isNone cell.2.entries.length) :
    Shape.RegularPath f height (shapes path) := by
  induction path generalizing l height with
  | nil => trivial
  | cons frame path ih =>
      obtain ⟨slot, g⟩ := frame
      rw [pathCells] at h
      have hwhole : (plug path (fill (slot, g) l)).shape.Level (height + 1 + path.length) := by
        rw [Nat.add_assoc, Nat.add_comm 1]
        exact hl
      obtain ⟨rest, hrest, hfill⟩ := level_of_plug hwhole
      obtain rfl : rest = height + 1 := by omega
      rw [shape_fill] at hfill
      have hside : ∀ child ∈ g.around [], ∀ cell ∈ child.cells (some slot),
          f.Allows cell.2.parent.isNone cell.2.entries.length := fun child hmem cell hcell =>
        h cell (Multiset.mem_add.mpr (.inl (Multiset.mem_add.mpr (.inr
          (mem_allCells.mpr ⟨child, hmem, hcell⟩)))))
      refine regularPath_cons.mpr ⟨fun s hs => ?_, ?_,
        ih hwhole fun cell hcell => h cell (Multiset.mem_add.mpr (.inr hcell))⟩
      · have hlevel := (Shape.level_fill.mp hfill).1 s hs
        rw [← List.map_nil, Gap.around_map] at hs
        obtain ⟨child, hmem, rfl⟩ := List.mem_map.mp hs
        have hcells := hside child hmem
        rw [cells_eq] at hcells
        refine ⟨regular_of_level hlevel fun cell hcell =>
          hcells cell (Multiset.mem_add.mpr (.inr hcell)), ?_⟩
        rw [entries_shape]
        exact hcells _ (Multiset.mem_add.mpr (.inl (Multiset.mem_singleton.mpr rfl)))
      · have hframe := h _ (Multiset.mem_add.mpr (.inl (Multiset.mem_add.mpr (.inl
          (Multiset.mem_singleton.mpr rfl)))))
        cases path <;> exact hframe

/-- When one node has a size that is not allowed, all that stands beside it is still regular. -/
theorem regular_around {path : List (Frame (K × V))} {l : Layout (K × V)}
    (hl : (plug path l).shape.Level (height + path.length))
    (hslots : (((plug path l).cells none).map Prod.fst).Nodup)
    (h : ∀ cell ∈ (plug path l).cells none, cell.1 ≠ l.slot →
      f.Allows cell.2.parent.isNone cell.2.entries.length) :
    l.shape.Regular f height ∧ Shape.RegularPath f height (shapes path) := by
  obtain ⟨rest, hrest, hlevel⟩ := level_of_plug hl
  obtain rfl : rest = height := by omega
  rw [cells_plug, cells_eq] at hslots h
  rw [add_assoc, Multiset.map_add, Multiset.map_singleton, Multiset.singleton_add,
    Multiset.nodup_cons] at hslots
  have hother : ∀ cell ∈ allCells (some l.slot) l.children + pathCells none l.slot path,
      f.Allows cell.2.parent.isNone cell.2.entries.length := by
    intro cell hcell
    refine h cell ?_ fun heq => hslots.1 (Multiset.mem_map.mpr ⟨cell, hcell, heq⟩)
    rw [add_assoc]
    exact Multiset.mem_add.mpr (.inr hcell)
  exact ⟨regular_of_level hlevel fun cell hcell => hother cell (Multiset.mem_add.mpr (.inl hcell)),
    regularPath_of_level hl fun cell hcell => hother cell (Multiset.mem_add.mpr (.inr hcell))⟩

/-- Below the topmost node of a regular layout every size is allowed. -/
theorem allows_of_regular {l : Layout (K × V)} (hl : l.shape.Regular f height) :
    ∀ cell ∈ allCells (some l.slot) l.children,
      f.Allows cell.2.parent.isNone cell.2.entries.length := by
  induction height generalizing l with
  | zero =>
      intro cell hcell
      rw [leaf_of_level (Shape.Regular.level hl)] at hcell
      exact absurd hcell (Multiset.notMem_zero cell)
  | succ height ih =>
      intro cell hcell
      obtain ⟨child, hmem, hcell⟩ := mem_allCells.mp hcell
      obtain ⟨hchild, hsize⟩ := hl.2 child.shape
        (by rw [children_shape]; exact List.mem_map_of_mem hmem)
      rw [entries_shape] at hsize
      rw [cells_eq] at hcell
      rcases Multiset.mem_add.mp hcell with hcell | hcell
      · obtain rfl := Multiset.mem_singleton.mp hcell
        exact hsize
      · exact ih hchild cell hcell

/-- Along a regular path and beside it every size is allowed. -/
theorem allows_of_regularPath {path : List (Frame (K × V))} {slot : NodeId}
    (h : Shape.RegularPath f height (shapes path)) :
    ∀ cell ∈ pathCells none slot path, f.Allows cell.2.parent.isNone cell.2.entries.length := by
  induction path generalizing height slot with
  | nil => exact fun cell hcell => absurd hcell (Multiset.notMem_zero cell)
  | cons frame path ih =>
      obtain ⟨parent, g⟩ := frame
      obtain ⟨hsides, hsize, hpath⟩ := regularPath_cons.mp h
      intro cell hcell
      rw [pathCells, Multiset.mem_add, Multiset.mem_add, Multiset.mem_singleton,
        mem_allCells] at hcell
      rcases hcell with (rfl | ⟨child, hmem, hcell⟩) | hcell
      · cases path <;> exact hsize
      · obtain ⟨hchild, hwide⟩ := hsides child.shape
          (by rw [← List.map_nil, Gap.around_map]; exact List.mem_map_of_mem hmem)
        rw [entries_shape] at hwide
        rw [cells_eq] at hcell
        rcases Multiset.mem_add.mp hcell with hcell | hcell
        · obtain rfl := Multiset.mem_singleton.mp hcell
          exact hwide
        · exact allows_of_regular hchild cell hcell
      · exact ih hpath cell hcell

end Layout

/-! ### The order of the entries -/

namespace Shape

theorem mem_interleave {α : Type} {children : List (Shape α)} {entries : List α} {item : α} :
    item ∈ interleave children entries ↔
      item ∈ entries ∨ ∃ child ∈ children, item ∈ child.toList := by
  induction children generalizing entries with
  | nil => simp [interleave_nil]
  | cons child children ih =>
      cases entries with
      | nil => simp [interleave, ih]
      | cons entry entries =>
          simp only [interleave, List.mem_append, List.mem_cons, ih, exists_eq_or_imp]
          grind

/-- Children that lie between the entries beside them ascend with them. -/
theorem ascending_interleave {cmp : K → K → Ordering} [Std.TransCmp cmp]
    {children : List (Shape (K × V))} {entries : List (K × V)}
    (hlength : children.length = entries.length + 1) (hentries : Ascending cmp entries)
    (hchildren : ∀ (i : Nat) child, children[i]? = some child → Ascending cmp child.toList ∧
      ∀ item ∈ child.toList, (∀ entry ∈ entries.take i, cmp entry.1 item.1 = .lt) ∧
        ∀ entry ∈ entries.drop i, cmp item.1 entry.1 = .lt) :
    Ascending cmp (interleave children entries) := by
  induction entries generalizing children with
  | nil =>
      obtain ⟨child, rfl⟩ := List.length_eq_one_iff.mp hlength
      rw [interleave, interleave_nil, List.append_nil]
      exact (hchildren 0 child rfl).1
  | cons entry entries ih =>
      obtain ⟨child, children, rfl⟩ := List.exists_cons_of_length_eq_add_one hlength
      obtain ⟨hfirst, hother⟩ := List.pairwise_cons.mp hentries
      obtain ⟨hchild, hbelow⟩ := hchildren 0 child rfl
      have habove : ∀ item ∈ interleave children entries, cmp entry.1 item.1 = .lt := by
        intro item hmem
        rcases mem_interleave.mp hmem with hmem | ⟨other, hmem, hitem⟩
        · exact hfirst item hmem
        · obtain ⟨i, hget⟩ := List.getElem?_of_mem hmem
          exact ((hchildren (i + 1) other hget).2 item hitem).1 entry (List.mem_cons_self ..)
      rw [interleave]
      refine List.pairwise_append.mpr ⟨hchild, List.pairwise_cons.mpr ⟨habove,
        ih (Nat.succ.inj hlength) hother fun i other hget => ?_⟩, fun item hitem other hmem => ?_⟩
      · obtain ⟨hlist, hbetween⟩ := hchildren (i + 1) other hget
        exact ⟨hlist, fun item hitem => ⟨fun low hlow =>
          (hbetween item hitem).1 low (List.mem_cons_of_mem entry hlow), (hbetween item hitem).2⟩⟩
      · have hitem := (hbelow item hitem).2 entry (List.mem_cons_self ..)
        rcases List.mem_cons.mp hmem with rfl | hmem
        · exact hitem
        · exact Std.TransCmp.lt_trans hitem (habove other hmem)

end Shape

namespace Tree

variable {t : Tree K V}

/-- The entries at the end of a path ascend, and lie between those beside the path. -/
theorem Holds.ascending_of_fits [Std.TransCmp t.cmp] {whole : Layout (K × V)}
    (h : t.Holds (some whole)) (hfits : ∀ v, t.Visited v → v.Fits t) (l : Layout (K × V))
    (path : List (Frame (K × V))) (hplug : Layout.plug path l = whole) :
    Ascending t.cmp l.shape.toList ∧ ∀ item ∈ l.shape.toList,
      (∀ entry ∈ Layout.lows path, t.cmp entry.1 item.1 = .lt) ∧
        ∀ entry ∈ Layout.highs path, t.cmp item.1 entry.1 = .lt := by
  induction l using Layout.induct generalizing path with
  | h slot entries children ih =>
      have hvisit := hplug ▸ h
      have hnode := hfits _ hvisit.visited_visit
      have hchildren : children = [] ∨ children.length = entries.length + 1 := by
        simpa [Layout.visit, Layout.children, Layout.entries] using hnode.children
      rcases hchildren with rfl | hlength
      · rw [Layout.toList_of_leaf rfl]
        exact ⟨hnode.ascending, fun item hitem => ⟨fun entry hmem => hnode.above entry hmem item hitem,
          fun entry hmem => hnode.below entry hmem item hitem⟩⟩
      · have hchild (i : Nat) (child : Layout (K × V)) (hget : children[i]? = some child) :
            Ascending t.cmp child.shape.toList ∧ ∀ item ∈ child.shape.toList,
              (∀ entry ∈ Layout.lows path ++ entries.take i, t.cmp entry.1 item.1 = .lt) ∧
                ∀ entry ∈ entries.drop i ++ Layout.highs path, t.cmp item.1 entry.1 = .lt := by
          obtain ⟨slot', g, hfill, rfl⟩ :=
            Layout.exists_fill (l := .node slot entries children) hlength hget
          obtain rfl : g.entries = entries := congrArg Layout.entries hfill
          rw [Gap.entries, ← Gap.length_low, List.take_left, List.drop_left]
          exact ih child (List.mem_of_getElem? hget) ((slot', g) :: path)
            ((congrArg (Layout.plug path) hfill).trans hplug)
        rw [Layout.shape_node, Shape.toList_node]
        constructor
        · refine Shape.ascending_interleave (by rw [List.length_map, hlength]) hnode.ascending
            fun i s hget => ?_
          rw [List.getElem?_map] at hget
          obtain ⟨child, hitem, rfl⟩ := Option.map_eq_some_iff.mp hget
          obtain ⟨hlist, hbetween⟩ := hchild i child hitem
          exact ⟨hlist, fun item hitem =>
            ⟨fun entry hmem => (hbetween item hitem).1 entry (List.mem_append_right _ hmem),
              fun entry hmem => (hbetween item hitem).2 entry (List.mem_append_left _ hmem)⟩⟩
        · intro item hitem
          rcases Shape.mem_interleave.mp hitem with hitem | ⟨s, hmem, hitem⟩
          · exact ⟨fun entry hmem => hnode.above entry hmem item hitem,
              fun entry hmem => hnode.below entry hmem item hitem⟩
          · obtain ⟨child, hlisted, rfl⟩ := List.mem_map.mp hmem
            obtain ⟨i, hget⟩ := List.getElem?_of_mem hlisted
            obtain ⟨hlow, hhigh⟩ := (hchild i child hget).2 item hitem
            exact ⟨fun entry hmem => hlow entry (List.mem_append_left _ hmem),
              fun entry hmem => hhigh entry (List.mem_append_right _ hmem)⟩

theorem Holds.inOrder_eq {l : Layout (K × V)} (h : t.Holds (some l))
    (hl : l.shape.Level height) : t.inOrder = .ok l.shape.toList := by
  rw [inOrder, shape, h.root]
  simp only [Option.map_some, h.stores.reads.shapeFrom_eq hl (h.height_lt hl), ok_bind]
  rfl

/-! ### The layout around the faulty node -/

/-- What a tree holds is balanced and in order, but that the node at the end of a path may have any
number of entries. -/
structure SoundBut (t : Tree K V) (path : List (Frame (K × V))) (l : Layout (K × V))
    (height : Nat) : Prop where
  holds : t.Holds (some (Layout.plug path l))
  regular : l.shape.Regular t.fanout height
  around : Shape.RegularPath t.fanout height (Layout.shapes path)
  ascending : Ascending t.cmp (Layout.plug path l).shape.toList
  size_eq : t.size = (Layout.plug path l).shape.toList.length

/-- The keys are in order. Either the comparison keeps its contract, and then it is enough that each node
fits between the separators around it; or it need not keep any, and the entries of the whole tree are known
to ascend in the order in which the nodes have them. -/
def Ordered (t : Tree K V) : Prop :=
  Consistent t.cmp ∨ ∃ entries, t.inOrder = .ok entries ∧ Ascending t.cmp entries

/-- A tree that is valid but for the size of one node holds a layout that is sound but for the size of
one node. -/
theorem ValidBut.exists_soundBut {current : NodeId} {entries : Nat}
    (h : t.ValidBut current entries) (hordered : t.Ordered) :
    ∃ path l height, t.SoundBut path l height ∧ l.slot = current ∧ l.entries.length = entries := by
  obtain ⟨v, hv, rfl, rfl⟩ := h.located
  obtain ⟨root, hroot⟩ : ∃ root, t.root = some root :=
    Option.ne_none_iff_exists'.mp fun hnone => not_visited hnone v hv
  obtain ⟨whole, hholds⟩ := h.accounted.exists_holds hroot (h.root root hroot)
    (fun w hw => (h.fits w hw).child) fun w hw => (h.fits w hw).parent
  have hvisit (path : List (Frame (K × V))) (l : Layout (K × V))
      (hplug : Layout.plug path l = whole) : t.Visited (Layout.visit path l) :=
    (hplug ▸ hholds).visited_visit
  have hlength (path : List (Frame (K × V))) (l : Layout (K × V))
      (hplug : Layout.plug path l = whole) :
      l.children = [] ∨ l.children.length = l.entries.length + 1 := by
    simpa [Layout.visit] using (h.fits _ (hvisit path l hplug)).children
  obtain ⟨height, hlevel, -⟩ := Layout.exists_level hlength
    (fun path path' l l' hplug hplug' hleaf hleaf' =>
      h.depth _ _ (hvisit path l hplug) (hvisit path' l' hplug') (List.map_eq_nil_iff.mpr hleaf)
        (List.map_eq_nil_iff.mpr hleaf')) whole [] rfl
  have hsizes : ∀ cell ∈ whole.cells none, cell.1 ≠ v.id →
      t.fanout.Allows cell.2.parent.isNone cell.2.entries.length := by
    intro cell hcell hne
    obtain ⟨w, hw, hid, hnode⟩ := (hholds.mem_cells_iff hlevel).mp hcell
    have hother : w.id ≠ v.id := hid ▸ hne
    have hleast := h.least w hw hother
    rw [← hnode, (h.fits w hw).parent]
    refine ⟨?_, h.most w hw hother⟩
    cases hparent : w.parent with
    | none =>
        rw [hparent] at hleast
        exact hleast
    | some parent =>
        rw [hparent] at hleast
        exact hleast
  have hlist : Ascending t.cmp whole.shape.toList := by
    rcases hordered with hcmp | ⟨items, hitems, hlist⟩
    · have := hcmp.transCmp
      exact (hholds.ascending_of_fits h.fits whole [] rfl).1
    · obtain rfl := Except.ok.inj ((hholds.inOrder_eq hlevel).symm.trans hitems)
      exact hlist
  obtain ⟨items, places, hplaces, hsize⟩ := h.size
  have hcount := hplaces.length_eq (hholds.places hlevel)
  rw [(hholds.places hlevel).length] at hcount
  obtain ⟨path, l, rfl, rfl⟩ := (hholds.visited_iff hlevel).mp hv
  obtain ⟨rest, rfl, -⟩ := Layout.level_of_plug hlevel
  obtain ⟨hregular, haround⟩ := Layout.regular_around hlevel hholds.stores.nodup hsizes
  exact ⟨path, l, rest, ⟨hholds, hregular, haround, hlist, hsize.trans hcount⟩, rfl, rfl⟩

theorem SoundBut.level {path : List (Frame (K × V))} {l : Layout (K × V)}
    (h : t.SoundBut path l height) : (Layout.plug path l).shape.Level (height + path.length) := by
  rw [Layout.shape_plug, ← Layout.length_shapes]
  exact Shape.level_plug h.regular.level h.around

/-- A sound tree with the same entries is the mended one. -/
theorem SoundBut.mends {path : List (Frame (K × V))} {l : Layout (K × V)} {u : Tree K V}
    {l?' : Option (Layout (K × V))} (h : t.SoundBut path l height) (hu : u.Sound l?')
    (hlist : Shape.contents (l?'.map Layout.shape) = (Layout.plug path l).shape.toList)
    (halike : Alike t u) (hsize : u.size = t.size) : t.Mends u := by
  have horder := hu.inOrder_eq
  rw [hlist] at horder
  exact ⟨hu.valid, hu.holds.accounted, halike, hsize, _, h.holds.inOrder_eq h.level, horder⟩

/-- In the same way, a layout that is sound but for one size makes a tree that is valid but for that
size. -/
theorem SoundBut.validBut {path : List (Frame (K × V))} {l : Layout (K × V)}
    (h : t.SoundBut path l height) : t.ValidBut l.slot l.entries.length := by
  have hplaces := h.holds.places h.level
  have hsizes {v : Visit K V} (hv : t.Visited v) (hne : v.id ≠ l.slot) :
      t.fanout.Allows v.node.parent.isNone v.node.entries.length := by
    have hcell := (h.holds.mem_cells_iff h.level).mpr ⟨v, hv, rfl, rfl⟩
    rw [Layout.cells_plug, Layout.cells_eq, add_assoc, Multiset.mem_add, Multiset.mem_add] at hcell
    rcases hcell with hcell | hcell | hcell
    · exact absurd (congrArg Prod.fst (Multiset.mem_singleton.mp hcell)) hne
    · exact Layout.allows_of_regular h.regular _ hcell
    · exact Layout.allows_of_regularPath h.around _ hcell
  constructor
  case root =>
    intro id hroot
    obtain rfl := Option.some.inj (hroot.symm.trans h.holds.root)
    exact ⟨_, h.holds.stores.reads.node⟩
  case fits => exact fun v hv => h.holds.visit_fits h.level h.ascending hv
  case located => exact ⟨_, h.holds.visited_visit, rfl, rfl⟩
  case least =>
    intro v hv hne
    have hallows := (hsizes hv hne).1
    rw [(h.holds.visit_fits h.level h.ascending hv).parent] at hallows
    cases hparent : v.parent with
    | none =>
        rw [hparent] at hallows
        exact hallows
    | some parent =>
        rw [hparent] at hallows
        exact hallows
  case most => exact fun v hv hne => (hsizes hv hne).2
  case depth =>
    intro v w hv hw hleaf hleaf'
    exact (h.holds.depth_eq h.level hv hleaf).trans (h.holds.depth_eq h.level hw hleaf').symm
  case size => exact ⟨_, _, hplaces, h.size_eq.trans hplaces.length.symm⟩
  case accounted => exact h.holds.accounted

end Tree

end Multiway
