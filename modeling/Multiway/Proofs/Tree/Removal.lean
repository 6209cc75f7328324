import Multiway.Proofs.Tree.Mending

/-!
Removing from a tree that holds a layout.

An entry is taken out of a leaf, and mending starts at that leaf. All removals share these two steps
and differ in how they find the entry and in what they answer, so one relation says of a removal all
there is to say: its answer, the shape it leaves and what it reports.
-/

namespace Multiway

variable {K V : Type} {f : Fanout} {height : Nat}

namespace Tree

variable {t : Tree K V} {path : List (Frame (K × V))} {l : Layout (K × V)}

/-! ### Taking an entry out of a leaf -/

/-- A layout around an entry whose shape is known. -/
theorem exists_fill {gapsBefore : List (Shape (K × V) × (K × V))}
    {gapsBehind : List ((K × V) × Shape (K × V))} {removed : K × V} {next child : Shape (K × V)}
    (h : l.shape = Shape.fill ⟨gapsBefore, (removed, next) :: gapsBehind⟩ child) :
    ∃ slot before right behind below, Layout.fill (slot, ⟨before, (removed, right) :: behind⟩) below = l ∧
      Gap.map Layout.shape ⟨before, behind⟩ = ⟨gapsBefore, gapsBehind⟩ ∧ right.shape = next ∧
      below.shape = child := by
  have hpath : l.shape =
      Shape.plug [⟨gapsBefore, (removed, next) :: gapsBehind⟩] child := h
  obtain ⟨path, below, hplug, hpath, hbelow⟩ := Layout.exists_plug hpath
  obtain ⟨⟨slot, ⟨before, behind⟩⟩, rfl, hgap⟩ := List.map_eq_singleton_iff.mp hpath
  obtain ⟨rfl, hbehind⟩ := Gap.mk.injEq .. ▸ hgap
  obtain ⟨⟨entry, right⟩, behind, rfl, hpair, rfl⟩ := List.map_eq_cons_iff.mp hbehind
  obtain ⟨rfl, hright⟩ := Prod.mk.injEq .. ▸ hpair
  exact ⟨slot, before, right, behind, below, hplug, rfl, hright, hbelow⟩

/-- In a leaf the entry is simply left out. -/
theorem Holds.detach_leaf {path : List (Frame (K × V))} {leaf : Layout (K × V)}
    {low high : List (K × V)} {removed : K × V} (h : t.Holds (some (Layout.plug path leaf)))
    (hleaf : leaf.children = []) (hentries : leaf.entries = low ++ removed :: high) :
    ∃ u, t.detach leaf.slot low.length = .ok (u, removed, leaf.slot) ∧
      u.Holds (some (Layout.plug path (leaf.withEntries (low ++ high)))) ∧ Alike t u ∧
      u.size = t.size ∧ u.arena.stock = t.arena.stock := by
  have hnode := h.stores.reads.node_plug
  obtain ⟨a, hwrite, hstores, hstock⟩ := h.stores.write_entries_plug (low ++ high)
  refine ⟨{ t with arena := a }, ?_, ⟨hstores, ?_⟩,
    ⟨rfl, rfl, congrArg Arena.Stock.capacity hstock⟩, rfl, hstock⟩
  · have hend := Layout.isLeaf_of_leaf hleaf (Layout.parentOf none path)
    have hremove : removeAt leaf.entries low.length = .ok (removed, low ++ high) := by
      rw [hentries]
      exact removeAt_append ..
    rw [detach, hnode, ok_bind]
    simp only [hend, if_true, hremove, hwrite, ok_bind]
    rfl
  · exact h.root.trans (congrArg some (Layout.slot_plug_congr path rfl))

/-- Further up, the entry before it moves from a leaf into its place. `way` leads from the child in
front of the removed entry to the last leaf below it. -/
theorem Holds.detach_branch {path way : List (Frame (K × V))} {slot : NodeId}
    {before : List (Layout (K × V) × (K × V))} {behind : List ((K × V) × Layout (K × V))}
    {removed last : K × V} {next leaf : Layout (K × V)} {entries : List (K × V)}
    (h : t.Holds (some (Layout.plug
      (way ++ (slot, ⟨before, (removed, next) :: behind⟩) :: path) leaf)))
    (hentries : leaf.entries = entries ++ [last])
    (hrightmost : t.arena.rightmost t.bound (Layout.plug way leaf).slot = .ok leaf.slot) :
    ∃ u, t.detach slot before.length = .ok (u, removed, leaf.slot) ∧
      u.Holds (some (Layout.plug (way ++ (slot, ⟨before, (last, next) :: behind⟩) :: path)
        (leaf.withEntries entries))) ∧ Alike t u ∧
      u.size = t.size ∧ u.arena.stock = t.arena.stock := by
  have hlayout (entry : K × V) (leaf : Layout (K × V)) :
      Layout.plug (way ++ (slot, ⟨before, (entry, next) :: behind⟩) :: path) leaf =
        Layout.plug ((slot, ⟨before, (entry, next) :: behind⟩) :: path)
          (Layout.plug way leaf) := Layout.plug_append ..
  have hbelow := h.stores.reads.node_plug
  obtain ⟨a, hwrite, hstores, hstock⟩ := h.stores.write_entries_plug entries
  -- From here on the tree is seen from the node that held the removed entry.
  rw [hlayout] at h hstores
  have habove := h.node_above
  have habove' : a.node slot = _ := Arena.Reads.node_above hstores.reads
  have haround : (Gap.mk before ((last, next) :: behind)).around [] =
      (Gap.mk before ((removed, next) :: behind)).around [] := rfl
  obtain ⟨b, hwrite', hstores, hstock'⟩ := Arena.Stores.write_above hstores haround
  have hall := hstock'.trans hstock
  refine ⟨{ t with arena := b }, ?_, ⟨?_, ?_⟩,
    ⟨rfl, rfl, congrArg Arena.Stock.capacity hall⟩, rfl, hall⟩
  · have hchild : itemAt (Layout.frameNode (Layout.parentOf none path)
        (Layout.plug way leaf).slot ⟨before, (removed, next) :: behind⟩).children
          before.length = .ok (Layout.plug way leaf).slot := Layout.itemAt_frameNode ..
    have hone : oneBelow leaf.entries.length = .ok entries.length := by
      rw [hentries, List.length_append]
      rfl
    have hremove : removeAt leaf.entries entries.length = .ok (last, entries) := by
      rw [hentries]
      simp only [removeAt_append, List.append_nil]
    have hwrite' : a.write slot { Layout.frameNode (Layout.parentOf none path)
        (Layout.plug way (leaf.withEntries entries)).slot ⟨before, (removed, next) :: behind⟩
          with entries := (Gap.mk before ((last, next) :: behind)).entries } = .ok b := hwrite'
    rw [detach, habove, ok_bind]
    simp only [Layout.isLeaf_frameNode, hchild, hrightmost, hbelow, hone, hremove, hwrite, habove',
      ok_bind, replaceAt_entries_behind, hwrite']
    rfl
  · rw [cells, hlayout]
    exact hstores
  · rw [hlayout]
    exact h.root.trans (congrArg some (Layout.slot_plug_congr path rfl))

/-- Taking an entry out of a leaf does what it does to the shape, and the node that has lost an entry
is found at the end of the same path. -/
theorem Holds.detach_eq {path : List (Frame (K × V))} {focus : Layout (K × V)} {rest : Nat}
    {low high : Shape (K × V)} {removed : K × V} (h : t.Holds (some (Layout.plug path focus)))
    (hfocus : focus.shape = Shape.join low removed high) (hlow : low.Regular f rest)
    (hhigh : high.Regular f rest)
    (hsound : (Layout.plug path focus).shape.Sound f (rest + path.length)) :
    ∃ u path' leaf, t.detach focus.slot low.entries.length = .ok (u, removed, leaf.slot) ∧
      u.Holds (some (Layout.plug path' leaf)) ∧
      Shape.detach low.entries.length (Layout.shapes path) focus.shape =
        some (Layout.shapes path', leaf.shape) ∧
      Alike t u ∧ u.size = t.size ∧ u.arena.stock = t.arena.stock := by
  cases rest with
  | zero =>
      obtain ⟨entries, children⟩ := low
      obtain ⟨entries', children'⟩ := high
      rw [Shape.Regular, Shape.children_node] at hlow hhigh
      subst hlow hhigh
      obtain ⟨hentries, hchildren⟩ := Layout.eq_of_shape hfocus
      obtain ⟨u, hdetach, hholds, hrest⟩ := h.detach_leaf hchildren hentries
      refine ⟨u, path, focus.withEntries (entries ++ entries'), hdetach, hholds, ?_, hrest⟩
      rw [hfocus, Layout.shape_withEntries, Layout.children_shape, hchildren]
      exact Shape.detach_leaf entries entries'
  | succ rest =>
      obtain ⟨before, child, rfl⟩ := Shape.exists_fill_last hlow
      obtain ⟨behind, next, rfl⟩ := Shape.exists_fill_first hhigh
      obtain ⟨-, hchild, -⟩ := Shape.regular_fill.mp hlow
      rw [Shape.join_fill] at hfocus
      obtain ⟨slot, before, next, behind, child, rfl, hgap, rfl, rfl⟩ := exists_fill hfocus
      obtain ⟨rfl, rfl⟩ := Gap.mk.injEq .. ▸ hgap
      have hlt : rest < t.bound := by
        have := h.height_lt hsound.1.level
        omega
      have hreads := h.stores.reads
      rw [cells, ← Layout.plug, Layout.cells_plug_cons] at hreads
      obtain ⟨way, leaf, rfl, rfl, hleaf, hway, hwalk, hrightmost⟩ :=
        hreads.left.exists_rightmost hchild hlt
      -- The same tree is seen from the leaf, where the entry before the removed one stands.
      have hlayout : Layout.plug path (Layout.fill (slot, ⟨before, (removed, next) :: behind⟩)
          (Layout.plug way leaf)) =
            Layout.plug (way ++ (slot, ⟨before, (removed, next) :: behind⟩) :: path) leaf := by
        rw [Layout.plug_append, Layout.plug]
      rw [hlayout] at h hsound
      obtain ⟨-, -, -, hsize, -⟩ := Layout.sound_plug hsound
      obtain ⟨entries, last, hentries⟩ := exists_concat hsize.root.1
      obtain ⟨u, hdetach, hholds, hrest⟩ := h.detach_branch hentries hrightmost
      have hposition : (Shape.fill ⟨before.map (Prod.map Layout.shape id), []⟩
          (Layout.plug way leaf).shape).entries.length = before.length := by
        rw [Shape.entries_fill, Gap.length_entries, List.length_map]
        rfl
      have hwalk : (Layout.plug way leaf).shape.walk Shape.steerHigh [] =
          (Layout.shapes way, .node (entries ++ [last]) []) := by
        rw [hwalk, List.append_nil, Layout.shape_of_leaf hleaf, hentries]
      refine ⟨u, _, _, ?_, hholds, ?_, hrest⟩
      · rw [hposition]
        exact hdetach
      · have hlength : before.length = (before.map (Prod.map Layout.shape id)).length :=
          (List.length_map _).symm
        rw [hposition, Layout.shape_fill, Layout.shapes_append, Layout.shapes_cons,
          Layout.shape_withEntries, Layout.children_shape, hleaf, hlength]
        exact Shape.detach_fill hwalk

/-- The leaf that has lost an entry is the only node that may lack one. -/
theorem Holds.detach_lacking {path : List (Frame (K × V))} {focus : Layout (K × V)} {rest : Nat}
    {low high : Shape (K × V)} {removed : K × V} (h : t.Holds (some (Layout.plug path focus)))
    (hfocus : focus.shape = Shape.join low removed high) (hlow : low.Regular t.fanout rest)
    (hhigh : high.Regular t.fanout rest)
    (hsound : (Layout.plug path focus).shape.Sound t.fanout (rest + path.length)) :
    ∃ u path' leaf, t.detach focus.slot low.entries.length = .ok (u, removed, leaf.slot) ∧
      u.Lacking path' leaf 0 ∧ path'.length = rest + path.length ∧
      Shape.detach low.entries.length (Layout.shapes path) (Shape.join low removed high) =
        some (Layout.shapes path', leaf.shape) ∧
      Alike t u ∧ u.size = t.size ∧ u.arena.stock = t.arena.stock := by
  obtain ⟨u, path', leaf, hdetach, hholds, hend, halike, hsize, hstock⟩ :=
    h.detach_eq hfocus hlow hhigh hsound
  rw [Layout.shape_plug, hfocus, ← Layout.length_shapes] at hsound
  obtain ⟨spath, entries, hdetach', hlength, hpath, hwide, -⟩ :=
    Shape.detach_spec hlow hhigh hsound
  rw [hfocus] at hend
  obtain ⟨rfl, hleaf⟩ := Prod.mk.injEq .. ▸ Option.some.inj (hdetach'.symm.trans hend)
  have hentries : leaf.entries = entries := by
    rw [← Layout.entries_shape, ← hleaf]
    rfl
  rw [Layout.isEmpty_shapes] at hwide
  rw [Layout.length_shapes, Layout.length_shapes] at hlength
  refine ⟨u, path', leaf, hdetach, ⟨hholds, ?_, ?_, ?_, ?_⟩, hlength.symm, hend, halike, hsize, hstock⟩
  · rw [← hleaf]
    rfl
  · rwa [halike.fanout]
  · rw [hentries, halike.fanout]
    exact hwide.1
  · rw [hentries, halike.fanout]
    exact Nat.le_of_succ_le hwide.2

/-- What the removals have in common: they give this answer, leave what the function on shapes
leaves, and report what it reports after the slots that were not kept. No more slots are given up
than the tree has levels. -/
def Removes {β : Type} (t : Tree K V) (answer : β) (pure : Option (Shape (K × V)) × List Event)
    (run : Except Fault (Change (Tree K V) β)) : Prop :=
  ∃ u l?' ids, run = .ok ⟨answer, u, t.arena.stock.drops ids ++ pure.2⟩ ∧ u.Sound l?' ∧
    l?'.map Layout.shape = pure.1 ∧ Alike t u ∧ u.arena.stock = t.arena.stock.store ids ∧
    ∃ tall, t.height = .ok tall ∧ ids.length ≤ tall

theorem Sound.removes_self {β : Type} {l? : Option (Layout (K × V))} (h : t.Sound l?) (answer : β) :
    t.Removes answer (l?.map Layout.shape, []) (.ok ⟨answer, t, []⟩) := by
  obtain ⟨tall, hstands⟩ := h.stands
  exact ⟨t, l?, [], by rw [t.arena.stock.drops_nil]; rfl, h, rfl, .refl t,
    t.arena.stock.store_nil.symm, tall, h.holds.height_eq hstands, Nat.zero_le tall⟩

theorem Sound.removeEntry {path : List (Frame (K × V))} {focus : Layout (K × V)} {rest : Nat}
    {low high : Shape (K × V)} {removed : K × V} (h : t.Sound (some (Layout.plug path focus)))
    (hfocus : focus.shape = Shape.join low removed high) (hlow : low.Regular t.fanout rest)
    (hhigh : high.Regular t.fanout rest)
    (hsound : (Layout.plug path focus).shape.Sound t.fanout (rest + path.length)) :
    t.Removes removed
      (Shape.take t.fanout low.entries.length (Layout.shapes path) (Shape.join low removed high))
      (t.removeEntry focus.slot low.entries.length) := by
  obtain ⟨u, path', leaf, hdetach, hlacking, hlevels, hend, halike, hsame, hstock⟩ :=
    h.holds.detach_lacking hfocus hlow hhigh hsound
  have hlist := h.ascending
  have hsize := h.size_eq
  have hheight : t.height = .ok (rest + path.length + 1) :=
    h.holds.height_eq (f := t.fanout) ⟨_, rfl, hsound⟩
  rw [Layout.shape_plug, hfocus, ← Layout.length_shapes] at hsound
  rw [Option.map_some, Shape.contents_some, Layout.shape_plug, hfocus,
    Shape.toList_plug_join removed hlow hhigh] at hlist hsize
  obtain ⟨hcontents, tall, hstands, -⟩ := Shape.take_spec hlow hhigh hsound
  rw [Shape.take, hend] at hcontents hstands ⊢
  -- One entry less is counted before the leaf is mended.
  generalize hrest : (Shape.leads (Layout.shapes path) ++ low.toList) ++
    (high.toList ++ Shape.trails (Layout.shapes path)) = remaining at hcontents
  have hless : oneBelow u.size = .ok remaining.length := by
    rw [hsame, hsize, List.length_append, List.length_cons, ← Nat.add_assoc, ← List.length_append,
      hrest]
    rfl
  have hremaining : Ascending t.cmp remaining := hrest ▸ hlist.erase
  have hfuel : path'.length < t.bound := by
    have := hlacking.holds.length_lt
    rwa [bound, show u.arena.slots.size = t.arena.slots.size from
      congrArg Arena.Stock.size hstock] at this
  obtain ⟨v, l?', ids, hreplenish, hv, hshape, halike', hsame', hstock', hfew⟩ :=
    (hlacking.resize remaining.length).replenish_eq hfuel
  have hall : Alike t v := halike.trans ⟨halike'.cmp, halike'.fanout, halike'.capacity⟩
  rw [halike.fanout] at hshape
  refine ⟨v, l?', ids, ?_, ⟨hv, ⟨tall, ?_⟩, ?_, ?_⟩, hshape, hall, hstock ▸ hstock', _, hheight,
    hlevels ▸ hfew⟩
  · rw [Tree.removeEntry, hdetach, ok_bind, ← halike.fanout, ← hstock]
    simp only [hless, ok_bind, hreplenish]
    rfl
  · rw [hshape, hall.fanout]
    exact hstands
  · rw [hshape, hall.cmp]
    exact hcontents ▸ hremaining
  · rw [hshape, hsame']
    exact congrArg List.length hcontents.symm

/-- What is done with the answer does not touch the rest. -/
theorem Removes.map {β γ : Type} {answer : β} {pure : Option (Shape (K × V)) × List Event}
    {run : Except Fault (Change (Tree K V) β)} (h : t.Removes answer pure run) (wrap : β → γ) :
    t.Removes (wrap answer) pure
      (run >>= fun change => .ok { change with answer := wrap change.answer }) := by
  obtain ⟨u, l?', ids, rfl, hrest⟩ := h
  exact ⟨u, l?', ids, rfl, hrest⟩

/-! ### Removing by key and from both ends -/

theorem Sound.erase [Std.TransCmp t.cmp] {l? : Option (Layout (K × V))} (h : t.Sound l?)
    (key : K) :
    t.Removes ((Entries.find? t.cmp key (Shape.contents (l?.map Layout.shape))).map Prod.snd)
      (Shape.erase t.fanout t.cmp key (l?.map Layout.shape)) (t.erase key) := by
  cases l? with
  | none =>
      rw [Tree.erase, find?_of_none h.holds.root]
      exact h.removes_self _
  | some l =>
      obtain ⟨tall, height, -, hsound⟩ := h.stands
      have hlist := h.ascending
      rw [Tree.erase]
      simp only [Option.map_some, Shape.contents_some] at hlist ⊢
      rcases h.holds.search_cases hsound hlist key with
        ⟨path, focus, rest, low, entry, high, rfl, rfl, hshape, hlow, hhigh, hkey, hwalk, hsearch,
          hdescend⟩ |
        ⟨path, leaf, low, high, -, rfl, hleaf, hentries, hsplit, hwalk, hsearch, hdescend⟩
      · have herase : Shape.erase t.fanout t.cmp key (some (Layout.plug path focus).shape) =
            Shape.take t.fanout low.entries.length (Layout.shapes path)
              (Shape.join low entry high) := by
          simp only [Shape.erase, hwalk, hsearch]
        rw [Layout.shape_plug, hshape, Shape.toList_plug_join entry hlow hhigh] at hlist
        have hfind : Entries.find? t.cmp key (Layout.plug path focus).shape.toList =
            some entry := by
          rw [Layout.shape_plug, hshape, Shape.toList_plug_join entry hlow hhigh]
          exact (hlist.splits hkey).find?_of_eq hkey
        rw [herase, hfind, find?_of_found h.holds.root hdescend]
        exact (h.removeEntry hshape hlow hhigh hsound).map fun removed => some removed.2
      · have herase : Shape.erase t.fanout t.cmp key (some (Layout.plug path leaf).shape) =
            (some (Layout.plug path leaf).shape, []) := by
          simp only [Shape.erase, hwalk, Shape.entries_node, hsearch]
        have hfind : Entries.find? t.cmp key (Layout.plug path leaf).shape.toList = none := by
          rw [Layout.toList_plug_leaf hleaf hentries]
          exact hsplit.find?_of_absent
        rw [herase, hfind, find?_of_absent h.holds.root hdescend]
        exact h.removes_self none

theorem Sound.extractMin {l? : Option (Layout (K × V))} (h : t.Sound l?) :
    t.Removes (Shape.contents (l?.map Layout.shape)).head?
      (Shape.popFirst t.fanout (l?.map Layout.shape)) t.extractMin := by
  cases l? with
  | none =>
      rw [Tree.extractMin, h.holds.root]
      exact h.removes_self _
  | some l =>
      obtain ⟨tall, height, -, hsound⟩ := h.stands
      obtain ⟨path, leaf, rfl, rfl, hleaf, hpath, hwalk, hleftmost⟩ :=
        h.holds.stores.reads.exists_leftmost hsound.1 (h.holds.height_lt hsound.1.level)
      obtain ⟨-, -, -, hsize, -⟩ := Layout.sound_plug hsound
      obtain ⟨first, entries, hentries⟩ := List.exists_cons_of_length_pos hsize.root.1
      have hfocus : leaf.shape =
          Shape.join (.node [] []) first (.node entries []) := by
        rw [Layout.shape_of_leaf hleaf, hentries]
        rfl
      have hpop : Shape.popFirst t.fanout (some (Layout.plug path leaf).shape) =
          Shape.take t.fanout (Shape.node [] [] : Shape (K × V)).entries.length
            (Layout.shapes path) (Shape.join (.node [] []) first (.node entries [])) := by
        simp only [Shape.popFirst, hwalk, List.append_nil, hfocus]
        rfl
      have hhead : (Layout.plug path leaf).shape.toList.head? = some first := by
        rw [Layout.shape_plug, Shape.toList_plug, Shape.leads_of_steered hpath,
          Layout.toList_of_leaf hleaf, hentries]
        rfl
      have hnone : (Shape.node [] [] : Shape (K × V)).Regular t.fanout 0 := rfl
      have hothers : (Shape.node entries [] : Shape (K × V)).Regular t.fanout 0 := rfl
      rw [← Nat.zero_add path.length] at hsound
      rw [Tree.extractMin, h.holds.root]
      simp only [Option.map_some, Shape.contents_some, hhead, hpop, hleftmost, ok_bind]
      exact (h.removeEntry hfocus hnone hothers hsound).map some

theorem Sound.extractMax {l? : Option (Layout (K × V))} (h : t.Sound l?) :
    t.Removes (Shape.contents (l?.map Layout.shape)).getLast?
      (Shape.popLast t.fanout (l?.map Layout.shape)) t.extractMax := by
  cases l? with
  | none =>
      rw [Tree.extractMax, h.holds.root]
      exact h.removes_self _
  | some l =>
      obtain ⟨tall, height, -, hsound⟩ := h.stands
      obtain ⟨path, leaf, rfl, rfl, hleaf, hpath, hwalk, hrightmost⟩ :=
        h.holds.stores.reads.exists_rightmost hsound.1 (h.holds.height_lt hsound.1.level)
      obtain ⟨-, -, -, hsize, -⟩ := Layout.sound_plug hsound
      obtain ⟨entries, last, hentries⟩ := exists_concat hsize.root.1
      have hfocus : leaf.shape =
          Shape.join (.node entries []) last (.node [] []) := by
        rw [Layout.shape_of_leaf hleaf, hentries]
        rfl
      have hpop : Shape.popLast t.fanout (some (Layout.plug path leaf).shape) =
          Shape.take t.fanout (Shape.node entries [] : Shape (K × V)).entries.length
            (Layout.shapes path) (Shape.join (.node entries []) last (.node [] [])) := by
        simp only [Shape.popLast, hwalk, List.append_nil, hfocus]
        simp [Shape.join]
      have hlast : (Layout.plug path leaf).shape.toList.getLast? = some last := by
        rw [Layout.shape_plug, Shape.toList_plug, Shape.trails_of_steered hpath,
          Layout.toList_of_leaf hleaf, hentries, List.append_nil, ← List.append_assoc,
          List.getLast?_concat]
      have hlength : leaf.entries.length = entries.length + 1 := by
        rw [hentries, List.length_append, List.length_singleton]
      have hnone : (Shape.node [] [] : Shape (K × V)).Regular t.fanout 0 := rfl
      have hothers : (Shape.node entries [] : Shape (K × V)).Regular t.fanout 0 := rfl
      rw [← Nat.zero_add path.length] at hsound
      rw [Tree.extractMax, h.holds.root]
      simp only [Option.map_some, Shape.contents_some, hlast, hpop, hrightmost, ok_bind,
        h.holds.stores.reads.node_plug, hlength]
      exact (h.removeEntry hfocus hothers hnone hsound).map some

end Tree

end Multiway
