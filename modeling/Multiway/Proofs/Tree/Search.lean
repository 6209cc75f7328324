import Multiway.Proofs.Tree.Holding
import Multiway.Tree.Search

/-!
Looking for a key in a tree that holds a layout.

The descent of a search in the arena goes the way that a search in the shape goes, so it ends where
the shape says: at an entry that has the key, or in the leaf where the key would stand. What is
answered is then known from the list of all entries.
-/

namespace Multiway.Tree

variable {K V : Type} {f : Fanout} {height : Nat} {t : Tree K V}

section search

variable {top : Option NodeId} {path : List (Frame (K × V))} {l : Layout (K × V)} {key : K}
  {fuel : Nat}

/-- The descent of a search ends where the way that it chooses in the shape ends. -/
theorem descend_eq {place : Place} (h : t.arena.Reads ((Layout.plug path l).cells top))
    (hpath : Shape.Steered (Shape.steerTo t.cmp key) (Layout.shapes path))
    (hplace : Shape.search t.cmp key l.entries = place)
    (hend : (∃ position, place = .found position) ∨ l.children = [])
    (hfuel : path.length < fuel) :
    t.descend key fuel (Layout.plug path l).slot = .ok (l.slot, place) := by
  obtain ⟨rest, rfl⟩ : ∃ rest, fuel = path.length + (rest + 1) :=
    ⟨fuel - path.length - 1, by omega⟩
  have hstep : ∀ frame ∈ path, ∀ hole parent,
      t.arena.node frame.1 = .ok (Layout.frameNode parent hole frame.2) →
        ∀ fuel, t.descend key (fuel + 1) frame.1 = t.descend key fuel hole := by
    intro frame hmem hole parent hnode fuel
    have hgap := hpath (frame.2.map Layout.shape) (List.mem_map_of_mem hmem)
    rw [Gap.position_map, Gap.entries_map] at hgap
    have hsearch : (Layout.frameNode parent hole frame.2).search t.cmp key =
        .absent frame.2.position := Shape.search_of_steerTo hgap
    rw [descend, hnode, ok_bind, hsearch]
    simp only [Layout.isLeaf_frameNode, Layout.itemAt_frameNode, ok_bind]
    rfl
  have hsearch : Node.search t.cmp key
      ⟨l.entries, l.children.map Layout.slot, Layout.parentOf top path⟩ = place := hplace
  rw [h.reach hstep, descend, h.node_plug, ok_bind, hsearch]
  rcases hend with ⟨position, rfl⟩ | hleaf
  · rfl
  · cases place with
    | found position => rfl
    | absent position =>
        simp only [Node.isLeaf, hleaf]
        rfl

/-- A search in a layout ends at the entry that has the key, or in the leaf where the key would
stand. -/
theorem search_layout [Std.TransCmp t.cmp] (hsound : l.shape.Sound f height)
    (hlist : Ascending t.cmp l.shape.toList) (key : K) :
    (∃ path focus rest low entry high, height = rest + path.length ∧
        Layout.plug path focus = l ∧ focus.shape = Shape.join low entry high ∧
        low.Regular f rest ∧ high.Regular f rest ∧ t.cmp entry.1 key = .eq ∧
        Shape.Steered (Shape.steerTo t.cmp key) (Layout.shapes path) ∧
        l.shape.walk (Shape.steerTo t.cmp key) [] =
          (Layout.shapes path, Shape.join low entry high) ∧
        Shape.search t.cmp key focus.entries = .found low.entries.length) ∨
      ∃ path leaf low high, height = path.length ∧ Layout.plug path leaf = l ∧
        leaf.children = [] ∧ leaf.entries = low ++ high ∧
        Splits t.cmp key (Shape.leads (Layout.shapes path) ++ low)
          (high ++ Shape.trails (Layout.shapes path)) ∧
        Shape.Steered (Shape.steerTo t.cmp key) (Layout.shapes path) ∧
        l.shape.walk (Shape.steerTo t.cmp key) [] =
          (Layout.shapes path, .node (low ++ high) []) ∧
        Shape.search t.cmp key leaf.entries = .absent low.length := by
  rcases Shape.search_cases hsound.1 hlist key with
    ⟨spath, rest, low, entry, high, rfl, hplug, hlow, hhigh, hpath, hkey, hwalk, hsearch⟩ |
    ⟨spath, low, high, rfl, hplug, hpath, hsplit, hwalk, hsearch⟩
  · obtain ⟨path, focus, rfl, rfl, hshape⟩ := Layout.exists_plug hplug.symm
    rw [← hshape, Layout.entries_shape] at hsearch
    exact .inl ⟨path, focus, rest, low, entry, high, by rw [Layout.length_shapes], rfl, hshape,
      hlow, hhigh, hkey, hpath, hwalk, hsearch⟩
  · obtain ⟨path, leaf, rfl, rfl, hshape⟩ := Layout.exists_plug hplug.symm
    obtain ⟨hentries, hchildren⟩ := Layout.eq_of_shape hshape
    rw [← hentries] at hsearch
    exact .inr ⟨path, leaf, low, high, by rw [Layout.length_shapes], rfl, hchildren, hentries,
      hsplit, hpath, hwalk, hsearch⟩

/-- The descent in the arena ends where the search in the layout does. -/
theorem Holds.search_cases [Std.TransCmp t.cmp] (h : t.Holds (some l))
    (hsound : l.shape.Sound f height) (hlist : Ascending t.cmp l.shape.toList) (key : K) :
    (∃ path focus rest low entry high, height = rest + path.length ∧
        Layout.plug path focus = l ∧ focus.shape = Shape.join low entry high ∧
        low.Regular f rest ∧ high.Regular f rest ∧ t.cmp entry.1 key = .eq ∧
        l.shape.walk (Shape.steerTo t.cmp key) [] =
          (Layout.shapes path, Shape.join low entry high) ∧
        Shape.search t.cmp key (Shape.join low entry high).entries = .found low.entries.length ∧
        t.descend key t.bound l.slot = .ok (focus.slot, .found low.entries.length)) ∨
      ∃ path leaf low high, height = path.length ∧ Layout.plug path leaf = l ∧
        leaf.children = [] ∧ leaf.entries = low ++ high ∧
        Splits t.cmp key (Shape.leads (Layout.shapes path) ++ low)
          (high ++ Shape.trails (Layout.shapes path)) ∧
        l.shape.walk (Shape.steerTo t.cmp key) [] =
          (Layout.shapes path, .node (low ++ high) []) ∧
        Shape.search t.cmp key (low ++ high) = .absent low.length ∧
        t.descend key t.bound l.slot = .ok (leaf.slot, .absent low.length) := by
  rcases search_layout hsound hlist key with
    ⟨path, focus, rest, low, entry, high, hheight, rfl, hshape, hlow, hhigh, hkey, hpath, hwalk,
      hsearch⟩ |
    ⟨path, leaf, low, high, hheight, rfl, hleaf, hentries, hsplit, hpath, hwalk, hsearch⟩
  · have hdescend := descend_eq h.stores.reads hpath hsearch (.inl ⟨_, rfl⟩) h.length_lt
    rw [← Layout.entries_shape, hshape] at hsearch
    exact .inl ⟨path, focus, rest, low, entry, high, hheight, rfl, hshape, hlow, hhigh, hkey, hwalk,
      hsearch, hdescend⟩
  · have hdescend := descend_eq h.stores.reads hpath hsearch (.inr hleaf) h.length_lt
    rw [hentries] at hsearch
    exact .inr ⟨path, leaf, low, high, hheight, rfl, hleaf, hentries, hsplit, hwalk, hsearch,
      hdescend⟩

end search

theorem find?_of_found {root id : NodeId} {position : Nat} {key : K} (hroot : t.root = some root)
    (h : t.descend key t.bound root = .ok (id, .found position)) :
    t.find? key = .ok (some (id, position)) := by
  rw [find?, hroot]
  simp only [h, ok_bind]
  rfl

theorem find?_of_absent {root id : NodeId} {position : Nat} {key : K} (hroot : t.root = some root)
    (h : t.descend key t.bound root = .ok (id, .absent position)) : t.find? key = .ok none := by
  rw [find?, hroot]
  simp only [h, ok_bind]
  rfl

theorem find?_of_none {key : K} (hroot : t.root = none) : t.find? key = .ok none := by
  rw [find?, hroot]
  rfl

/-- An entry is found where it stands. -/
theorem Holds.find?_eq [Std.TransCmp t.cmp] {path : List (Frame (K × V))} {focus : Layout (K × V)}
    {low high : Shape (K × V)} {entry : K × V} (h : t.Holds (some (Layout.plug path focus)))
    (hlist : Ascending t.cmp (Layout.plug path focus).shape.toList)
    (hfocus : focus.shape = Shape.join low entry high) :
    t.find? entry.1 = .ok (some (focus.slot, low.entries.length)) := by
  have hentries : focus.entries = low.entries ++ entry :: high.entries := by
    rw [← Layout.entries_shape, hfocus]
    rfl
  have hsub := Shape.entries_sublist_toList focus.shape
  rw [Layout.entries_shape, hentries] at hsub
  have hmem : entry ∈ focus.shape.toList := hsub.subset (by simp)
  rw [Layout.shape_plug] at hlist
  have hinner : Ascending t.cmp (low.entries ++ entry :: high.entries) := by
    rw [Shape.toList_plug] at hlist
    exact (List.pairwise_append.mp (List.pairwise_append.mp hlist).1).2.1.sublist hsub
  have hsearch : Shape.search t.cmp entry.1 focus.entries = .found low.entries.length := by
    rw [hentries]
    exact Shape.search_of_eq (hinner.splits Std.ReflCmp.compare_self) Std.ReflCmp.compare_self
  exact find?_of_found h.root (descend_eq h.stores.reads (Shape.steered_of_mem hlist hmem) hsearch
    (.inl ⟨_, rfl⟩) h.length_lt)

theorem Holds.getEntry_eq [Std.TransCmp t.cmp] {l? : Option (Layout (K × V))} {tall : Nat}
    (h : t.Holds l?) (hl : Shape.Stands f tall (l?.map Layout.shape))
    (hlist : Ascending t.cmp (Shape.contents (l?.map Layout.shape))) (key : K) :
    t.getEntry? key = .ok (Entries.find? t.cmp key (Shape.contents (l?.map Layout.shape))) := by
  cases l? with
  | none =>
      unfold getEntry?
      rw [find?_of_none h.root]
      rfl
  | some l =>
      obtain ⟨height, rfl, hsound⟩ := hl
      unfold getEntry?
      simp only [Option.map_some, Shape.contents_some] at hlist ⊢
      rcases h.search_cases hsound hlist key with
        ⟨path, focus, rest, low, entry, high, -, rfl, hshape, hlow, hhigh, hkey, -, -, hdescend⟩ |
        ⟨path, leaf, low, high, -, rfl, hleaf, hentries, hsplit, -, -, hdescend⟩
      · have hfocus : focus.entries = low.entries ++ entry :: high.entries := by
          rw [← Layout.entries_shape, hshape]
          rfl
        have hnode := h.stores.reads.node_plug
        rw [hfocus] at hnode
        rw [Layout.shape_plug, hshape, Shape.toList_plug_join entry hlow hhigh] at hlist ⊢
        rw [(hlist.splits hkey).find?_of_eq hkey]
        simp only [find?_of_found h.root hdescend, ok_bind, pure_eq_ok, hnode, itemAt_append]
      · rw [Layout.toList_plug_leaf hleaf hentries, hsplit.find?_of_absent]
        simp only [find?_of_absent h.root hdescend, ok_bind, pure_eq_ok]

theorem contains_of_getEntry {key : K} {found? : Option (K × V)}
    (h : t.getEntry? key = .ok found?) : t.contains key = .ok found?.isSome := by
  unfold getEntry? at h
  rw [contains]
  cases hfind : t.find? key with
  | error fault =>
      rw [hfind] at h
      contradiction
  | ok place? =>
      rw [hfind, ok_bind] at h
      rw [ok_bind]
      cases place? with
      | none =>
          obtain rfl : none = found? := Except.ok.inj h
          rfl
      | some place =>
          cases hnode : t.arena.node place.1 with
          | error fault =>
              simp only [hnode] at h
              contradiction
          | ok node =>
              simp only [hnode, ok_bind] at h
              cases hitem : itemAt node.entries place.2 with
              | error fault =>
                  simp only [hitem] at h
                  contradiction
              | ok entry =>
                  simp only [hitem, ok_bind] at h
                  obtain rfl : some entry = found? := Except.ok.inj h
                  rfl

/-- Looking something up in a sound tree is looking it up in the list of its entries. -/
theorem Sound.getEntry_eq [Std.TransCmp t.cmp] {l? : Option (Layout (K × V))} (h : t.Sound l?)
    (key : K) :
    t.getEntry? key = .ok (Entries.find? t.cmp key (Shape.contents (l?.map Layout.shape))) := by
  obtain ⟨tall, hstands⟩ := h.stands
  exact h.holds.getEntry_eq hstands h.ascending key

theorem Sound.get?_eq [Std.TransCmp t.cmp] {l? : Option (Layout (K × V))} (h : t.Sound l?)
    (key : K) :
    t.get? key =
      .ok ((Entries.find? t.cmp key (Shape.contents (l?.map Layout.shape))).map Prod.snd) := by
  rw [get?, h.getEntry_eq]
  rfl

theorem Sound.contains_eq [Std.TransCmp t.cmp] {l? : Option (Layout (K × V))} (h : t.Sound l?)
    (key : K) :
    t.contains key =
      .ok (Entries.find? t.cmp key (Shape.contents (l?.map Layout.shape))).isSome :=
  contains_of_getEntry (h.getEntry_eq key)

/-! ### Changing a value -/

/-- Changing a value writes into one node and leaves the shape around it alone. -/
theorem Holds.modify_eq [Std.TransCmp t.cmp] {l? : Option (Layout (K × V))} {tall : Nat}
    (h : t.Holds l?) (hl : Shape.Stands f tall (l?.map Layout.shape))
    (hlist : Ascending t.cmp (Shape.contents (l?.map Layout.shape))) (key : K) (change : V → V) :
    ∃ u l?', t.modify key change = .ok
        ⟨(Entries.find? t.cmp key (Shape.contents (l?.map Layout.shape))).map Prod.snd, u, []⟩ ∧
      u.Holds l?' ∧
      l?'.map Layout.shape = (l?.map Layout.shape).map (Shape.revise t.cmp key change) ∧
      Alike t u ∧ u.size = t.size ∧ u.arena.stock = t.arena.stock := by
  cases l? with
  | none =>
      refine ⟨t, none, ?_, h, rfl, .refl t, rfl, rfl⟩
      rw [modify, find?_of_none h.root]
      rfl
  | some l =>
      obtain ⟨height, rfl, hsound⟩ := hl
      rw [modify]
      simp only [Option.map_some, Shape.contents_some] at hlist ⊢
      rcases h.search_cases hsound hlist key with
        ⟨path, focus, rest, low, entry, high, -, rfl, hshape, hlow, hhigh, hkey, hwalk, hsearch,
          hdescend⟩ |
        ⟨path, leaf, low, high, -, rfl, hleaf, hentries, hsplit, hwalk, hsearch, hdescend⟩
      · have hfocus : focus.entries = low.entries ++ entry :: high.entries := by
          rw [← Layout.entries_shape, hshape]
          rfl
        have hnode := h.stores.reads.node_plug
        rw [hfocus] at hnode
        have hrevise : Shape.revise t.cmp key change (Layout.plug path focus).shape =
            Shape.plug (Layout.shapes path) (Shape.join low (entry.1, change entry.2) high) := by
          simp only [Shape.revise, hwalk, hsearch, Shape.getElem?_join, Shape.swap_join]
        obtain ⟨arena, hwrite, hstores, hstock⟩ := h.stores.write_entries_plug
          (low.entries ++ (entry.1, change entry.2) :: high.entries)
        refine ⟨{ t with arena }, some (Layout.plug path (focus.withEntries _)), ?_,
          ⟨hstores, ?_⟩, ?_, ⟨rfl, rfl, congrArg Arena.Stock.capacity hstock⟩, rfl, hstock⟩
        · rw [Layout.shape_plug, hshape, Shape.toList_plug_join entry hlow hhigh] at hlist ⊢
          rw [(hlist.splits hkey).find?_of_eq hkey]
          simp only [find?_of_found h.root hdescend, ok_bind, pure_eq_ok, hnode, itemAt_append,
            replaceAt_append, hwrite]
          rfl
        · rw [Option.map_some, Layout.slot_plug_congr path (Layout.slot_withEntries _ focus)]
          exact h.root
        · rw [Option.map_some, Layout.shape_plug, Layout.shape_withEntries, hshape, hrevise]
          rfl
      · have hrevise : Shape.revise t.cmp key change (Layout.plug path leaf).shape =
            (Layout.plug path leaf).shape := by
          simp only [Shape.revise, hwalk, hsearch, Shape.entries_node]
        refine ⟨t, _, ?_, h, by rw [Option.map_some, hrevise], .refl t, rfl, rfl⟩
        rw [Layout.toList_plug_leaf hleaf hentries, hsplit.find?_of_absent]
        rw [find?_of_absent h.root hdescend]
        rfl

/-- Changing a value keeps the invariant. -/
theorem Sound.modify [Std.TransCmp t.cmp] {l? : Option (Layout (K × V))} (h : t.Sound l?)
    (key : K) (change : V → V) :
    ∃ u l?', t.modify key change = .ok
        ⟨(Entries.find? t.cmp key (Shape.contents (l?.map Layout.shape))).map Prod.snd, u, []⟩ ∧
      u.Sound l?' ∧
      l?'.map Layout.shape = (l?.map Layout.shape).map (Shape.revise t.cmp key change) ∧
      Shape.contents (l?'.map Layout.shape) =
        Entries.revise t.cmp key change (Shape.contents (l?.map Layout.shape)) ∧
      Alike t u ∧ u.arena.stock = t.arena.stock := by
  obtain ⟨tall, hstands⟩ := h.stands
  obtain ⟨u, l?', hmodify, hholds, hshape, halike, hsame, hstock⟩ :=
    h.holds.modify_eq hstands h.ascending key change
  have hnew : (∃ tall, Shape.Stands t.fanout tall (l?'.map Layout.shape)) ∧
      Shape.contents (l?'.map Layout.shape) =
        Entries.revise t.cmp key change (Shape.contents (l?.map Layout.shape)) := by
    rw [hshape]
    cases l? with
    | none => exact ⟨⟨tall, hstands⟩, rfl⟩
    | some l =>
        obtain ⟨height, rfl, hsound⟩ := hstands
        obtain ⟨hsound, hlist⟩ := Shape.revise_spec hsound h.ascending key change
        exact ⟨⟨_, _, rfl, hsound⟩, hlist⟩
  refine ⟨u, l?', hmodify, ⟨hholds, ?_, ?_, ?_⟩, hshape, hnew.2, halike, hstock⟩
  · rw [halike.fanout]
    exact hnew.1
  · rw [halike.cmp, hnew.2]
    exact h.ascending.revise key change
  · rw [hsame, hnew.2, h.size_eq, Entries.revise, List.length_map]

end Multiway.Tree
