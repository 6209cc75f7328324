import Multiway.Proofs.Tree.Search

/-!
Looking for the entry that is nearest to a key.

The descent is that of a search, and on its way it keeps the separator that it passed last on one
side. What stands in front of the end of a path ends with the last separator left of the path, so
the kept separator is the last of all entries in front of the end, and likewise on the right.
-/

namespace Multiway

variable {K V : Type} {f : Fanout} {height : Nat}

namespace Shape

/-- What stands in front of a gap ends with the separator on its left. -/
theorem getLast?_lead {α : Type} (g : Gap α (Shape α)) : (lead g).getLast? = g.low.getLast? := by
  obtain ⟨before, behind⟩ := g
  cases before with
  | nil => rfl
  | cons pair before => simp [lead, Gap.low]

theorem head?_trail {α : Type} (g : Gap α (Shape α)) : (trail g).head? = g.high.head? := by
  obtain ⟨before, behind⟩ := g
  cases behind with
  | nil => rfl
  | cons pair behind => simp [trail, Gap.high]

end Shape

namespace Tree

variable {t : Tree K V} {key : K} {fuel : Nat} {id : NodeId} {node : Node K V}
  {low high : List (K × V)} {best : Option (K × V)}

theorem entryBelow_eq (hentries : node.entries = low ++ high) (best : Option (K × V)) :
    entryBelow node best low.length = .ok (low.getLast?.or best) := by
  rcases List.eq_nil_or_concat low with rfl | ⟨rest, entry, rfl⟩
  · rfl
  · rw [List.concat_eq_append] at hentries ⊢
    rw [List.append_assoc] at hentries
    rw [List.length_append, List.getLast?_concat]
    show (some <$> itemAt node.entries rest.length) = _
    rw [hentries, List.singleton_append, itemAt_append]
    rfl

theorem getElem?_eq_head? (hentries : node.entries = low ++ high) :
    node.entries[low.length]? = high.head? := by
  rw [hentries, List.getElem?_append_right (Nat.le_refl _), Nat.sub_self, List.head?_eq_getElem?]

/-! ### One node

An entry that has the key is the answer; a leaf without one answers the nearest entry that was
met. -/

section node

variable {position : Nat} {entry : K × V} (hnode : t.arena.node id = .ok node)

include hnode

theorem lastNotAbove_found (hsearch : node.search t.cmp key = .found position)
    (hitem : itemAt node.entries position = .ok entry) :
    t.lastNotAbove key (fuel + 1) id best = .ok (some entry) := by
  rw [lastNotAbove, hnode, ok_bind, hsearch]
  simp only [hitem, ok_bind]
  rfl

theorem firstNotBelow_found (hsearch : node.search t.cmp key = .found position)
    (hitem : itemAt node.entries position = .ok entry) :
    t.firstNotBelow key (fuel + 1) id best = .ok (some entry) := by
  rw [firstNotBelow, hnode, ok_bind, hsearch]
  simp only [hitem, ok_bind]
  rfl

theorem lastNotAbove_leaf (hsearch : node.search t.cmp key = .absent low.length)
    (hentries : node.entries = low ++ high) (hleaf : node.isLeaf = true) :
    t.lastNotAbove key (fuel + 1) id best = .ok (low.getLast?.or best) := by
  rw [lastNotAbove, hnode, ok_bind, hsearch]
  simp only [entryBelow_eq hentries, ok_bind, hleaf, if_true]
  rfl

theorem firstNotBelow_leaf (hsearch : node.search t.cmp key = .absent low.length)
    (hentries : node.entries = low ++ high) (hleaf : node.isLeaf = true) :
    t.firstNotBelow key (fuel + 1) id best = .ok (high.head?.or best) := by
  rw [firstNotBelow, hnode, ok_bind, hsearch]
  simp only [getElem?_eq_head? hentries, hleaf, if_true, Option.orElse_eq_orElse,
    Option.orElse_eq_or]
  rfl

end node

/-! ### The way down -/

variable {top : Option NodeId} {path : List (Frame (K × V))} {l : Layout (K × V)}

/-- The way down keeps the last entry in front of the path. -/
theorem lastNotAbove_eq (h : t.arena.Reads ((Layout.plug path l).cells top))
    (hpath : Shape.Steered (Shape.steerTo t.cmp key) (Layout.shapes path)) (fuel : Nat) :
    t.lastNotAbove key (path.length + fuel) (Layout.plug path l).slot none =
      t.lastNotAbove key fuel l.slot (Shape.leads (Layout.shapes path)).getLast? := by
  -- What is carried along is the last entry in front of the part of the path that is done.
  refine h.reach_along (fun up fuel id =>
    t.lastNotAbove key fuel id (Shape.leads (Layout.shapes up)).getLast?) ?_ fuel
  intro frame up hmem hole parent hnode fuel
  have hgap := hpath (frame.2.map Layout.shape) (List.mem_map_of_mem hmem)
  rw [Gap.position_map, Gap.entries_map] at hgap
  have hsearch : (Layout.frameNode parent hole frame.2).search t.cmp key =
      .absent frame.2.position := Shape.search_of_steerTo hgap
  have hentries : (Layout.frameNode parent hole frame.2).entries = frame.2.low ++ frame.2.high := rfl
  have hbelow := entryBelow_eq hentries (Shape.leads (Layout.shapes up)).getLast?
  rw [Gap.length_low] at hbelow
  rw [lastNotAbove, hnode, ok_bind, hsearch]
  simp only [hbelow, ok_bind, Layout.isLeaf_frameNode, Layout.itemAt_frameNode]
  rw [Layout.shapes_cons, Shape.leads, List.getLast?_append, Shape.getLast?_lead, Gap.low_map]
  rfl

/-- The way down keeps the first entry behind the path. -/
theorem firstNotBelow_eq (h : t.arena.Reads ((Layout.plug path l).cells top))
    (hpath : Shape.Steered (Shape.steerTo t.cmp key) (Layout.shapes path)) (fuel : Nat) :
    t.firstNotBelow key (path.length + fuel) (Layout.plug path l).slot none =
      t.firstNotBelow key fuel l.slot (Shape.trails (Layout.shapes path)).head? := by
  refine h.reach_along (fun up fuel id =>
    t.firstNotBelow key fuel id (Shape.trails (Layout.shapes up)).head?) ?_ fuel
  intro frame up hmem hole parent hnode fuel
  have hgap := hpath (frame.2.map Layout.shape) (List.mem_map_of_mem hmem)
  rw [Gap.position_map, Gap.entries_map] at hgap
  have hsearch : (Layout.frameNode parent hole frame.2).search t.cmp key =
      .absent frame.2.position := Shape.search_of_steerTo hgap
  have hentries : (Layout.frameNode parent hole frame.2).entries = frame.2.low ++ frame.2.high := rfl
  have habove := getElem?_eq_head? hentries
  rw [Gap.length_low] at habove
  rw [firstNotBelow, hnode, ok_bind, hsearch]
  simp only [habove, ok_bind, Layout.isLeaf_frameNode, Layout.itemAt_frameNode,
    Option.orElse_eq_orElse, Option.orElse_eq_or]
  rw [Layout.shapes_cons, Shape.trails, List.head?_append, Shape.head?_trail, Gap.high_map]
  rfl

/-! ### The answers -/

/-- Every path of a tree leaves something of the bound over. -/
theorem Holds.exists_fuel (h : t.Holds (some (Layout.plug path l))) :
    ∃ fuel, t.bound = path.length + (fuel + 1) :=
  ⟨t.bound - path.length - 1, by have := h.length_lt; omega⟩

variable [Std.TransCmp t.cmp] {l? : Option (Layout (K × V))}

/-- Both answers can be read off the list of all entries. -/
theorem Sound.nearest_eq (h : t.Sound l?) (key : K) :
    t.getEntryLE? key =
        .ok (Entries.findLE? t.cmp key (Shape.contents (l?.map Layout.shape))) ∧
      t.getEntryGE? key =
        .ok (Entries.findGE? t.cmp key (Shape.contents (l?.map Layout.shape))) := by
  rw [getEntryLE?, getEntryGE?, h.holds.root]
  cases l? with
  | none => exact ⟨rfl, rfl⟩
  | some l =>
      obtain ⟨tall, height, -, hsound⟩ := h.stands
      have hlist := h.ascending
      have hreads := h.holds.stores.reads
      simp only [Option.map_some, Shape.contents_some] at hlist ⊢
      rcases search_layout hsound hlist key with
        ⟨path, focus, rest, low, entry, high, -, rfl, hshape, hlow, hhigh, hkey, hpath, -,
          hsearch⟩ |
        ⟨path, leaf, low, high, -, rfl, hleaf, hentries, hsplit, hpath, -, hsearch⟩
      · obtain ⟨fuel, hfuel⟩ := h.holds.exists_fuel
        have hitem : itemAt focus.entries low.entries.length = .ok entry := by
          rw [← Layout.entries_shape, hshape]
          exact itemAt_append ..
        rw [Layout.shape_plug, hshape, Shape.toList_plug_join entry hlow hhigh] at hlist ⊢
        have hsplit := hlist.splits hkey
        rw [hsplit.findLE?_of_eq hkey, hsplit.findGE?_of_eq hkey, hfuel,
          lastNotAbove_eq hreads hpath, firstNotBelow_eq hreads hpath]
        exact ⟨lastNotAbove_found hreads.node_plug hsearch hitem,
          firstNotBelow_found hreads.node_plug hsearch hitem⟩
      · obtain ⟨fuel, hfuel⟩ := h.holds.exists_fuel
        have hend := Layout.isLeaf_of_leaf hleaf (Layout.parentOf none path)
        rw [Layout.toList_plug_leaf hleaf hentries, hsplit.findLE?_of_absent,
          hsplit.findGE?_of_absent, hfuel, lastNotAbove_eq hreads hpath,
          firstNotBelow_eq hreads hpath, List.getLast?_append, List.head?_append]
        exact ⟨lastNotAbove_leaf hreads.node_plug hsearch hentries hend,
          firstNotBelow_leaf hreads.node_plug hsearch hentries hend⟩

end Tree

end Multiway
