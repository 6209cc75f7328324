import Mathlib.Data.List.Basic
import Multiway.Proofs.Tree.Nearest
import Multiway.Proofs.Tree.Valid
import Multiway.Tree.Cursor

/-!
Where a cursor goes.

A cursor that stands on an entry knows a node and an index, and the next entry may be anywhere. In a
leaf with more entries it is beside the first one. In an inner node it is at the low end of the child
on the right. From the last entry of a leaf it is the first separator on the way up that has the
whole way on its left, which is the first of all entries behind the path. In each case the list of
all entries is cut at the entry in a way that shows the next one, and since no entry comes twice
there is only one such cut.
-/

namespace Multiway

variable {K V : Type} {f : Fanout} {height : Nat}

/-- No entry comes twice, so a list is cut at an entry in one way only. -/
theorem Ascending.cut_unique {cmp : K → K → Ordering} [Std.TransCmp cmp]
    {low high low' high' : List (K × V)} {entry : K × V}
    (h : Ascending cmp (low ++ entry :: high))
    (heq : low ++ entry :: high = low' ++ entry :: high') : low = low' ∧ high = high' := by
  have hnodup := List.nodup_middle.mp h.nodup
  have hmem := (List.nodup_cons.mp hnodup).1
  rw [List.mem_append, not_or] at hmem
  obtain ⟨hlow, -, hhigh⟩ := (List.append_cons_inj_of_notMem hmem.1 hmem.2).mp heq
  exact ⟨hlow, hhigh⟩

namespace Tree

variable {t : Tree K V} {path : List (Frame (K × V))} {l focus : Layout (K × V)}

/-- The place of an entry, or else a boundary. -/
def stand (t : Tree K V) (boundary : Boundary) : Option (K × V) → Position
  | none => .beyond boundary
  | some entry => .on (t.placeOf entry).1 (t.placeOf entry).2

/-! ### Cuts at an entry

The list of all entries, cut at an entry of a leaf and at a separator beside a child. -/

section cuts

variable {cmp : K → K → Ordering} [Std.TransCmp cmp] {entry : K × V} {index : Nat}
  {before behind : List (K × V)}

theorem cut_leaf (hlist : Ascending cmp (Layout.plug path focus).shape.toList)
    (hleaf : focus.children = []) (hget : focus.entries[index]? = some entry)
    (hcut : (Layout.plug path focus).shape.toList = before ++ entry :: behind) :
    before = Shape.leads (Layout.shapes path) ++ focus.entries.take index ∧
      behind = focus.entries.drop (index + 1) ++ Shape.trails (Layout.shapes path) := by
  obtain ⟨hindex, hitem⟩ := List.getElem?_eq_some_iff.mp hget
  have hentries : focus.entries =
      focus.entries.take index ++ entry :: focus.entries.drop (index + 1) := by
    rw [← hitem, List.getElem_cons_drop, List.take_append_drop]
  have hall : (Layout.plug path focus).shape.toList = _ := Layout.toList_plug_leaf hleaf hentries
  rw [hcut] at hall hlist
  exact hlist.cut_unique hall

variable {slot : NodeId} {g : Gap (K × V) (Layout (K × V))} {child : Layout (K × V)}

/-- Behind the separator on its left comes a child. -/
theorem cut_left (hlist : Ascending cmp (Layout.plug ((slot, g) :: path) child).shape.toList)
    (hposition : g.position = index + 1) (hget : g.entries[index]? = some entry)
    (hcut : (Layout.plug ((slot, g) :: path) child).shape.toList = before ++ entry :: behind) :
    behind = child.shape.toList ++ Shape.trails (Layout.shapes ((slot, g) :: path)) := by
  have hlow : g.low.getLast? = some entry := by
    have hlt : index < g.low.length := by
      rw [Gap.length_low, hposition]
      exact Nat.lt_succ_self index
    rw [Gap.entries, List.getElem?_append_left hlt] at hget
    rw [List.getLast?_eq_getElem?, Gap.length_low, hposition, Nat.add_sub_cancel, hget]
  obtain ⟨init, hinit⟩ : ∃ init, Shape.leads (Layout.shapes ((slot, g) :: path)) =
      init ++ [entry] := by
    rw [← List.getLast?_eq_some_iff, Layout.shapes_cons, Shape.leads, List.getLast?_append,
      Shape.getLast?_lead, Gap.low_map, hlow]
    rfl
  have hall := hcut
  rw [Layout.shape_plug, Shape.toList_plug, hinit, List.append_assoc, List.append_assoc] at hall
  rw [hcut] at hlist
  exact (hlist.cut_unique hall.symm).2

/-- In front of the separator on its right comes a child. -/
theorem cut_right (hlist : Ascending cmp (Layout.plug ((slot, g) :: path) child).shape.toList)
    (hposition : g.position = index) (hget : g.entries[index]? = some entry)
    (hcut : (Layout.plug ((slot, g) :: path) child).shape.toList = before ++ entry :: behind) :
    before = Shape.leads (Layout.shapes ((slot, g) :: path)) ++ child.shape.toList := by
  have hhigh : g.high.head? = some entry := by
    rw [← hposition, Gap.entries, ← Gap.length_low, List.getElem?_append_right (Nat.le_refl _),
      Nat.sub_self] at hget
    rw [List.head?_eq_getElem?, hget]
  obtain ⟨rest, hrest⟩ : ∃ rest, Shape.trails (Layout.shapes ((slot, g) :: path)) =
      entry :: rest := by
    rw [← List.head?_eq_some_iff, Layout.shapes_cons, Shape.trails, List.head?_append,
      Shape.head?_trail, Gap.high_map, hhigh]
    rfl
  have hall := hcut
  rw [Layout.shape_plug, Shape.toList_plug, hrest] at hall
  rw [hcut] at hlist
  exact (hlist.cut_unique hall.symm).1

end cuts

section moves

variable [Std.TransCmp t.cmp] (h : t.Holds (some (Layout.plug path focus)))
  (hsound : (Layout.plug path focus).shape.Sound f height)
  (hlist : Ascending t.cmp (Layout.plug path focus).shape.toList)

include h hsound hlist

theorem Holds.placeOf_getElem {index : Nat} {entry : K × V}
    (hget : focus.entries[index]? = some entry) : t.placeOf entry = (focus.slot, index) := by
  obtain ⟨hlt, -⟩ := List.getElem?_eq_some_iff.mp hget
  obtain ⟨rest, low, entry', high, -, hfocus, -, -, rfl⟩ := exists_join hsound rfl hlt
  rw [← Layout.entries_shape, hfocus, Shape.getElem?_join] at hget
  obtain rfl := Option.some.inj hget
  exact h.placeOf_eq hlist hfocus

/-! ### The ends of a subtree -/

theorem Holds.lowEnd_eq : ∃ first others, focus.shape.toList = first :: others ∧
    ∀ boundary, t.lowEnd focus.slot = .ok (t.stand boundary (some first)) := by
  obtain ⟨rest, hheight, hregular, -⟩ := Layout.sound_plug hsound
  have hfuel : rest < t.bound := by
    have := h.height_lt hsound.1.level
    omega
  have hreads := h.stores.reads
  rw [cells, Layout.cells_plug] at hreads
  obtain ⟨down, leaf, rfl, rfl, hleaf, hdown, -, hleftmost⟩ :=
    hreads.left.exists_leftmost hregular hfuel
  rw [← Layout.plug_append] at h hsound hlist
  obtain ⟨-, -, -, hsize, -⟩ := Layout.sound_plug hsound
  obtain ⟨first, others, hentries⟩ := List.exists_cons_of_length_pos hsize.root.1
  have hplace : t.placeOf first = (leaf.slot, 0) :=
    h.placeOf_getElem hsound hlist (by rw [hentries]; rfl)
  refine ⟨first, others ++ Shape.trails (Layout.shapes down), ?_, fun boundary => ?_⟩
  · rw [Layout.shape_plug, Shape.toList_plug, Shape.leads_of_steered hdown,
      Layout.toList_of_leaf hleaf, hentries]
    rfl
  · rw [lowEnd, hleftmost, stand, hplace]
    rfl

theorem Holds.highEnd_eq : ∃ others last, focus.shape.toList = others ++ [last] ∧
    ∀ boundary, t.highEnd focus.slot = .ok (t.stand boundary (some last)) := by
  obtain ⟨rest, hheight, hregular, -⟩ := Layout.sound_plug hsound
  have hfuel : rest < t.bound := by
    have := h.height_lt hsound.1.level
    omega
  have hreads := h.stores.reads
  rw [cells, Layout.cells_plug] at hreads
  obtain ⟨down, leaf, rfl, rfl, hleaf, hdown, -, hrightmost⟩ :=
    hreads.left.exists_rightmost hregular hfuel
  rw [← Layout.plug_append] at h hsound hlist
  obtain ⟨-, -, -, hsize, -⟩ := Layout.sound_plug hsound
  obtain ⟨others, last, hentries⟩ := exists_concat hsize.root.1
  have hplace : t.placeOf last = (leaf.slot, others.length) :=
    h.placeOf_getElem hsound hlist (by rw [hentries, List.getElem?_concat_length])
  refine ⟨Shape.leads (Layout.shapes down) ++ others, last, ?_, fun boundary => ?_⟩
  · rw [Layout.shape_plug, Shape.toList_plug, Shape.trails_of_steered hdown,
      Layout.toList_of_leaf hleaf, hentries, List.append_nil, List.append_assoc]
  · have hone : oneBelow leaf.entries.length = .ok others.length := by
      rw [hentries, List.length_append]
      rfl
    rw [highEnd, hrightmost, stand, hplace]
    simp only [ok_bind, h.stores.reads.node_plug, hone]
    rfl

/-! ### The way up

Both climbs look at the gap through which they come and go on as long as there is nothing on one side
of it. What `next` says of a path is the entry that such a climb comes to. -/

theorem Holds.climb_eq {separator : Node K V → Nat → Option Nat} (boundary : Boundary)
    (next : List (Frame (K × V)) → Option (K × V)) (hnil : next [] = none)
    (hcons : ∀ (slot : NodeId) (g : Gap (K × V) (Layout (K × V))) up parent hole,
      (separator (Layout.frameNode parent hole g) g.position = none ∧
        next ((slot, g) :: up) = next up) ∨
      ∃ index entry, separator (Layout.frameNode parent hole g) g.position = some index ∧
        g.entries[index]? = some entry ∧ next ((slot, g) :: up) = some entry)
    {fuel : Nat} (hfuel : path.length ≤ fuel) :
    t.climb separator boundary fuel focus.slot = .ok (t.stand boundary (next path)) := by
  -- The climb goes up the path frame by frame, and the node it stands on is filled in below.
  induction path generalizing focus fuel with
  | nil =>
      rw [climb, h.stores.reads.node_plug, ok_bind, hnil]
      rfl
  | cons frame path ih =>
      obtain ⟨fuel, rfl⟩ : ∃ rest, fuel = rest + 1 :=
        ⟨fuel - 1, by rw [List.length_cons] at hfuel; omega⟩
      obtain ⟨slot, g⟩ := frame
      have hreads : t.arena.Reads ((Layout.plug ((slot, g) :: path) focus).cells none) :=
        h.stores.reads
      have hparent : Layout.parentOf none ((slot, g) :: path) = some slot := rfl
      have hposition : (Layout.frameNode (Layout.parentOf none path) focus.slot g).positionOf?
          focus.slot = some g.position := Arena.Stores.positionOf_plug h.stores
      rw [climb, hreads.node_plug, ok_bind]
      simp only [hparent, hreads.node_above, ok_bind, hposition]
      rcases hcons slot g path (Layout.parentOf none path) focus.slot with
        ⟨hnone, hnext⟩ | ⟨index, entry, hsome, hget, hnext⟩
      · simp only [hnone, hnext]
        exact ih h hsound hlist (Nat.le_of_succ_le_succ hfuel)
      · have hplace : t.placeOf entry = (slot, index) := by
          have hup : t.Holds (some (Layout.plug path (Layout.fill (slot, g) focus))) := h
          exact hup.placeOf_getElem hsound hlist hget
        simp only [hsome, hnext, stand, hplace]
        rfl

theorem Holds.climb_after (boundary : Boundary) :
    t.climb separatorAfter boundary t.bound focus.slot =
      .ok (t.stand boundary (Shape.trails (Layout.shapes path)).head?) := by
  refine h.climb_eq hsound hlist boundary (fun up => (Shape.trails (Layout.shapes up)).head?) rfl ?_
    (Nat.le_of_lt h.length_lt)
  intro slot g up parent hole
  have hnext : (Shape.trails (Layout.shapes ((slot, g) :: up))).head? =
      g.high.head?.or (Shape.trails (Layout.shapes up)).head? := by
    rw [Layout.shapes_cons, Shape.trails, List.head?_append, Shape.head?_trail, Gap.high_map]
  have hlength : (Layout.frameNode parent hole g).entries.length = g.position + g.high.length := by
    rw [← Gap.length_low]
    exact List.length_append
  cases hhigh : g.high with
  | nil =>
      rw [hhigh] at hlength hnext
      exact .inl ⟨if_neg (by rw [hlength]; exact Nat.lt_irrefl _), hnext⟩
  | cons entry rest =>
      rw [hhigh] at hlength hnext
      refine .inr ⟨g.position, entry, if_pos ?_, ?_, hnext⟩
      · rw [hlength, List.length_cons]
        omega
      · rw [Gap.entries, hhigh, ← Gap.length_low, List.getElem?_append_right (Nat.le_refl _),
          Nat.sub_self]
        rfl

theorem Holds.climb_before (boundary : Boundary) :
    t.climb separatorBefore boundary t.bound focus.slot =
      .ok (t.stand boundary (Shape.leads (Layout.shapes path)).getLast?) := by
  refine h.climb_eq hsound hlist boundary (fun up => (Shape.leads (Layout.shapes up)).getLast?) rfl
    ?_ (Nat.le_of_lt h.length_lt)
  intro slot g up parent hole
  have hnext : (Shape.leads (Layout.shapes ((slot, g) :: up))).getLast? =
      g.low.getLast?.or (Shape.leads (Layout.shapes up)).getLast? := by
    rw [Layout.shapes_cons, Shape.leads, List.getLast?_append, Shape.getLast?_lead, Gap.low_map]
  have hposition : g.position = g.low.length := g.length_low.symm
  rcases List.eq_nil_or_concat g.low with hlow | ⟨rest, entry, hlow⟩
  · rw [hlow] at hposition hnext
    exact .inl ⟨if_neg (by rw [hposition]; exact Nat.lt_irrefl _), hnext⟩
  · rw [List.concat_eq_append] at hlow
    rw [hlow, List.length_append, List.length_singleton] at hposition
    rw [hlow, List.getLast?_concat] at hnext
    refine .inr ⟨rest.length, entry, ?_, ?_, hnext⟩
    · rw [separatorBefore, hposition, if_pos (Nat.succ_pos _), Nat.add_sub_cancel]
    · rw [Gap.entries, hlow, List.append_assoc, List.getElem?_append_right (Nat.le_refl _),
        Nat.sub_self]
      rfl

/-! ### One step -/

/-- The entry after an entry is the one that stands behind it in the list of all entries. -/
theorem Holds.successor_eq {index : Nat} {entry : K × V} {before behind : List (K × V)}
    (hget : focus.entries[index]? = some entry)
    (hcut : (Layout.plug path focus).shape.toList = before ++ entry :: behind) :
    t.successor focus.slot index = .ok (t.stand .afterLast behind.head?) := by
  obtain ⟨rest, -, hregular, -⟩ := Layout.sound_plug hsound
  rw [successor]
  -- From a leaf the way goes to the side or up, from any other node down.
  rcases Layout.children_of_level hregular.level with hleaf | hlength
  · obtain ⟨-, rfl⟩ := cut_leaf hlist hleaf hget hcut
    have hend := Layout.isLeaf_of_leaf hleaf (Layout.parentOf none path)
    simp only [h.stores.reads.node_plug, ok_bind, hend]
    by_cases hmore : index + 1 < focus.entries.length
    · have hplace := h.placeOf_getElem hsound hlist (List.getElem?_eq_getElem hmore)
      rw [List.drop_eq_getElem_cons hmore, List.cons_append, List.head?_cons, stand, hplace]
      exact if_pos hmore
    · rw [List.drop_eq_nil_of_le (Nat.le_of_not_lt hmore), List.nil_append,
        ← h.climb_after hsound hlist]
      exact if_neg hmore
  · obtain ⟨hindex, -⟩ := List.getElem?_eq_some_iff.mp hget
    obtain ⟨child, hchild⟩ : ∃ child, focus.children[index + 1]? = some child :=
      ⟨_, List.getElem?_eq_getElem (by omega)⟩
    obtain ⟨slot, g, rfl, hposition⟩ := Layout.exists_fill hlength hchild
    have hdown : t.Holds (some (Layout.plug ((slot, g) :: path) child)) := h
    have hitem := Layout.itemAt_frameNode (Layout.parentOf none path) child.slot g
    rw [hposition] at hitem
    obtain rfl := cut_left hlist hposition hget hcut
    obtain ⟨first, others, hfirst, hlow⟩ := hdown.lowEnd_eq hsound hlist
    rw [Layout.slot_fill, hdown.stores.reads.node_above, ok_bind, Layout.isLeaf_frameNode]
    simp only [hitem, ok_bind, hfirst, List.cons_append, List.head?_cons]
    exact hlow .afterLast

/-- The entry before an entry is the one that stands in front of it in the list of all entries. -/
theorem Holds.predecessor_eq {index : Nat} {entry : K × V} {before behind : List (K × V)}
    (hget : focus.entries[index]? = some entry)
    (hcut : (Layout.plug path focus).shape.toList = before ++ entry :: behind) :
    t.predecessor focus.slot index = .ok (t.stand .beforeFirst before.getLast?) := by
  obtain ⟨rest, -, hregular, -⟩ := Layout.sound_plug hsound
  obtain ⟨hindex, -⟩ := List.getElem?_eq_some_iff.mp hget
  rw [predecessor]
  rcases Layout.children_of_level hregular.level with hleaf | hlength
  · obtain ⟨rfl, -⟩ := cut_leaf hlist hleaf hget hcut
    have hend := Layout.isLeaf_of_leaf hleaf (Layout.parentOf none path)
    simp only [h.stores.reads.node_plug, ok_bind, hend]
    cases index with
    | zero =>
        rw [List.take_zero, List.append_nil, ← h.climb_before hsound hlist]
        rfl
    | succ index =>
        have hless : index < focus.entries.length := Nat.lt_of_succ_lt hindex
        have hplace := h.placeOf_getElem hsound hlist (List.getElem?_eq_getElem hless)
        rw [List.take_succ_eq_append_getElem hless, ← List.append_assoc, List.getLast?_concat,
          stand, hplace]
        rfl
  · obtain ⟨child, hchild⟩ : ∃ child, focus.children[index]? = some child :=
      ⟨_, List.getElem?_eq_getElem (by omega)⟩
    obtain ⟨slot, g, rfl, hposition⟩ := Layout.exists_fill hlength hchild
    have hdown : t.Holds (some (Layout.plug ((slot, g) :: path) child)) := h
    have hitem := Layout.itemAt_frameNode (Layout.parentOf none path) child.slot g
    rw [hposition] at hitem
    obtain rfl := cut_right hlist hposition hget hcut
    obtain ⟨others, last, hlast, hhigh⟩ := hdown.highEnd_eq hsound hlist
    rw [Layout.slot_fill, hdown.stores.reads.node_above, ok_bind, Layout.isLeaf_frameNode]
    simp only [hitem, ok_bind, hlast, ← List.append_assoc, List.getLast?_concat]
    exact hhigh .beforeFirst

end moves

/-! ### From every position

A list that is cut anywhere shows two neighbours, or a boundary on one side; a step forward leads
from the left one to the right one and a step backward from the right one to the left one. -/

theorem exists_getElem_place [Std.TransCmp t.cmp] {l : Layout (K × V)} (h : t.Holds (some l))
    (hsound : l.shape.Sound f height) (hlist : Ascending t.cmp l.shape.toList) {entry : K × V}
    (hmem : entry ∈ l.shape.toList) :
    ∃ path focus, Layout.plug path focus = l ∧
      focus.entries[(t.placeOf entry).2]? = some entry ∧ (t.placeOf entry).1 = focus.slot := by
  obtain ⟨path, focus, rest, low, high, rfl, hfocus, -, -, hplace⟩ :=
    h.exists_place hsound hlist hmem
  refine ⟨path, focus, rfl, ?_, by rw [hplace]⟩
  rw [hplace, ← Layout.entries_shape, hfocus, Shape.getElem?_join]

variable [Std.TransCmp t.cmp] {l? : Option (Layout (K × V))} {before behind : List (K × V)}

theorem Sound.positionAfter_eq (h : t.Sound l?)
    (hcut : Shape.contents (l?.map Layout.shape) = before ++ behind) :
    t.positionAfter (t.stand .beforeFirst before.getLast?) =
      .ok (t.stand .afterLast behind.head?) := by
  cases l? with
  | none =>
      obtain ⟨rfl, rfl⟩ := List.append_eq_nil_iff.mp hcut.symm
      simp only [List.getLast?_nil, stand, positionAfter, h.holds.root]
      rfl
  | some l =>
      obtain ⟨tall, height, -, hsound⟩ := h.stands
      have hlist : Ascending t.cmp l.shape.toList := h.ascending
      rw [Option.map_some, Shape.contents_some] at hcut
      rcases List.eq_nil_or_concat before with rfl | ⟨rest, entry, rfl⟩
      · have hroot : t.Holds (some (Layout.plug [] l)) := h.holds
        obtain ⟨first, others, hfirst, hlow⟩ := hroot.lowEnd_eq hsound hlist
        obtain rfl : behind = first :: others := hcut.symm.trans hfirst
        simp only [List.getLast?_nil, stand, positionAfter, h.holds.root]
        exact hlow .afterLast
      · rw [List.concat_eq_append] at hcut ⊢
        have hmem : entry ∈ l.shape.toList := by simp [hcut]
        obtain ⟨path, focus, rfl, hget, hslot⟩ := exists_getElem_place h.holds hsound hlist hmem
        rw [List.append_assoc, List.singleton_append] at hcut
        rw [List.getLast?_concat, stand, hslot]
        exact h.holds.successor_eq hsound hlist hget hcut

theorem Sound.positionBefore_eq (h : t.Sound l?)
    (hcut : Shape.contents (l?.map Layout.shape) = before ++ behind) :
    t.positionBefore (t.stand .afterLast behind.head?) =
      .ok (t.stand .beforeFirst before.getLast?) := by
  cases l? with
  | none =>
      obtain ⟨rfl, rfl⟩ := List.append_eq_nil_iff.mp hcut.symm
      simp only [List.head?_nil, stand, positionBefore, h.holds.root]
      rfl
  | some l =>
      obtain ⟨tall, height, -, hsound⟩ := h.stands
      have hlist : Ascending t.cmp l.shape.toList := h.ascending
      rw [Option.map_some, Shape.contents_some] at hcut
      cases behind with
      | nil =>
          have hroot : t.Holds (some (Layout.plug [] l)) := h.holds
          obtain ⟨others, last, hlast, hhigh⟩ := hroot.highEnd_eq hsound hlist
          rw [List.append_nil] at hcut
          obtain rfl : before = others ++ [last] := hcut.symm.trans hlast
          simp only [List.head?_nil, stand, positionBefore, h.holds.root, List.getLast?_concat]
          exact hhigh .beforeFirst
      | cons entry rest =>
          have hmem : entry ∈ l.shape.toList := by simp [hcut]
          obtain ⟨path, focus, rfl, hget, hslot⟩ := exists_getElem_place h.holds hsound hlist hmem
          rw [List.head?_cons, stand, hslot]
          exact h.holds.predecessor_eq hsound hlist hget hcut

end Tree

end Multiway
