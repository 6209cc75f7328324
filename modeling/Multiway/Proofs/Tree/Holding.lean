import Multiway.Proofs.Arena.Rewriting
import Multiway.Proofs.Shape.Insertion
import Multiway.Tree.Basic

/-!
What a tree holds.

A tree holds a layout when its arena stores the cells of the layout and its root is the topmost
slot. Every operation on a tree is described in this relation: it succeeds, and what the tree holds
afterwards has the shape that the function on shapes of the same name gives. A tree is sound when what it
holds is balanced and in order and its number of entries is right; this is the invariant that every
operation is shown to keep.
-/

namespace Multiway.Tree

variable {K V : Type} {f : Fanout} {height : Nat} {t : Tree K V}

/-- The cells of a tree, which has none when it is empty. -/
def cells : Option (Layout (K × V)) → Multiset (NodeId × Node K V)
  | none => 0
  | some l => l.cells none

/-- What a tree keeps in its arena is this layout and nothing else. -/
structure Holds (t : Tree K V) (l? : Option (Layout (K × V))) : Prop where
  stores : t.arena.Stores (cells l?)
  root : t.root = l?.map Layout.slot

theorem Holds.card_le {l? : Option (Layout (K × V))} (h : t.Holds l?) :
    (cells l?).card ≤ t.bound := h.stores.card_le

theorem Holds.length_lt {path : List (Frame (K × V))} {l : Layout (K × V)}
    (h : t.Holds (some (Layout.plug path l))) : path.length < t.bound :=
  Nat.lt_of_lt_of_le (Layout.length_lt_card none path l) h.card_le

theorem Holds.height_lt {l : Layout (K × V)} (h : t.Holds (some l))
    (hl : l.shape.Level height) : height < t.bound :=
  Nat.lt_of_lt_of_le (Layout.height_lt_card hl none) h.card_le

/-- The shape of a tree is the shape of what it holds. -/
theorem Holds.shape_eq {l? : Option (Layout (K × V))} {tall : Nat} (h : t.Holds l?)
    (hl : Shape.Stands f tall (l?.map Layout.shape)) :
    t.shape = .ok (l?.map Layout.shape) := by
  cases l? with
  | none =>
      rw [shape, h.root]
      rfl
  | some l =>
      obtain ⟨height, rfl, hsound⟩ := hl
      rw [shape, h.root]
      show (shapeFrom t.arena t.bound l.slot >>= fun s => pure (some s)) = _
      rw [h.stores.reads.shapeFrom_eq hsound.1.level (h.height_lt hsound.1.level)]
      rfl

theorem Holds.height_eq {l? : Option (Layout (K × V))} {tall : Nat} (h : t.Holds l?)
    (hl : Shape.Stands f tall (l?.map Layout.shape)) : t.height = .ok tall := by
  cases l? with
  | none =>
      rw [height, h.root]
      exact congrArg Except.ok hl.symm
  | some l =>
      obtain ⟨height, rfl, hsound⟩ := hl
      rw [Tree.height, h.root]
      exact h.stores.reads.levels_eq hsound.1.level (h.height_lt hsound.1.level)

/-- What no operation changes once a tree is made. -/
structure Alike (t u : Tree K V) : Prop where
  cmp : u.cmp = t.cmp
  fanout : u.fanout = t.fanout
  capacity : u.arena.capacity = t.arena.capacity

theorem Alike.refl (t : Tree K V) : Alike t t := ⟨rfl, rfl, rfl⟩

theorem Alike.trans {u v : Tree K V} (h : Alike t u) (h' : Alike u v) : Alike t v :=
  ⟨h'.cmp.trans h.cmp, h'.fanout.trans h.fanout, h'.capacity.trans h.capacity⟩

theorem Alike.transCmp {t u : Tree K V} [Std.TransCmp t.cmp] (h : Alike t u) :
    Std.TransCmp u.cmp := by
  rw [h.cmp]
  infer_instance

/-- What a tree holds is balanced and in order, and the tree knows how many entries there are. -/
structure Sound (t : Tree K V) (l? : Option (Layout (K × V))) : Prop where
  holds : t.Holds l?
  stands : ∃ tall, Shape.Stands t.fanout tall (l?.map Layout.shape)
  ascending : Ascending t.cmp (Shape.contents (l?.map Layout.shape))
  size_eq : t.size = (Shape.contents (l?.map Layout.shape)).length

theorem Sound.shape_eq {l? : Option (Layout (K × V))} (h : t.Sound l?) :
    t.shape = .ok (l?.map Layout.shape) := by
  obtain ⟨tall, hstands⟩ := h.stands
  exact h.holds.shape_eq hstands

/-! ### The ends -/

theorem Holds.minEntry_eq {l? : Option (Layout (K × V))} {tall : Nat} (h : t.Holds l?)
    (hl : Shape.Stands f tall (l?.map Layout.shape)) :
    minEntry? t = .ok (Shape.contents (l?.map Layout.shape)).head? := by
  cases l? with
  | none =>
      unfold minEntry?
      rw [h.root]
      rfl
  | some l =>
      obtain ⟨height, rfl, hsound⟩ := hl
      have hreads := h.stores.reads
      obtain ⟨path, leaf, rfl, rfl, hleaf, hpath, -, hleftmost⟩ :=
        hreads.exists_leftmost hsound.1 (h.height_lt hsound.1.level)
      unfold minEntry?
      rw [h.root]
      show (t.arena.leftmost t.bound _ >>= _) = _
      rw [hleftmost, ok_bind, hreads.node_plug, ok_bind]
      obtain ⟨rest, hheight, hregular, hsize, -⟩ := Layout.sound_plug hsound
      obtain ⟨first, others, hentries⟩ := List.exists_cons_of_length_pos hsize.root.1
      show Except.ok leaf.entries.head? = .ok (Layout.plug path leaf).shape.toList.head?
      rw [Layout.shape_plug, Shape.toList_plug, Shape.leads_of_steered hpath,
        Layout.toList_of_leaf hleaf, hentries]
      rfl

theorem Holds.maxEntry_eq {l? : Option (Layout (K × V))} {tall : Nat} (h : t.Holds l?)
    (hl : Shape.Stands f tall (l?.map Layout.shape)) :
    maxEntry? t = .ok (Shape.contents (l?.map Layout.shape)).getLast? := by
  cases l? with
  | none =>
      unfold maxEntry?
      rw [h.root]
      rfl
  | some l =>
      obtain ⟨height, rfl, hsound⟩ := hl
      have hreads := h.stores.reads
      obtain ⟨path, leaf, rfl, rfl, hleaf, hpath, -, hrightmost⟩ :=
        hreads.exists_rightmost hsound.1 (h.height_lt hsound.1.level)
      unfold maxEntry?
      rw [h.root]
      show (t.arena.rightmost t.bound _ >>= _) = _
      rw [hrightmost, ok_bind, hreads.node_plug, ok_bind]
      obtain ⟨rest, hheight, hregular, hsize, -⟩ := Layout.sound_plug hsound
      obtain ⟨first, others, hentries⟩ := List.exists_cons_of_length_pos hsize.root.1
      show Except.ok leaf.entries.getLast? = .ok (Layout.plug path leaf).shape.toList.getLast?
      rw [Layout.shape_plug, Shape.toList_plug, Shape.trails_of_steered hpath,
        Layout.toList_of_leaf hleaf, List.append_nil, hentries, List.getLast?_append]
      rfl

end Multiway.Tree
