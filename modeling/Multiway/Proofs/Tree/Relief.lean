import Multiway.Proofs.Tree.ValidBut
import Multiway.Proofs.Tree.Insertion

/-!
Relieving a node that is too full.

Whatever tree it is and wherever the node stands, cutting nodes on the way up mends a tree in which
one node has an entry too many and nothing else is wrong. `Relieves` lists the trees that the loop
goes through, each with the node that is looked at there. In each of them that node is the only one
that may be too full, so a cut leaves two parts of an allowed size, and the entry between them
belongs in front of the entries that the parent has behind the node.
-/

namespace Multiway

variable {K V : Type} {height : Nat}

namespace Tree

/-- The trees that relieving goes through, each with the node that is looked at there: first the one
that was asked for, and after every cut the node above. -/
inductive Relieves (t : Tree K V) (current : NodeId) : Tree K V → NodeId → Prop
  | here : Relieves t current t current
  | above {u v w : Tree K V} {id parent right : NodeId} {node : Node K V} {median : K × V}
      (h : Relieves t current u id) (hnode : u.arena.node id = .ok node)
      (hfull : ¬ node.entries.length ≤ u.fanout.mostEntries)
      (hcut : u.cutNode id = .ok (v, median, right)) (hparent : node.parent = some parent)
      (hlink : v.linkRight parent median right = .ok w) : Relieves t current w parent

/-- A cut into two parts, of which the lower one stays where the node was. -/
structure CutsInto (t u : Tree K V) (id right : NodeId) (node low high : Node K V)
    (median : K × V) : Prop where
  cut : t.cutNode id = .ok (u, median, right)
  apart : right ≠ id
  lower : u.arena.node id = .ok low
  upper : u.arena.node right = .ok high
  /-- The parts and the entry between them are the node. -/
  entries : low.entries ++ median :: high.entries = node.entries
  children : low.children ++ high.children = node.children
  /-- Both parts are at least half full and not too full. -/
  low_least : (t.order + 1) / 2 - 1 ≤ low.entries.length
  low_most : low.entries.length ≤ t.order - 1
  high_least : (t.order + 1) / 2 - 1 ≤ high.entries.length
  high_most : high.entries.length ≤ t.order - 1
  /-- The parts have the parent of the node, and the children that move have the new part. -/
  low_parent : low.parent = node.parent
  high_parent : high.parent = node.parent
  adopted : ∀ child ∈ high.children, ∃ below, u.arena.node child = .ok below ∧
    below.parent = some right

/-- The entry between the parts goes into the parent where the node stands among its children, and
the upper part directly behind the node. -/
structure Promotes (t u : Tree K V) (parent id right : NodeId) (median : K × V) (above : Node K V)
    (position : Nat) : Prop where
  node : t.arena.node parent = .ok above
  search : above.search t.cmp median.1 = .absent position
  listed : above.positionOf? id = some position
  link : t.linkRight parent median right = .ok u
  linked : u.arena.node parent = .ok { above with
    entries := above.entries.insertIdx position median
    children := above.children.insertIdx (position + 1) right }

variable {t : Tree K V}

/-! ### The loop -/

/-- One cut below the root is one step of the loop. -/
theorem relieve_above {u v w : Tree K V} {id parent right : NodeId} {node : Node K V}
    {median : K × V} (hnode : u.arena.node id = .ok node)
    (hfull : ¬ node.entries.length ≤ u.fanout.mostEntries)
    (hcut : u.cutNode id = .ok (v, median, right)) (hparent : node.parent = some parent)
    (hlink : v.linkRight parent median right = .ok w) (fuel : Nat) :
    relieve (fuel + 1) id u = relieve fuel parent w := by
  rw [relieve, hnode, ok_bind]
  simp only [if_neg hfull, hcut, ok_bind, hparent, hlink]

/-- The loop goes through its rounds. -/
theorem Relieves.relieve_eq {current id : NodeId} {u : Tree K V} (h : t.Relieves current u id) :
    ∃ cuts, ∀ fuel, relieve (fuel + cuts) current t = relieve fuel id u := by
  induction h with
  | here => exact ⟨0, fun fuel => rfl⟩
  | above h hnode hfull hcut hparent hlink ih =>
      obtain ⟨cuts, hcuts⟩ := ih
      refine ⟨cuts + 1, fun fuel => ?_⟩
      rw [Nat.add_comm cuts, ← Nat.add_assoc, hcuts,
        relieve_above hnode hfull hcut hparent hlink]

/-- More cuts than are needed may be allowed. -/
theorem relieve_mono {fuel more : Nat} {current : NodeId} {result : Tree K V × List Event}
    (h : relieve fuel current t = .ok result) (hle : fuel ≤ more) :
    relieve more current t = .ok result := by
  induction fuel generalizing t current more with
  | zero =>
      rw [relieve] at h ⊢
      obtain ⟨node, hnode, h⟩ := bind_eq_ok.mp h
      rw [hnode, ok_bind]
      by_cases hfits : node.entries.length ≤ t.fanout.mostEntries
      · rwa [if_pos hfits] at h ⊢
      · rw [if_neg hfits] at h
        contradiction
  | succ fuel ih =>
      obtain ⟨more, rfl⟩ : ∃ rest, more = rest + 1 := ⟨more - 1, by omega⟩
      rw [relieve] at h ⊢
      obtain ⟨node, hnode, h⟩ := bind_eq_ok.mp h
      rw [hnode, ok_bind]
      by_cases hfits : node.entries.length ≤ t.fanout.mostEntries
      · rwa [if_pos hfits] at h ⊢
      · rw [if_neg hfits] at h ⊢
        dsimp only at h ⊢
        obtain ⟨⟨u, median, right⟩, hcut, h⟩ := bind_eq_ok.mp h
        rw [hcut, ok_bind]
        dsimp only at h ⊢
        cases hparent : node.parent with
        | none => rwa [hparent] at h
        | some parent =>
            rw [hparent] at h
            obtain ⟨v, hlink, h⟩ := bind_eq_ok.mp h
            simp only [hlink, ok_bind]
            exact ih h (by omega)

theorem Filling.relieves [Std.TransCmp t.cmp] {path : List (Frame (K × V))}
    {l : Layout (K × V)} {u : Tree K V} {id : NodeId} (h : t.Filling path l height)
    (hround : t.Relieves l.slot u id) :
    ∃ path' l' height', u.Filling path' l' height' ∧ l'.slot = id ∧ Alike t u := by
  induction hround with
  | here => exact ⟨path, l, height, h, rfl, .refl t⟩
  | above hround hnode hfull hcut hparent hlink ih =>
      obtain ⟨path', l', height', hfilling, rfl, halike⟩ := ih
      have := halike.transCmp
      obtain ⟨path'', l'', hnext, hslot, halike', -⟩ :=
        hfilling.above hnode hfull hcut hparent hlink
      exact ⟨path'', l'', _, hnext, hslot, halike.trans halike'⟩

/-! ### One round -/

/-- What putting an entry into a parent writes. -/
theorem node_linkRight {u : Tree K V} {parent right : NodeId} {median : K × V} {above : Node K V}
    {position : Nat} (hnode : t.arena.node parent = .ok above)
    (hsearch : above.search t.cmp median.1 = .absent position)
    (hlink : t.linkRight parent median right = .ok u) :
    u.arena.node parent = .ok { above with
      entries := above.entries.insertIdx position median
      children := above.children.insertIdx (position + 1) right } := by
  rw [linkRight, hnode, ok_bind] at hlink
  simp only [hsearch, Place.position] at hlink
  obtain ⟨entries, hentries, hlink⟩ := bind_eq_ok.mp hlink
  obtain ⟨children, hchildren, hlink⟩ := bind_eq_ok.mp hlink
  obtain ⟨arena, hwrite, hlink⟩ := bind_eq_ok.mp hlink
  obtain rfl := Except.ok.inj hlink
  rw [Arena.node_write_same hwrite]
  unfold insertAt at hentries hchildren
  split at hentries
  · split at hchildren
    · obtain rfl := Except.ok.inj hentries
      obtain rfl := Except.ok.inj hchildren
      rfl
    · contradiction
  · contradiction

/-- A node that is too full by one entry is cut into two parts of an allowed size, and if it has a
parent, the entry between them finds its place there. -/
theorem Filling.cutsInto [Std.TransCmp t.cmp] {path : List (Frame (K × V))} {l : Layout (K × V)}
    (h : t.Filling path l height) (hfull : ¬ l.entries.length ≤ t.fanout.mostEntries) :
    ∃ u right low high median, t.CutsInto u l.slot right
        ⟨l.entries, l.children.map Layout.slot, Layout.parentOf none path⟩ low high median ∧
      ∀ parent, Layout.parentOf none path = some parent → ∃ v above position,
        u.Promotes v parent l.slot right median above position := by
  have hmiddle := t.fanout.middle_lt hfull
  have hstores := h.holds.stores
  rw [cells, Layout.cells_plug] at hstores
  obtain ⟨right, a, hcut, hparts, -⟩ := cutNode_eq hstores h.regular hmiddle
  obtain ⟨low, median, high, hshape, -, ⟨-, hlow⟩, ⟨-, hhigh⟩⟩ :=
    Shape.exists_cut_middle h.regular (Nat.le_antisymm (by rw [Layout.entries_shape]; exact h.most)
      (Fanout.order_le (by rwa [Layout.entries_shape])))
  rw [Layout.cut_shape hmiddle right, Option.some.injEq, Prod.mk.injEq, Prod.mk.injEq] at hshape
  obtain ⟨rfl, rfl, rfl⟩ := hshape
  rw [Layout.entries_shape] at hlow hhigh
  have hreads := hparts.reads
  have hne : right ≠ l.slot := by
    have hfront : a.Stores ({(l.slot, _)} + _) := hparts.congr (by rw [Layout.cells_eq, add_assoc]; rfl)
    exact hfront.ne_of_mem (Multiset.mem_add.mpr (.inr (Multiset.mem_add.mpr (.inl
      ((l.highPart t.fanout.middle right).slot_mem_cells (Layout.parentOf none path))))))
  refine ⟨_, right, _, _, _, ⟨hcut, hne, hreads.left.node, hreads.right.left.node, ?_, ?_, hlow.1,
    hlow.2, hhigh.1, hhigh.2, rfl, rfl, ?_⟩, ?_⟩
  · show l.entries.take _ ++ l.entries[t.fanout.middle] :: l.entries.drop _ = l.entries
    rw [← List.drop_eq_getElem_cons hmiddle, List.take_append_drop]
  · show (l.children.take _).map Layout.slot ++ (l.children.drop _).map Layout.slot = _
    rw [← List.map_append, List.take_append_drop]
  · intro id hmem
    obtain ⟨child, hchild, rfl⟩ := List.mem_map.mp hmem
    exact ⟨_, (hreads.right.left.child hchild).node, rfl⟩
  · intro parent hparent
    cases path with
    | nil => contradiction
    | cons frame path =>
        obtain ⟨slot, g⟩ := frame
        obtain rfl := Option.some.inj hparent
        rw [Layout.pathCells] at hparts
        have hfront : a.Stores ({(slot, Layout.frameNode (Layout.parentOf none path) l.slot g)} +
            ((l.lowPart t.fanout.middle).cells (some slot) +
              ((l.highPart t.fanout.middle right).cells (some slot) +
                (Layout.allCells (some slot) (g.around []) +
                  Layout.pathCells none slot path)))) := hparts.congr (by
          rw [Layout.parentOf]
          abel)
        have hsearch := search_of_mem h.ascending (List.getElem_mem hmiddle)
        obtain ⟨b, hlink, -⟩ := linkRight_eq (t := { t with arena := a })
          (l.lowPart t.fanout.middle) l.entries[t.fanout.middle] right hfront hsearch
        exact ⟨_, _, g.position, hfront.node, hsearch, h.holds.stores.positionOf_plug, hlink,
          node_linkRight (t := { t with arena := a }) hfront.node hsearch hlink⟩

/-! ### The whole loop -/

/-- Relieving a node that may be too full leaves a sound tree with the same entries. -/
theorem SoundBut.relieve [Std.TransCmp t.cmp] {path : List (Frame (K × V))} {l : Layout (K × V)}
    (h : t.SoundBut path l height) (hfilling : t.Filling path l height) :
    ∃ u l' events, (∀ fuel, path.length < fuel → relieve fuel l.slot t = .ok (u, events)) ∧
      u.Sound (some l') ∧ l'.shape.toList = (Layout.plug path l).shape.toList ∧ Alike t u ∧
      u.size = t.size := by
  obtain ⟨u, l', hrelieve, hholds, hshape, halike, hsize, -⟩ :=
    relieve_eq hfilling (Nat.lt_succ_self path.length)
  obtain ⟨hlist, hstands⟩ := Shape.relieve_spec h.regular h.around
    (by rw [Layout.isEmpty_shapes, Layout.entries_shape]; exact hfilling.least)
    (by rw [Layout.entries_shape]; exact hfilling.most)
  rw [← hshape, ← Layout.shape_plug] at hlist
  refine ⟨u, l', _, fun fuel hfuel => relieve_mono hrelieve hfuel, ⟨hholds, ?_, ?_, ?_⟩, hlist,
    halike, hsize⟩
  · rw [halike.fanout, Option.map_some, hshape]
    rcases hstands with ⟨hsound, -⟩ | ⟨hsound, -⟩
    · exact ⟨_, _, rfl, hsound⟩
    · exact ⟨_, _, rfl, hsound⟩
  · rw [halike.cmp, Option.map_some, Shape.contents_some, hlist]
    exact h.ascending
  · rw [hsize, Option.map_some, Shape.contents_some, hlist]
    exact h.size_eq

end Tree

open Multiway.Tree in
/-- Relieving mends a tree in which one node has as many entries as the order and nothing else is
wrong. Every node that is cut on the way falls into two parts of an allowed size, and the entry
between them is found to belong where the node stands among the children of its parent. -/
theorem relieve_mends {t : Tree K V} {current : NodeId} (hcmp : Consistent t.cmp)
    (h : t.ValidBut current t.order) :
    ∃ u events, (∀ fuel, t.bound ≤ fuel → relieve fuel current t = .ok (u, events)) ∧
      t.Mends u ∧ ∀ v id, t.Relieves current v id →
        (∃ cuts, ∀ fuel, relieve (fuel + cuts) current t = relieve fuel id v) ∧
        ∀ node, v.arena.node id = .ok node → ¬ node.entries.length ≤ v.order - 1 →
          ∃ w right low high median, v.CutsInto w id right node low high median ∧
            ∀ parent, node.parent = some parent → ∃ x above position,
              w.Promotes x parent id right median above position := by
  have := hcmp.transCmp
  obtain ⟨path, l, height, hsound, rfl, hlength⟩ := h.exists_soundBut (.inl hcmp)
  have hfilling : t.Filling path l height := by
    refine ⟨hsound.holds, hsound.regular, hsound.around, ?_, Nat.le_of_eq hlength,
      hsound.ascending⟩
    have := t.fanout.three_le
    rw [hlength, Tree.order, Fanout.fewestEntries]
    split <;> omega
  obtain ⟨u, l', events, hrelieve, hu, hlist, halike, hsize⟩ := hsound.relieve hfilling
  refine ⟨u, events, fun fuel hfuel => hrelieve fuel (Nat.lt_of_lt_of_le hsound.holds.length_lt hfuel),
    hsound.mends hu hlist halike hsize,
    fun v id hround => ⟨hround.relieve_eq, fun node hnode hfull => ?_⟩⟩
  obtain ⟨path', focus, height', hnext, rfl, halike'⟩ := hfilling.relieves hround
  have := halike'.transCmp
  obtain rfl := Except.ok.inj (hnext.holds.stores.reads.node_plug.symm.trans hnode)
  exact hnext.cutsInto hfull

/-- A tree of order 3 in which the last leaf has three entries and the root is full. -/
def crowded : Tree Nat Nat where
  arena :=
    { slots := #[⟨[(20, 2), (40, 4)], [1, 2, 3], none⟩, ⟨[(10, 1)], [], some 0⟩,
        ⟨[(30, 3)], [], some 0⟩, ⟨[(50, 5), (60, 6), (70, 7)], [], some 0⟩, {}]
      free := [4]
      capacity := 1 }
  root := some 0
  cmp := compare
  fanout := (Fanout.ofOrder? Fanout.smallest).getD .standard
  size := 7

theorem crowded_soundBut : crowded.SoundBut
    [(0, ⟨[(.node 2 [(30, 3)] [], (40, 4)), (.node 1 [(10, 1)] [], (20, 2))], []⟩)]
    (.node 3 [(50, 5), (60, 6), (70, 7)] []) 0 := by
  constructor
  case holds =>
    refine ⟨⟨?_, ?_, ?cover, ?_⟩, rfl⟩
    case cover =>
      simp [Tree.cells, Layout.plug, Layout.fill, Layout.cells, Gap.around, crowded]
      decide
    all_goals
      simp [Tree.cells, Layout.plug, Layout.fill, Layout.cells, Layout.slot, Gap.around,
        Gap.entries, Gap.low, Gap.high, crowded]
  case regular => exact Layout.children_shape _
  case around =>
    simp [Shape.RegularPath, Shape.Regular, Shape.children, Shape.entries, Layout.shapes,
      Layout.shape, Gap.around, Gap.map, Gap.entries, Gap.low, Gap.high, Fanout.Allows,
      Fanout.mostEntries, Fanout.fewestEntries, Fanout.ofOrder?, Fanout.smallest, crowded]
  case ascending =>
    simp [Layout.plug, Layout.fill, Layout.shape, Shape.toList, Shape.interleave, Gap.around,
      Gap.entries, Gap.low, Gap.high, Ascending, crowded]
    decide
  case size_eq =>
    simp [Layout.plug, Layout.fill, Layout.shape, Shape.toList, Shape.interleave, Gap.around,
      Gap.entries, Gap.low, Gap.high, crowded]

open Multiway.Tree in
/-- The leaf is cut, then the root, which has become too full by that, and the tree grows a level. -/
theorem relieve_mends_crowded :
    Consistent crowded.cmp ∧ crowded.ValidBut 3 crowded.order ∧
      ∃ u, relieve crowded.bound 3 crowded = .ok (u, [.rootSplit 3]) ∧ crowded.Mends u ∧
        ∃ v node w right low high median, crowded.Relieves 3 v 0 ∧ v.arena.node 0 = .ok node ∧
          v.CutsInto w 0 right node low high median := by
  have hcmp : Consistent crowded.cmp :=
    (Consistent.of_transCmp : Consistent (compare : Nat → Nat → Ordering))
  have hbut : crowded.ValidBut 3 crowded.order := crowded_soundBut.validBut
  obtain ⟨u, events, hrelieve, hmends, hrounds⟩ := relieve_mends hcmp hbut
  have hgiven : ∃ u, relieve crowded.bound 3 crowded = .ok (u, [.rootSplit 3]) := ⟨_, rfl⟩
  have hround : ∃ v node, crowded.Relieves 3 v 0 ∧ v.arena.node 0 = .ok node ∧
      ¬ node.entries.length ≤ v.order - 1 :=
    ⟨_, _, .above .here rfl (by decide) rfl rfl rfl, rfl, by decide⟩
  obtain ⟨u', hgiven⟩ := hgiven
  obtain ⟨rfl, rfl⟩ := Prod.mk.inj (Except.ok.inj ((hrelieve _ (Nat.le_refl _)).symm.trans hgiven))
  obtain ⟨v, node, hround, hnode, hfull⟩ := hround
  obtain ⟨w, right, low, high, median, hcut, -⟩ := (hrounds v 0 hround).2 node hnode hfull
  exact ⟨hcmp, hbut, u, hgiven, hmends, v, node, w, right, low, high, median, hround, hnode, hcut⟩

end Multiway
