import Multiway.Proofs.Tree.Changes
import Multiway.Proofs.Tree.ValidBut

/-!
Repairing a node that has an entry too few.

Whatever tree it is and wherever the node stands, lending and merging on the way up mend a tree in
which one node lacks an entry and nothing else is wrong. Two things are said of this. The tree that
comes out is valid and has the same entries; and in every round just those nodes change that have to.
-/

namespace Multiway

variable {K V : Type} {height : Nat}

namespace Tree

/-- A round that merges and goes on with the node above. -/
inductive MergesUp (t : Tree K V) (id : NodeId) (u : Tree K V) (parent : NodeId)
    (events : List Event) : Prop
  | intro {node above : Node K V} {position place : Nat} (hnode : t.arena.node id = .ok node)
      (hparent : node.parent = some parent)
      (hpoor : ¬ t.fanout.fewestEntries ≤ node.entries.length)
      (habove : t.arena.node parent = .ok above) (hlisted : above.positionOf? id = some position)
      (hright : t.shiftFromRight parent position = .ok none)
      (hleft : t.shiftFromLeft parent position = .ok none)
      (hplace : mergePosition above position = .ok place)
      (hmerge : t.mergeAt parent place = .ok (u, events))

/-- The trees that replenishing goes through, each with the node that is looked at there: first the
one that was asked for, and after every merge the node above. -/
inductive Replenishes (t : Tree K V) (current : NodeId) : Tree K V → NodeId → Prop
  | here : Replenishes t current t current
  | above {u v : Tree K V} {id parent : NodeId} {events : List Event}
      (h : Replenishes t current u id) (hup : u.MergesUp id v parent events) :
      Replenishes t current v parent

/-- What is done about a node. Unless two nodes are merged, nothing more is done afterwards. -/
inductive Remedy (t : Tree K V) (id : NodeId) (node : Node K V) : Prop
  /-- The node has enough entries. -/
  | enough (henough : (if node.parent = none then 1 else (t.order + 1) / 2 - 1) ≤
        node.entries.length)
      (hstop : ∀ fuel, replenish (fuel + 1) id t = .ok (t, []))
  /-- It is a root without entries. -/
  | lowered {u : Tree K V} {events : List Event} (hroot : node.parent = none)
      (h : t.Lowers u id node) (hstop : ∀ fuel, replenish (fuel + 1) id t = .ok (u, events))
  /-- It lacks an entry, and gets one from a neighbour. -/
  | lent {u : Tree K V} {hand : Hand} {parent neighbour : NodeId} {position : Nat}
      {above lender : Node K V} {lent separator : K × V} {moved : List NodeId}
      (hparent : node.parent = some parent)
      (hpoor : node.entries.length < (t.order + 1) / 2 - 1)
      (h : t.Lends u hand parent id neighbour position above node lender lent separator moved)
      (hstop : ∀ fuel, replenish (fuel + 1) id t = .ok (u, []))
  /-- It lacks an entry, and is one of two neighbours that are merged. -/
  | merged {u : Tree K V} {parent left right : NodeId} {position : Nat}
      {above low high : Node K V} {separator : K × V} {events : List Event}
      (hparent : node.parent = some parent)
      (hpoor : node.entries.length < (t.order + 1) / 2 - 1)
      (h : t.Merges u parent left right position above low high separator)
      (hone : id = left ∨ id = right) (hup : t.MergesUp id u parent events)

variable {t : Tree K V}

/-! ### The loop -/

/-- A result with what was told before it. -/
def tell (events : List Event) (result : Tree K V × List Event) : Tree K V × List Event :=
  (result.1, events ++ result.2)

/-- A merge is one round of the loop. -/
theorem MergesUp.replenish_eq {u : Tree K V} {id parent : NodeId} {events : List Event}
    (h : t.MergesUp id u parent events) (fuel : Nat) :
    replenish (fuel + 1) id t = tell events <$> replenish fuel parent u := by
  obtain ⟨hnode, hparent, hpoor, habove, hlisted, hright, hleft, hplace, hmerge⟩ := h
  rw [replenish, hnode, ok_bind]
  simp only [hparent, if_neg hpoor, habove, ok_bind, hlisted, hright, hleft, hplace, hmerge]
  rfl

/-- A round does one thing. -/
theorem MergesUp.unique {u v : Tree K V} {id parent above : NodeId} {events later : List Event}
    (h : t.MergesUp id u parent events) (h' : t.MergesUp id v above later) :
    u = v ∧ parent = above ∧ events = later := by
  obtain ⟨hnode, hparent, -, habove, hlisted, -, -, hplace, hmerge⟩ := h
  obtain ⟨hnode', hparent', -, habove', hlisted', -, -, hplace', hmerge'⟩ := h'
  obtain rfl := Except.ok.inj (hnode.symm.trans hnode')
  obtain rfl := Option.some.inj (hparent.symm.trans hparent')
  obtain rfl := Except.ok.inj (habove.symm.trans habove')
  obtain rfl := Option.some.inj (hlisted.symm.trans hlisted')
  obtain rfl := Except.ok.inj (hplace.symm.trans hplace')
  obtain ⟨rfl, rfl⟩ := Prod.mk.inj (Except.ok.inj (hmerge.symm.trans hmerge'))
  exact ⟨rfl, rfl, rfl⟩

/-- When a neighbour lends, the loop is over. -/
theorem replenish_lent {u : Tree K V} {id parent : NodeId} {node above : Node K V} {position : Nat}
    (hnode : t.arena.node id = .ok node) (hparent : node.parent = some parent)
    (hpoor : ¬ t.fanout.fewestEntries ≤ node.entries.length)
    (habove : t.arena.node parent = .ok above) (hlisted : above.positionOf? id = some position)
    (hshift : t.shiftFromRight parent position = .ok (some u) ∨
      t.shiftFromRight parent position = .ok none ∧
        t.shiftFromLeft parent position = .ok (some u)) (fuel : Nat) :
    replenish (fuel + 1) id t = .ok (u, []) := by
  rw [replenish, hnode, ok_bind]
  rcases hshift with hright | ⟨hright, hleft⟩
  · simp only [hparent, if_neg hpoor, habove, ok_bind, hlisted, hright]
    rfl
  · simp only [hparent, if_neg hpoor, habove, ok_bind, hlisted, hright, hleft]
    rfl

/-- The loop goes through its rounds. -/
theorem Replenishes.replenish_eq {current id : NodeId} {u : Tree K V}
    (h : t.Replenishes current u id) : ∃ rounds events, ∀ fuel,
      replenish (fuel + rounds) current t = tell events <$> replenish fuel id u := by
  induction h with
  | here =>
      refine ⟨0, [], fun fuel => ?_⟩
      exact (id_map _).symm
  | @above u v id parent later h hup ih =>
      obtain ⟨rounds, events, hrounds⟩ := ih
      refine ⟨rounds + 1, events ++ later, fun fuel => ?_⟩
      rw [Nat.add_comm rounds, ← Nat.add_assoc, hrounds, hup.replenish_eq, ← comp_map]
      congr 1
      funext result
      simp [tell]

/-! ### Rounds -/

variable {path : List (Frame (K × V))} {l : Layout (K × V)}

/-- The node at the end of a path, as the arena has it. -/
def endNode (path : List (Frame (K × V))) (l : Layout (K × V)) : Node K V :=
  ⟨l.entries, l.children.map Layout.slot, Layout.parentOf none path⟩

theorem Lacking.remedy_root (h : t.Lacking [] l height) : t.Remedy l.slot (endNode [] l) ∧
    ∃ result, ∀ fuel, replenish (fuel + 1) l.slot t = .ok result := by
  have hnode : t.arena.node l.slot = .ok (endNode [] l) := h.holds.stores.reads.node_plug
  have hloop (fuel : Nat) : replenish (fuel + 1) l.slot t = t.lowerRoot l.slot := by
    rw [replenish, hnode]
    rfl
  by_cases hentries : l.entries = []
  · obtain ⟨u, events, hlower, hlowers⟩ := h.lowers hentries
    exact ⟨.lowered rfl hlowers fun fuel => (hloop fuel).trans hlower, (u, events),
      fun fuel => (hloop fuel).trans hlower⟩
  · have hstop (fuel : Nat) : replenish (fuel + 1) l.slot t = .ok (t, []) :=
      (hloop fuel).trans (Holds.lowerRoot_full h.holds hentries)
    exact ⟨.enough (List.length_pos_of_ne_nil hentries) hstop, _, hstop⟩

/-- A node that lacks an entry, when neither neighbour lends one. -/
theorem Lacking.mergesUp {slot : NodeId} {g : Gap (K × V) (Layout (K × V))}
    (h : t.Lacking ((slot, g) :: path) l height)
    (hpoor : ¬ t.fanout.fewestEntries ≤ l.entries.length)
    (hright : Shape.lendRight t.fanout (g.map Layout.shape) l.shape = none)
    (hleft : Shape.lendLeft t.fanout (g.map Layout.shape) l.shape = none) :
    ∃ u events l', t.Remedy l.slot (endNode ((slot, g) :: path) l) ∧
      t.MergesUp l.slot u slot events ∧ u.Lacking path l' (height + 1) ∧ l'.slot = slot ∧
      Alike t u := by
  obtain ⟨hsides, hwide, hrest⟩ := Layout.regularPath_cons.mp h.around
  have hleast : t.fanout.fewestEntries ≤ l.entries.length + 1 := h.least
  obtain ⟨hregular, hless, -⟩ := Shape.merge_spec hsides h.regular
    (by rw [Layout.entries_shape]; omega) (by rw [Gap.entries_map]; exact hwide.root.1) hright hleft
  obtain ⟨g', low, separator, high, hfill, hplace, hshape, hone⟩ :=
    exists_neighbours slot (Layout.parentOf none path) hwide.root.1
  have hholds := h.holds
  rw [Layout.plug, hfill] at hholds
  -- The node that two become is a child of a regular one, so it is not too full.
  rw [← hshape, Layout.entries_shape, Gap.entries_map] at hless
  rw [← hshape] at hregular
  have hmem : merged low separator high ∈
      (Layout.fill (slot, g') (merged low separator high)).children :=
    List.mem_of_getElem? (Gap.getElem?_around g' _ [])
  have hroom : (low.entries ++ separator :: high.entries).length ≤ t.fanout.mostEntries :=
    (Layout.regular_child hregular hmem).2.2
  rw [List.length_append, List.length_cons, Nat.add_comm high.entries.length,
    ← Nat.add_assoc] at hroom
  obtain ⟨u, hmerge, hnext, halike, hmerges⟩ := hholds.merges hroom
  have hup : t.MergesUp l.slot u slot (t.arena.stock.drops [high.slot]) :=
    .intro h.holds.stores.reads.node_plug rfl hpoor h.holds.node_above
      h.holds.stores.positionOf_plug (h.holds.shiftFromRight_none hright)
      (h.holds.shiftFromLeft_none hleft) hplace hmerge
  have hslot : l.slot = low.slot ∨ l.slot = high.slot :=
    hone.imp (fun heq => congrArg Layout.slot heq.symm) fun heq => congrArg Layout.slot heq.symm
  refine ⟨u, _, _, .merged rfl (Nat.lt_of_not_le hpoor) hmerges hslot hup, hup,
    ⟨hnext, ?_, ?_, ?_, ?_⟩, rfl, halike⟩
  · rwa [halike.fanout]
  · rwa [halike.fanout]
  · rw [halike.fanout, hless]
    exact hwide.1
  · rw [halike.fanout]
    have := hwide.2
    omega

/-- What is done about the node at the end of a path. Either that is all, or the node above is the
one that may lack an entry now. -/
theorem Lacking.round (h : t.Lacking path l height) : t.Remedy l.slot (endNode path l) ∧
    ((∃ result, ∀ fuel, replenish (fuel + 1) l.slot t = .ok result) ∨
      ∃ frame rest u events l', path = frame :: rest ∧ t.MergesUp l.slot u frame.1 events ∧
        u.Lacking rest l' (height + 1) ∧ l'.slot = frame.1 ∧ Alike t u) := by
  cases path with
  | nil => exact ⟨h.remedy_root.1, .inl h.remedy_root.2⟩
  | cons frame path =>
      obtain ⟨slot, g⟩ := frame
      have hnode : t.arena.node l.slot = .ok (endNode ((slot, g) :: path) l) :=
        h.holds.stores.reads.node_plug
      by_cases hrich : t.fanout.fewestEntries ≤ l.entries.length
      · have hstop (fuel : Nat) : replenish (fuel + 1) l.slot t = .ok (t, []) := by
          rw [replenish, hnode, ok_bind]
          exact if_pos hrich
        exact ⟨.enough hrich hstop, .inl ⟨_, hstop⟩⟩
      · have hposition : (Layout.frameNode (Layout.parentOf none path) l.slot g).positionOf?
            l.slot = some g.position := h.holds.stores.positionOf_plug
        obtain ⟨hsides, -, -⟩ := Layout.regularPath_cons.mp h.around
        obtain ⟨before, behind⟩ := g
        cases hright : Shape.lendRight t.fanout (Gap.map Layout.shape ⟨before, behind⟩) l.shape with
        | some above =>
            rcases behind with _ | ⟨⟨separator, neighbour⟩, behind⟩
            · contradiction
            · obtain ⟨⟨hneighbour, -⟩, -⟩ := Shape.forall_mem_around_behind.mp hsides
              have hspare := Shape.lt_of_lendRight_eq_some hright
              rw [Layout.entries_shape] at hspare
              obtain ⟨u, lender, lent, moved, hshift, hlends⟩ :=
                h.holds.lends_right h.regular.level hneighbour.level hspare
              have hstop := replenish_lent hnode rfl hrich h.holds.node_above hposition (.inl hshift)
              exact ⟨.lent rfl (Nat.lt_of_not_le hrich) hlends hstop, .inl ⟨_, hstop⟩⟩
        | none =>
            have hnone := h.holds.shiftFromRight_none hright
            cases hleft : Shape.lendLeft t.fanout (Gap.map Layout.shape ⟨before, behind⟩)
              l.shape with
            | some above =>
                rcases before with _ | ⟨⟨neighbour, separator⟩, before⟩
                · contradiction
                · obtain ⟨⟨hneighbour, -⟩, -⟩ := Shape.forall_mem_around_before.mp hsides
                  have hspare := Shape.lt_of_lendLeft_eq_some hleft
                  rw [Layout.entries_shape] at hspare
                  obtain ⟨u, lender, lent, moved, hshift, hlends⟩ :=
                    h.holds.lends_left h.regular.level hneighbour.level hspare
                  have hstop := replenish_lent hnode rfl hrich h.holds.node_above hposition
                    (.inr ⟨hnone, hshift⟩)
                  exact ⟨.lent rfl (Nat.lt_of_not_le hrich) hlends hstop, .inl ⟨_, hstop⟩⟩
            | none =>
                obtain ⟨u, events, l', hremedy, hup, hnext, hslot, halike⟩ :=
                  h.mergesUp hrich hright hleft
                exact ⟨hremedy, .inr ⟨_, path, u, events, l', rfl, hup, hnext, hslot, halike⟩⟩

/-- In every round of the loop only the node that is looked at may lack an entry. -/
theorem Lacking.replenishes {u : Tree K V} {id : NodeId} (h : t.Lacking path l height)
    (hround : t.Replenishes l.slot u id) :
    ∃ path' l' height', u.Lacking path' l' height' ∧ l'.slot = id ∧ Alike t u ∧
      height' + path'.length = height + path.length := by
  induction hround with
  | here => exact ⟨path, l, height, h, rfl, .refl t, rfl⟩
  | above hround hup ih =>
      obtain ⟨path', l', height', hlacking, rfl, halike, hsum⟩ := ih
      obtain ⟨-, ⟨result, hstop⟩ | ⟨frame, rest, v, events, l'', rfl, hup', hnext, hslot, halike'⟩⟩ :=
        hlacking.round
      · have hmore := hup.replenish_eq 0
        rw [hstop] at hmore
        contradiction
      · obtain ⟨rfl, rfl, rfl⟩ := hup.unique hup'
        refine ⟨rest, l'', _, hnext, hslot, halike.trans halike', ?_⟩
        rw [← hsum, List.length_cons]
        omega

/-- The loop ends, and it makes no difference how many rounds more are allowed. -/
theorem Lacking.exists_result (h : t.Lacking path l height) :
    ∃ result, ∀ fuel, path.length < fuel → replenish fuel l.slot t = .ok result := by
  induction path generalizing t l height with
  | nil =>
      obtain ⟨-, result, hresult⟩ := h.remedy_root
      refine ⟨result, fun fuel hfuel => ?_⟩
      obtain ⟨fuel, rfl⟩ : ∃ rest, fuel = rest + 1 := ⟨fuel - 1, by omega⟩
      exact hresult fuel
  | cons frame path ih =>
      obtain ⟨-, ⟨result, hresult⟩ | ⟨frame, rest, u, events, l', heq, hup, hnext, hslot, -⟩⟩ :=
        h.round
      · refine ⟨result, fun fuel hfuel => ?_⟩
        obtain ⟨fuel, rfl⟩ : ∃ rest, fuel = rest + 1 := ⟨fuel - 1, by omega⟩
        exact hresult fuel
      · obtain ⟨rfl, rfl⟩ := List.cons.inj heq
        obtain ⟨result, hresult⟩ := ih hnext
        refine ⟨tell events result, fun fuel hfuel => ?_⟩
        obtain ⟨fuel, rfl⟩ : ∃ rest, fuel = rest + 1 := ⟨fuel - 1, by omega⟩
        rw [hup.replenish_eq, ← hslot, hresult fuel (Nat.lt_of_succ_lt_succ hfuel)]
        rfl

/-- Replenishing a node that may lack an entry leaves a sound tree with the same entries. -/
theorem SoundBut.replenish (h : t.SoundBut path l height) (hlacking : t.Lacking path l height) :
    ∃ u l?' events, (∀ fuel, path.length < fuel → replenish fuel l.slot t = .ok (u, events)) ∧
      u.Sound l?' ∧ Shape.contents (l?'.map Layout.shape) = (Layout.plug path l).shape.toList ∧
      Alike t u ∧ u.size = t.size := by
  obtain ⟨⟨u, events⟩, hresult⟩ := hlacking.exists_result
  obtain ⟨v, l?', ids, hreplenish, hholds, hshape, halike, hsize, -⟩ :=
    hlacking.replenish_eq (Nat.lt_succ_self path.length)
  obtain ⟨rfl, -⟩ := Prod.mk.inj
    (Except.ok.inj ((hresult _ (Nat.lt_succ_self _)).symm.trans hreplenish))
  obtain ⟨hlist, hstands⟩ := Shape.replenish_spec hlacking.regular hlacking.around
    (by rw [Layout.isEmpty_shapes, Layout.entries_shape]; exact hlacking.least)
    (by rw [Layout.entries_shape]; exact hlacking.most)
  rw [← hshape, ← Layout.shape_plug] at hlist
  refine ⟨u, l?', events, hresult, ⟨hholds, ?_, ?_, ?_⟩, hlist, halike, hsize⟩
  · rw [halike.fanout, hshape]
    rcases hstands with ⟨hstands, -⟩ | ⟨hstands, -⟩
    · exact ⟨_, hstands⟩
    · exact ⟨_, hstands⟩
  · rw [halike.cmp, hlist]
    exact h.ascending
  · rw [hsize, hlist]
    exact h.size_eq

/-- Only at the end of the empty path is the root. -/
theorem SoundBut.root_eq_iff (h : t.SoundBut path l height) :
    t.root = some l.slot ↔ path = [] := by
  constructor
  · intro hroot
    have hnode := h.holds.stores.reads.node
    rw [h.holds.root] at hroot
    rw [Option.some.inj hroot] at hnode
    have hparent := congrArg Node.parent
      (Except.ok.inj (hnode.symm.trans h.holds.stores.reads.node_plug))
    cases path with
    | nil => rfl
    | cons frame path => contradiction
  · rintro rfl
    exact h.holds.root

end Tree

open Multiway.Tree in
/-- Replenishing mends a tree in which one node has one entry less than it should and nothing else is
wrong; the root may have none. No key is compared on the way, so the comparison need not keep its contract
as long as the entries of the whole tree ascend. In every round a neighbour lends one entry and the work is over, or
two neighbours are merged and the node above is looked at; a root without entries is dropped. -/
theorem replenish_mends {t : Tree K V} {current : NodeId} (hordered : t.Ordered)
    (h : t.ValidBut current (if t.root = some current then 0 else (t.order + 1) / 2 - 2)) :
    ∃ u events, (∀ fuel, t.bound ≤ fuel → replenish fuel current t = .ok (u, events)) ∧
      t.Mends u ∧ ∀ v id, t.Replenishes current v id →
        (∃ rounds before, ∀ fuel,
          replenish (fuel + rounds) current t = tell before <$> replenish fuel id v) ∧
        ∃ node, v.arena.node id = .ok node ∧ v.Remedy id node := by
  obtain ⟨path, l, height, hsound, rfl, hlength⟩ := h.exists_soundBut hordered
  have hlacking : t.Lacking path l height := by
    have := t.fanout.three_le
    rw [Tree.order] at hlength
    refine ⟨hsound.holds, hsound.regular, hsound.around, ?_, ?_⟩
    · rw [hlength, Fanout.fewestEntries]
      simp only [hsound.root_eq_iff, List.isEmpty_iff]
      split <;> omega
    · rw [hlength, Fanout.mostEntries]
      split <;> omega
  obtain ⟨u, l?', events, hresult, hu, hlist, halike, hsize⟩ := hsound.replenish hlacking
  refine ⟨u, events, fun fuel hfuel =>
    hresult fuel (Nat.lt_of_lt_of_le hsound.holds.length_lt hfuel),
    hsound.mends hu hlist halike hsize, fun v id hround => ⟨hround.replenish_eq, ?_⟩⟩
  obtain ⟨path', l', height', hnext, rfl, -⟩ := hlacking.replenishes hround
  exact ⟨_, hnext.holds.stores.reads.node_plug, hnext.round.1⟩

/-- A tree of order 3 in which the last leaf has no entry, and no other node one to spare. -/
def depleted : Tree Nat Nat where
  arena :=
    { slots := #[⟨[(40, 4)], [1, 2], none⟩, ⟨[(20, 2)], [3, 4], some 0⟩,
        ⟨[(60, 6)], [5, 6], some 0⟩, ⟨[(10, 1)], [], some 1⟩, ⟨[(30, 3)], [], some 1⟩,
        ⟨[(50, 5)], [], some 2⟩, ⟨[], [], some 2⟩]
      capacity := 2 }
  root := some 0
  cmp := compare
  fanout := (Fanout.ofOrder? Fanout.smallest).getD .standard
  size := 6

theorem depleted_soundBut : depleted.SoundBut
    [(2, ⟨[(.node 5 [(50, 5)] [], (60, 6))], []⟩),
      (0, ⟨[(.node 1 [(20, 2)] [.node 3 [(10, 1)] [], .node 4 [(30, 3)] []], (40, 4))], []⟩)]
    (.node 6 [] []) 0 := by
  constructor
  case holds =>
    refine ⟨⟨?_, ?_, ?cover, ?_⟩, rfl⟩
    case cover =>
      simp [Tree.cells, Layout.plug, Layout.fill, Layout.cells, Gap.around, depleted]
      decide
    all_goals
      simp [Tree.cells, Layout.plug, Layout.fill, Layout.cells, Layout.slot, Gap.around,
        Gap.entries, Gap.low, Gap.high, depleted]
  case regular => exact Layout.children_shape _
  case around =>
    simp [Shape.RegularPath, Shape.Regular, Shape.children, Shape.entries, Layout.shapes,
      Layout.shape, Gap.around, Gap.map, Gap.entries, Gap.low, Gap.high, Fanout.Allows,
      Fanout.mostEntries, Fanout.fewestEntries, Fanout.ofOrder?, Fanout.smallest, depleted]
  case ascending =>
    simp [Layout.plug, Layout.fill, Layout.shape, Shape.toList, Shape.interleave, Gap.around,
      Gap.entries, Gap.low, Gap.high, Ascending, depleted]
    decide
  case size_eq =>
    simp [Layout.plug, Layout.fill, Layout.shape, Shape.toList, Shape.interleave, Gap.around,
      Gap.entries, Gap.low, Gap.high, depleted]

open Multiway.Tree in
/-- The leaf is merged, then the node above it, and the root, which has lost its only entry by that,
is dropped. The free list has no room for it any more. -/
theorem replenish_mends_depleted :
    depleted.Ordered ∧
      depleted.ValidBut 6 (if depleted.root = some 6 then 0 else (depleted.order + 1) / 2 - 2) ∧
      ∃ u, replenish depleted.bound 6 depleted =
          .ok (u, [.nodeDropped 0, .rootCollapsed 2]) ∧ depleted.Mends u ∧
        ∃ v node, depleted.Replenishes 6 v 0 ∧ v.arena.node 0 = .ok node ∧ v.Remedy 0 node := by
  have hordered : depleted.Ordered :=
    .inl (Consistent.of_transCmp : Consistent (compare : Nat → Nat → Ordering))
  have hbut : depleted.ValidBut 6
      (if depleted.root = some 6 then 0 else (depleted.order + 1) / 2 - 2) :=
    depleted_soundBut.validBut
  obtain ⟨u, events, hreplenish, hmends, hrounds⟩ := replenish_mends hordered hbut
  have hgiven : ∃ u, replenish depleted.bound 6 depleted =
      .ok (u, [.nodeDropped 0, .rootCollapsed 2]) := ⟨_, rfl⟩
  obtain ⟨u', hgiven⟩ := hgiven
  obtain ⟨rfl, rfl⟩ := Prod.mk.inj (Except.ok.inj ((hreplenish _ (Nat.le_refl _)).symm.trans hgiven))
  have hround : ∃ v, depleted.Replenishes 6 v 0 :=
    ⟨_, .above (.above .here (.intro rfl rfl (by decide) rfl rfl rfl rfl rfl rfl))
      (.intro rfl rfl (by decide) rfl rfl rfl rfl rfl rfl)⟩
  obtain ⟨v, hround⟩ := hround
  obtain ⟨-, node, hnode, hremedy⟩ := hrounds v 0 hround
  exact ⟨hordered, hbut, u, hgiven, hmends, v, node, hround, hnode, hremedy⟩

end Multiway
