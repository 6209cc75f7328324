import Multiway.Proofs.Run.Ledger
import Multiway.Proofs.Tree.Bounded
import Multiway.Proofs.Tree.Relief
import Multiway.Proofs.Tree.Repair
import Multiway.Proofs.Tree.Tour

/-!
Every walk ends.

A tree that can be reached is walked through in many ways, and so are the trees that an insertion or a
removal goes through while it mends one node after the other. In all of them the leaves are level and
there are as many levels as before, so the height that the tree had bounds every walk: on the way down,
on the way up, and from one mended node to the next. The recursions that go down to all children come
to each node once.
-/

namespace Multiway

variable {K V : Type} {cmp : K → K → Ordering} {height : Nat}

namespace Tree

variable {t u : Tree K V} {key : K} {value : V} {id : NodeId}

/-- The trees that a removal goes through, each with the node that is looked at there: first the leaf
that has lost an entry, and after every merge the node above. -/
inductive Loss (t : Tree K V) (u : Tree K V) (id : NodeId) : Prop
  | intro {v : Visit K V} {position size : Nat} {d : Tree K V} {removed : K × V} {leaf : NodeId}
      (hv : t.Visited v) (hposition : position < v.node.entries.length)
      (hdetach : t.detach v.id position = .ok (d, removed, leaf))
      (hsize : oneBelow d.size = .ok size)
      (hround : ({ d with size } : Tree K V).Replenishes leaf u id)

/-- A tree in which a node is to be mended by a loop. The tree has so many levels, and the loop looks
at no more nodes than there are on the way from that node to the root. -/
structure Mended (t : Tree K V) (levels : Nat) (id : NodeId)
    (loop : Nat → NodeId → Tree K V → Except Fault (Tree K V × List Event)) : Prop where
  bounded : t.Bounded levels
  toured : ∃ visits, t.Toured levels visits
  ends : ∃ v result, t.Visited v ∧ v.id = id ∧ v.depth < levels ∧
    ∀ fuel, v.depth < fuel → loop fuel id t = .ok result

theorem Holds.mended {path : List (Frame (K × V))} {l : Layout (K × V)}
    {loop : Nat → NodeId → Tree K V → Except Fault (Tree K V × List Event)}
    (h : t.Holds (some (Layout.plug path l))) (hl : l.shape.Regular t.fanout height)
    (haround : Shape.RegularPath t.fanout height (Layout.shapes path))
    (hloop : ∃ result, ∀ fuel, path.length < fuel → loop fuel l.slot t = .ok result) :
    t.Mended (height + path.length + 1) l.slot loop := by
  have hlevel : (Layout.plug path l).shape.Level (height + path.length) := by
    rw [Layout.shape_plug, ← Layout.length_shapes]
    exact Shape.level_plug hl.level haround
  obtain ⟨result, hresult⟩ := hloop
  exact ⟨h.bounded hlevel, ⟨_, h.toured hlevel⟩, Layout.visit path l, result, h.visited_visit, rfl,
    Nat.lt_succ_of_le (Nat.le_add_left ..), hresult⟩

/-- In every round of an insertion the height of the tree bounds all walks. -/
theorem Sound.round_mended [Std.TransCmp t.cmp] {l? : Option (Layout (K × V))} {levels : Nat}
    (h : t.Sound l?) (hheight : t.height = .ok levels) (hround : t.Round key value u id) :
    u.Mended levels id relieve := by
  obtain ⟨path, l, height, hfilling, rfl, halike, -, htall⟩ := h.round_filling hround
  obtain rfl := Except.ok.inj (htall.symm.trans hheight)
  have := halike.transCmp
  obtain ⟨v, l', hrelieve, -⟩ := relieve_eq hfilling (Nat.lt_succ_self path.length)
  exact hfilling.holds.mended hfilling.regular hfilling.around
    ⟨_, fun fuel hfuel => relieve_mono hrelieve hfuel⟩

/-- In every round of a removal, too. -/
theorem Sound.loss_mended {l? : Option (Layout (K × V))} {levels : Nat} (h : t.Sound l?)
    (hheight : t.height = .ok levels) (hloss : t.Loss u id) : u.Mended levels id replenish := by
  obtain ⟨hv, hposition, hdetach, -, hround⟩ := hloss
  cases l? with
  | none => exact (not_visited h.holds.root _ hv).elim
  | some l =>
      obtain ⟨tall, height, rfl, hsound⟩ := h.stands
      obtain rfl := Except.ok.inj
        ((h.holds.height_eq (f := t.fanout) ⟨height, rfl, hsound⟩).symm.trans hheight)
      obtain ⟨path, focus, rfl, rfl⟩ := (h.holds.visited_iff hsound.1.level).mp hv
      obtain ⟨rest, low, entry, high, rfl, hfocus, hlow, hhigh, rfl⟩ :=
        exists_join hsound rfl hposition
      obtain ⟨d', path', leaf', hdetach', hlacking, hlength, -⟩ :=
        h.holds.detach_lacking hfocus hlow hhigh hsound
      obtain ⟨rfl, heq⟩ := Prod.mk.inj (Except.ok.inj (hdetach'.symm.trans hdetach))
      obtain ⟨-, rfl⟩ := Prod.mk.inj heq
      obtain ⟨path'', l, height, hnext, rfl, -, hsum⟩ :=
        (hlacking.resize _).replenishes hround
      rw [← hlength, ← Nat.zero_add path'.length, ← hsum]
      exact hnext.holds.mended hnext.regular hnext.around hnext.exists_result

end Tree

/-- Nothing that goes from node to node in a tree goes on for ever. The height bounds all walks, in a
tree that can be reached and in those through which an insertion or a removal goes; and the recursions
over all nodes come to each of them once. -/
theorem walks_end (hcmp : Consistent cmp) {t : Tree K V} (hreach : t.Reachable cmp) :
    ∃ levels visits, t.height = .ok levels ∧ t.Bounded levels ∧ t.Toured levels visits ∧
      (∃ tally, visits.foldlM t.auditVisit {} = pure tally ∧ tally.nodes = visits.length) ∧
      (∀ key value u id, t.Round key value u id → u.Mended levels id Tree.relieve) ∧
      ∀ u id, t.Loss u id → u.Mended levels id Tree.replenish := by
  have := hcmp.transCmp
  obtain ⟨l?, hsound, rfl⟩ := hreach.sound
  obtain ⟨levels, hstands⟩ := hsound.stands
  have hheight := hsound.holds.height_eq hstands
  have hrounds : (∀ key value u id, t.Round key value u id → u.Mended levels id Tree.relieve) ∧
      ∀ u id, t.Loss u id → u.Mended levels id Tree.replenish :=
    ⟨fun _ _ _ _ => hsound.round_mended hheight, fun _ _ => hsound.loss_mended hheight⟩
  cases l? with
  | none =>
      obtain rfl : levels = 0 := hstands
      exact ⟨0, [], hheight, Tree.bounded_none hsound.holds.root, hsound.holds.toured_none,
        ⟨{}, rfl, rfl⟩, hrounds⟩
  | some l =>
      obtain ⟨height, rfl, hshape⟩ := hstands
      have htoured := hsound.holds.toured hshape.1.level
      obtain ⟨leafDepth, haudit⟩ := hsound.auditFrom_eq
      rw [htoured.audit l.slot t.bound {} hsound.holds.root (hsound.holds.height_lt hshape.1.level)]
        at haudit
      refine ⟨height + 1, _, hheight, hsound.holds.bounded hshape.1.level, htoured,
        ⟨_, haudit, ?_⟩, hrounds⟩
      exact Except.ok.inj (hsound.holds.stores.live_eq.symm.trans htoured.live)

/-- What storing the keys from 1 to 6 makes of an empty tree of order 3. -/
def twoLevels : Tree Nat Nat where
  arena :=
    { slots := #[⟨[(1, 10)], [], some 2⟩, ⟨[(3, 30)], [], some 2⟩,
        ⟨[(2, 20), (4, 40)], [0, 1, 3], none⟩, ⟨[(5, 50), (6, 60)], [], some 2⟩]
      capacity := 64 }
  root := some 2
  cmp := compare
  fanout := (Fanout.ofOrder? Fanout.smallest).getD .standard
  size := 6

theorem twoLevels_reachable : twoLevels.Reachable compare := by
  obtain ⟨t, hreach, harena, hroot, hfanout, hsize⟩ : ∃ t : Tree Nat Nat, t.Reachable compare ∧
      t.arena = twoLevels.arena ∧ t.root = twoLevels.root ∧ t.fanout = twoLevels.fanout ∧
        t.size = twoLevels.size :=
    Tree.exists_reachable (.order 2) [.insert 1 10, .insert 2 20, .insert 3 30, .insert 4 40,
      .insert 5 50, .insert 6 60] (by decide +kernel)
  obtain ⟨-, -, hcmp⟩ := hreach.sound
  obtain ⟨arena, root, order, fanout, size⟩ := t
  dsimp only at harena hroot hfanout hsize hcmp
  subst harena hroot hfanout hsize hcmp
  exact hreach

open Multiway.Tree in
/-- Two levels of order 3. One more entry makes the last leaf too full and then the root; without its
first entry the first leaf is merged, and the root is looked at again. -/
theorem walks_end_two_levels :
    Consistent (compare : Nat → Nat → Ordering) ∧ twoLevels.Reachable compare ∧
      twoLevels.height = .ok 2 ∧ twoLevels.Bounded 2 ∧
      (∃ visits, twoLevels.Toured 2 visits ∧ visits.length = 4) ∧
      (∃ u, twoLevels.Round 7 70 u 2 ∧ u.Mended 2 2 relieve) ∧
      ∃ u, twoLevels.Loss u 2 ∧ u.Mended 2 2 replenish := by
  have hcmp : Consistent (compare : Nat → Nat → Ordering) := Consistent.of_transCmp
  obtain ⟨levels, visits, hheight, hbounded, htoured, -, hrounds, hlosses⟩ :=
    walks_end hcmp twoLevels_reachable
  obtain rfl : 2 = levels := Except.ok.inj hheight
  have hround : ∃ u, twoLevels.Round 7 70 u 2 :=
    ⟨_, .above (.leaf rfl rfl rfl rfl rfl) rfl (by decide) rfl rfl rfl⟩
  have htop : twoLevels.Visited ⟨2, ⟨[(2, 20), (4, 40)], [0, 1, 3], none⟩, none, 0, [], []⟩ :=
    .root rfl rfl
  have hfirst := Visited.child htop (show [0, 1, 3][0]? = some 0 from rfl) rfl
  have hloss : ∃ u, twoLevels.Loss u 2 :=
    ⟨_, .intro hfirst (show 0 < 1 from Nat.one_pos) rfl rfl
      (.above .here (.intro rfl rfl (by decide) rfl rfl rfl rfl rfl rfl))⟩
  obtain ⟨u, hround⟩ := hround
  obtain ⟨w, hloss⟩ := hloss
  exact ⟨hcmp, twoLevels_reachable, hheight, hbounded, ⟨visits, htoured,
    (Except.ok.inj htoured.live).symm⟩, ⟨u, hround, hrounds 7 70 u 2 hround⟩, w, hloss,
    hlosses w 2 hloss⟩

end Multiway
