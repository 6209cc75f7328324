import Multiway.Proofs.Arena.Layout
import Multiway.Proofs.Shape.Descent
import Multiway.Tree.Shape

/-!
Walks over an arena that stores a layout.

Everything that reads an arena follows children from node to node, with a number that bounds the
steps. `reach` says once what all these walks have in common: if a walk does at every node of a path
nothing but go on to the child in the gap, then it comes to the end of the path and has as much of
its number left as the path is shorter. So a walk that is bounded by the number of slots always has
some left, and its result does not depend on the bound.
-/

namespace Multiway

variable {K V β : Type} {f : Fanout} {height : Nat}

namespace Arena

variable {a : Arena K V} {cells more : Multiset (NodeId × Node K V)}

/-- The cells are found in their slots; nothing is said of other slots. -/
def Reads (a : Arena K V) (cells : Multiset (NodeId × Node K V)) : Prop :=
  ∀ cell ∈ cells, a.node cell.1 = .ok cell.2

theorem Stores.reads (h : a.Stores cells) : a.Reads cells :=
  fun cell hmem => node_eq_ok_iff.mpr (h.read cell hmem)

theorem Stores.congr (h : a.Stores cells) (heq : cells = more) : a.Stores more := heq ▸ h

theorem Reads.left (h : a.Reads (cells + more)) : a.Reads cells :=
  fun cell hmem => h cell (Multiset.mem_add.mpr (.inl hmem))

theorem Reads.right (h : a.Reads (cells + more)) : a.Reads more :=
  fun cell hmem => h cell (Multiset.mem_add.mpr (.inr hmem))

theorem Reads.node {parent : Option NodeId} {l : Layout (K × V)} (h : a.Reads (l.cells parent)) :
    a.node l.slot = .ok ⟨l.entries, l.children.map Layout.slot, parent⟩ :=
  h _ (l.slot_mem_cells parent)

theorem Reads.node_plug {top : Option NodeId} {path : List (Frame (K × V))} {l : Layout (K × V)}
    (h : a.Reads ((Layout.plug path l).cells top)) :
    a.node l.slot = .ok ⟨l.entries, l.children.map Layout.slot, Layout.parentOf top path⟩ := by
  rw [Layout.cells_plug] at h
  exact h.left.node

theorem Reads.node_above {top : Option NodeId} {slot : NodeId} {g : Gap (K × V) (Layout (K × V))}
    {path : List (Frame (K × V))} {l : Layout (K × V)}
    (h : a.Reads ((Layout.plug ((slot, g) :: path) l).cells top)) :
    a.node slot = .ok (Layout.frameNode (Layout.parentOf top path) l.slot g) := by
  rw [Layout.cells_plug_cons] at h
  exact h.right.left _ (Multiset.mem_singleton.mpr rfl)

/-- The children of a node are read with the node. -/
theorem Reads.child {parent : Option NodeId} {l child : Layout (K × V)}
    (h : a.Reads (l.cells parent)) (hmem : child ∈ l.children) :
    a.Reads (child.cells (some l.slot)) := by
  obtain ⟨slot, entries, children⟩ := l
  rw [Layout.cells_node] at h
  intro cell hcell
  exact h.right cell (Layout.mem_allCells.mpr ⟨child, hmem, hcell⟩)

/-- A child finds the gap in which it stands, because no other child has its slot. -/
theorem Stores.positionOf_plug {top parent : Option NodeId} {slot : NodeId}
    {g : Gap (K × V) (Layout (K × V))} {path : List (Frame (K × V))} {l : Layout (K × V)}
    (h : a.Stores ((Layout.plug ((slot, g) :: path) l).cells top)) :
    (Layout.frameNode parent l.slot g).positionOf? l.slot = some g.position := by
  have hnodup := h.nodup
  rw [Layout.cells_plug_cons, Multiset.map_add] at hnodup
  have hdisjoint := (Multiset.nodup_add.mp hnodup).2.2
  -- An earlier child with the same slot would be a second cell there.
  have hslot : l.slot ∉ (g.before.map fun pair => pair.1.slot).reverse := by
    intro hmem
    obtain ⟨pair, hpair, heq⟩ := List.mem_map.mp (List.mem_reverse.mp hmem)
    have haround : pair.1 ∈ g.around [] := by
      simp only [Gap.around, List.append_nil, List.mem_append, List.mem_reverse]
      exact .inl (List.mem_map_of_mem hpair)
    refine Multiset.disjoint_left.mp hdisjoint
      (Multiset.mem_map_of_mem Prod.fst (l.slot_mem_cells (some slot))) ?_
    refine Multiset.mem_map.mpr
      ⟨(pair.1.slot, ⟨pair.1.entries, pair.1.children.map Layout.slot, some slot⟩), ?_, heq⟩
    refine Multiset.mem_add.mpr (.inr (Multiset.mem_add.mpr (.inl ?_)))
    exact Layout.mem_allCells.mpr ⟨pair.1, haround, pair.1.slot_mem_cells (some slot)⟩
  have hindex : ((g.before.map fun pair => pair.1.slot).reverse ++ l.slot ::
      g.behind.map fun pair => pair.2.slot).idxOf? l.slot = _ := idxOf?_length_append hslot
  simpa [Node.positionOf?, Layout.frameNode, Gap.around, Gap.map, Gap.position,
    Function.comp_def] using hindex

/-- A walk that goes on to the child in the gap at every node of a path comes to its end. What it
carries along may depend on the part of the path that it has behind it. -/
theorem Reads.reach_along {top : Option NodeId} {path : List (Frame (K × V))} {l : Layout (K × V)}
    (h : a.Reads ((Layout.plug path l).cells top))
    (walk : List (Frame (K × V)) → Nat → NodeId → Except Fault β)
    (hstep : ∀ frame up, frame ∈ path → ∀ hole parent,
      a.node frame.1 = .ok (Layout.frameNode parent hole frame.2) →
        ∀ fuel, walk up (fuel + 1) frame.1 = walk (frame :: up) fuel hole)
    (fuel : Nat) : walk [] (path.length + fuel) (Layout.plug path l).slot = walk path fuel l.slot := by
  -- The first frame is the lowest one, so the induction takes off the last step of the walk.
  induction path generalizing l fuel with
  | nil =>
      rw [List.length_nil, Nat.zero_add]
      rfl
  | cons frame path ih =>
      have hnode : a.node frame.1 =
          .ok (Layout.frameNode (Layout.parentOf top path) l.slot frame.2) := h.node_above
      have hrest := ih (l := Layout.fill frame l) h
        (fun frame' up hmem => hstep frame' up (List.mem_cons_of_mem frame hmem)) (fuel + 1)
      rw [List.length_cons, Nat.add_assoc, Nat.add_comm 1 fuel, Layout.plug, hrest]
      exact hstep frame path (List.mem_cons_self ..) l.slot _ hnode fuel

theorem Reads.reach {top : Option NodeId} {path : List (Frame (K × V))} {l : Layout (K × V)}
    {walk : Nat → NodeId → Except Fault β} (h : a.Reads ((Layout.plug path l).cells top))
    (hstep : ∀ frame ∈ path, ∀ hole parent,
      a.node frame.1 = .ok (Layout.frameNode parent hole frame.2) →
        ∀ fuel, walk (fuel + 1) frame.1 = walk fuel hole)
    (fuel : Nat) : walk (path.length + fuel) (Layout.plug path l).slot = walk fuel l.slot :=
  h.reach_along (fun _ => walk) (fun frame _ hmem => hstep frame hmem) fuel

/-! ### The two edges -/

section edges

variable {top : Option NodeId} {l : Layout (K × V)} {fuel : Nat}

/-- A way that is chosen everywhere ends in a leaf, if `next` chooses in a node what `steer` chooses
in its entries. -/
theorem Reads.exists_follow {steer : List (K × V) → Option Nat}
    {next : Node K V → Option NodeId} (h : a.Reads (l.cells top)) (hl : l.shape.Regular f height)
    (hsteer : ∀ entries, ∃ position, steer entries = some position ∧ position ≤ entries.length)
    (hnext : ∀ g hole parent, steer g.entries = some g.position →
      next (Layout.frameNode parent hole g) = some hole)
    (hend : ∀ entries parent, next ⟨entries, [], parent⟩ = none) (hfuel : height < fuel) :
    ∃ path leaf, height = path.length ∧ Layout.plug path leaf = l ∧ leaf.children = [] ∧
      Shape.Steered steer (Layout.shapes path) ∧
      (∀ up, l.shape.walk steer up = (Layout.shapes path ++ up, leaf.shape)) ∧
      a.follow next fuel l.slot = .ok leaf.slot := by
  obtain ⟨spath, entries, rfl, hplug, hpath, hwalk⟩ := Shape.exists_walk_leaf hsteer hl
  obtain ⟨path, leaf, rfl, rfl, hshape⟩ := Layout.exists_plug hplug.symm
  obtain ⟨hentries, hchildren⟩ := Layout.eq_of_shape hshape
  rw [Layout.length_shapes] at hfuel ⊢
  refine ⟨path, leaf, rfl, rfl, hchildren, hpath, fun up => hshape ▸ hwalk up, ?_⟩
  obtain ⟨rest, rfl⟩ : ∃ rest, fuel = path.length + (rest + 1) :=
    ⟨fuel - path.length - 1, by omega⟩
  have hstep : ∀ frame ∈ path, ∀ hole parent,
      a.node frame.1 = .ok (Layout.frameNode parent hole frame.2) →
        ∀ fuel, a.follow next (fuel + 1) frame.1 = a.follow next fuel hole := by
    intro frame hmem hole parent hnode fuel
    have hgap := hpath (frame.2.map Layout.shape) (List.mem_map_of_mem hmem)
    rw [Gap.position_map, Gap.entries_map] at hgap
    rw [follow, hnode, ok_bind, hnext frame.2 hole parent hgap]
  rw [h.reach hstep, follow, h.node_plug, ok_bind, hchildren, List.map_nil, hend]
  rfl

theorem Reads.exists_leftmost (h : a.Reads (l.cells top)) (hl : l.shape.Regular f height)
    (hfuel : height < fuel) :
    ∃ path leaf, height = path.length ∧ Layout.plug path leaf = l ∧ leaf.children = [] ∧
      Shape.Steered Shape.steerLow (Layout.shapes path) ∧
      (∀ up, l.shape.walk Shape.steerLow up = (Layout.shapes path ++ up, leaf.shape)) ∧
      a.leftmost fuel l.slot = .ok leaf.slot := by
  refine h.exists_follow hl (fun _ => ⟨0, rfl, Nat.zero_le _⟩) ?_ (fun _ _ => rfl) hfuel
  intro g hole parent hsteer
  have hbefore : g.before = [] := List.length_eq_zero_iff.mp (Option.some.inj hsteer).symm
  simp [Layout.frameNode, Gap.around, Gap.map, hbefore]

theorem Reads.exists_rightmost (h : a.Reads (l.cells top)) (hl : l.shape.Regular f height)
    (hfuel : height < fuel) :
    ∃ path leaf, height = path.length ∧ Layout.plug path leaf = l ∧ leaf.children = [] ∧
      Shape.Steered Shape.steerHigh (Layout.shapes path) ∧
      (∀ up, l.shape.walk Shape.steerHigh up = (Layout.shapes path ++ up, leaf.shape)) ∧
      a.rightmost fuel l.slot = .ok leaf.slot := by
  refine h.exists_follow hl (fun entries => ⟨entries.length, rfl, Nat.le_refl _⟩) ?_
    (fun _ _ => rfl) hfuel
  intro g hole parent hsteer
  have hlength : g.entries.length = g.before.length := Option.some.inj hsteer
  rw [Gap.length_entries] at hlength
  have hbehind : g.behind = [] := List.length_eq_zero_iff.mp (by omega)
  simp [Layout.frameNode, Gap.around, Gap.map, hbehind]

end edges

/-! ### The height and the shape -/

theorem Reads.levels_eq {parent : Option NodeId} {l : Layout (K × V)} {fuel : Nat}
    (h : a.Reads (l.cells parent)) (hl : l.shape.Level height) (hfuel : height < fuel) :
    a.levels fuel l.slot = .ok (height + 1) := by
  induction height generalizing l parent fuel with
  | zero =>
      obtain ⟨fuel, rfl⟩ : ∃ rest, fuel = rest + 1 := ⟨fuel - 1, by omega⟩
      rw [levels, h.node, ok_bind, Layout.leaf_of_level hl]
      rfl
  | succ height ih =>
      obtain ⟨fuel, rfl⟩ : ∃ rest, fuel = rest + 1 := ⟨fuel - 1, by omega⟩
      obtain ⟨child, rest, hcons⟩ :=
        List.exists_cons_of_length_eq_add_one (Layout.length_of_level hl)
      have hmem : child ∈ l.children := hcons ▸ List.mem_cons_self ..
      have hbelow := ih (h.child hmem) (Layout.level_child hl hmem) (by omega : height < fuel)
      rw [levels, h.node, ok_bind, hcons]
      show (a.levels fuel child.slot >>= fun below => pure (below + 1)) = _
      rw [hbelow]
      rfl

theorem mapM_map_eq_ok {α γ : Type} {name : α → γ} {step : γ → Except Fault β} {result : α → β}
    {items : List α} (h : ∀ item ∈ items, step (name item) = .ok (result item)) :
    (items.map name).mapM step = .ok (items.map result) := by
  induction items with
  | nil => rfl
  | cons item items ih =>
      rw [List.map_cons, List.mapM_cons, h item (List.mem_cons_self ..), ok_bind,
        ih fun item' hmem => h item' (List.mem_cons_of_mem item hmem)]
      rfl

/-- A walk that asks the children of a node and gathers their answers comes to what is gathered in the
layout. -/
theorem Reads.gather_eq {parent : Option NodeId} {l : Layout (K × V)} {fuel : Nat}
    {walk : Nat → NodeId → Except Fault β} {answer : Layout (K × V) → β}
    (h : a.Reads (l.cells parent)) (hl : l.shape.Level height) (hfuel : height < fuel)
    (gather : NodeId → List (K × V) → List β → β)
    (hwalk : ∀ fuel id node, a.node id = .ok node → walk (fuel + 1) id =
      (node.children.mapM (walk fuel)).map fun below => gather id node.entries below)
    (hanswer : ∀ slot entries children,
      answer (.node slot entries children) = gather slot entries (children.map answer)) :
    walk fuel l.slot = .ok (answer l) := by
  induction height generalizing l parent fuel with
  | zero =>
      obtain ⟨fuel, rfl⟩ : ∃ rest, fuel = rest + 1 := ⟨fuel - 1, by omega⟩
      have hleaf := Layout.leaf_of_level hl
      obtain ⟨slot, entries, children⟩ := l
      obtain rfl : children = [] := hleaf
      rw [hwalk _ _ _ h.node, hanswer]
      rfl
  | succ height ih =>
      obtain ⟨fuel, rfl⟩ : ∃ rest, fuel = rest + 1 := ⟨fuel - 1, by omega⟩
      have hchildren : ∀ child ∈ l.children, walk fuel child.slot = .ok (answer child) := by
        intro child hmem
        exact ih (h.child hmem) (Layout.level_child hl hmem) (by omega)
      rw [hwalk _ _ _ h.node, mapM_map_eq_ok hchildren]
      obtain ⟨slot, entries, children⟩ := l
      rw [hanswer]
      rfl

theorem Reads.shapeFrom_eq {parent : Option NodeId} {l : Layout (K × V)} {fuel : Nat}
    (h : a.Reads (l.cells parent)) (hl : l.shape.Level height) (hfuel : height < fuel) :
    Tree.shapeFrom a fuel l.slot = .ok l.shape := by
  refine h.gather_eq hl hfuel (fun _ => Shape.node) (fun fuel id node hnode => ?_) Layout.shape_node
  rw [Tree.shapeFrom, hnode, ok_bind]
  cases node.children.mapM (Tree.shapeFrom a fuel) <;> rfl

end Arena

end Multiway
