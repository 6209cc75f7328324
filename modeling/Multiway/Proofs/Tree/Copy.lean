import Multiway.Proofs.Arena.Numbering
import Multiway.Proofs.Tree.Making
import Multiway.Tree.Copy

/-!
Copying a tree that holds a layout.

A copy is made from the root downwards, and a node joins the children of its parent when all below
it has been copied. So while the children of a node are copied one after the other, the node in the
new arena lists those that are done, and what is stored there is the copy of this much of the node.

Slots are only ever added to the new arena, and a node gets its slot before any node below it. The
numbers of a copied subtree thus are those that come next, in the order in which the nodes are
listed from the root downwards.
-/

namespace Multiway

variable {K V : Type} {f : Fanout} {height : Nat}

namespace Tree

/-- What copying the subtree of a node gives, under a parent and beside what is there already. -/
def Copies (source : Arena K V) (fuel : Nat) (l : Layout (K × V)) : Prop :=
  ∀ parent (target : Arena K V) rest, target.Stores rest →
    ∃ (l' : Layout (K × V)) (target' : Arena K V),
      copyInto source fuel l.slot parent target = .ok (l'.slot, target') ∧
      target'.Stores (l'.cells parent + rest) ∧ l'.shape = l.shape ∧
      l'.numbers = List.range' target.slots.size l.numbers.length ∧
      target'.stock = target.stock.grow l.numbers.length

/-- Copying some children of a node adds them to those that it has. -/
theorem copyChildren_eq {source target : Arena K V} {fuel : Nat} {copy : NodeId}
    {entries : List (K × V)} {parent : Option NodeId} {done todo : List (Layout (K × V))}
    {rest : Multiset (NodeId × Node K V)} (hcopies : ∀ child ∈ todo, Copies source fuel child)
    (h : target.Stores ({(copy, ⟨entries, done.map Layout.slot, parent⟩)} +
      (Layout.allCells (some copy) done + rest))) :
    ∃ all target', (todo.map Layout.slot).foldlM (fun target child => do
          let (childCopy, target) ← copyInto source fuel child (some copy) target
          target.update copy fun node => { node with children := node.children ++ [childCopy] })
        target = .ok target' ∧
      target'.Stores ({(copy, ⟨entries, all.map Layout.slot, parent⟩)} +
        (Layout.allCells (some copy) all + rest)) ∧
      all.map Layout.shape = done.map Layout.shape ++ todo.map Layout.shape ∧
      all.flatMap Layout.numbers = done.flatMap Layout.numbers ++
        List.range' target.slots.size (todo.flatMap Layout.numbers).length ∧
      target'.stock = target.stock.grow (todo.flatMap Layout.numbers).length := by
  -- The copy of the first child joins those that are done, behind them.
  induction todo generalizing done target with
  | nil =>
      exact ⟨done, target, rfl, h, (List.append_nil _).symm, (List.append_nil _).symm, rfl⟩
  | cons child todo ih =>
      obtain ⟨l, a, hcopy, hstores, hshape, hnumbers, hgrown⟩ :=
        hcopies child (List.mem_cons_self ..) (some copy) target _ h
      rw [add_left_comm] at hstores
      obtain ⟨b, hupdate, hstores, hstock⟩ := hstores.update fun node =>
        { node with children := node.children ++ [l.slot] }
      have hnext : b.Stores ({(copy, ⟨entries, (done ++ [l]).map Layout.slot, parent⟩)} +
          (Layout.allCells (some copy) (done ++ [l]) + rest)) := by
        apply hstores.congr
        rw [Layout.allCells_append, Layout.allCells_cons, Layout.allCells_nil, List.map_append,
          List.map_cons, List.map_nil]
        abel
      obtain ⟨all, target', hfold, hstores, hshapes, hnumbers', hgrown'⟩ :=
        ih (fun child hmem => hcopies child (List.mem_cons_of_mem _ hmem)) hnext
      have hsize : b.slots.size = target.slots.size + child.numbers.length :=
        congrArg Arena.Stock.size (hstock.trans hgrown)
      refine ⟨all, target', ?_, hstores, ?_, ?_, ?_⟩
      · rw [List.map_cons, List.foldlM_cons]
        simp only [hcopy, ok_bind, hupdate]
        exact hfold
      · rw [hshapes, List.map_append, List.append_assoc, List.map_cons, List.map_cons, hshape]
        rfl
      · rw [hnumbers', hsize, List.flatMap_append, List.flatMap_singleton, hnumbers,
          List.append_assoc, List.range'_append_1, List.flatMap_cons, List.length_append]
      · rw [hgrown', hstock, hgrown, List.flatMap_cons, List.length_append]
        simp only [Arena.Stock.grow, Nat.add_assoc]

theorem copies_of_children {source : Arena K V} {top : Option NodeId} {l : Layout (K × V)}
    {fuel : Nat} (h : source.Reads (l.cells top))
    (hcopies : ∀ child ∈ l.children, Copies source fuel child) : Copies source (fuel + 1) l := by
  intro parent target rest hstores
  have hnew := hstores.push ⟨l.entries, ([] : List (Layout (K × V))).map Layout.slot, parent⟩
  rw [← zero_add rest, ← Layout.allCells_nil (some target.slots.size)] at hnew
  obtain ⟨all, target', hfold, hstores, hshapes, hnumbers, hgrown⟩ := copyChildren_eq hcopies hnew
  have hcount : l.numbers.length = (l.children.flatMap Layout.numbers).length + 1 := by
    obtain ⟨slot, entries, children⟩ := l
    rw [Layout.numbers_node]
    rfl
  have hsize : (target.push ⟨l.entries, [], parent⟩).2.stock = target.stock.grow 1 := by
    simp [Arena.stock, Arena.push, Arena.Stock.grow]
  refine ⟨.node target.slots.size l.entries all, target', ?_, ?_, ?_, ?_, ?_⟩
  · rw [copyInto, h.node, ok_bind]
    exact congrArg (fun a => a >>= fun arena => .ok (target.slots.size, arena)) hfold
  · rw [Layout.cells_node, add_assoc]
    exact hstores
  · rw [← Shape.node_entries_children l.shape, Layout.entries_shape, Layout.children_shape,
      Layout.shape_node, hshapes]
    rfl
  · rw [Layout.numbers_node, hnumbers, hcount, List.range'_succ]
    exact congrArg (fun size => target.slots.size :: List.range' size _)
      (congrArg Arena.Stock.size hsize)
  · rw [hgrown, hcount]
    exact (congrArg (Arena.Stock.grow · _) hsize).trans (by
      simp only [Arena.Stock.grow, Nat.add_assoc, Nat.add_comm 1])

theorem copies_of_reads {source : Arena K V} {top : Option NodeId} {l : Layout (K × V)} {fuel : Nat}
    (h : source.Reads (l.cells top)) (hl : l.shape.Level height) (hfuel : height < fuel) :
    Copies source fuel l := by
  induction height generalizing l top fuel with
  | zero =>
      obtain ⟨fuel, rfl⟩ : ∃ rest, fuel = rest + 1 := ⟨fuel - 1, by omega⟩
      apply copies_of_children h
      intro child hmem
      rw [Layout.leaf_of_level hl] at hmem
      contradiction
  | succ height ih =>
      obtain ⟨fuel, rfl⟩ : ∃ rest, fuel = rest + 1 := ⟨fuel - 1, by omega⟩
      apply copies_of_children h
      intro child hmem
      exact ih (h.child hmem) (Layout.level_child hl hmem) (by omega)

/-- The slots that a tree lists, each in front of those below it. -/
def numbers : Option (Layout (K × V)) → List NodeId
  | none => []
  | some l => l.numbers

theorem map_fst_cells (l? : Option (Layout (K × V))) :
    (cells l?).map Prod.fst = ↑(numbers l?) := by
  cases l? with
  | none => rfl
  | some l => exact l.map_fst_cells none

theorem Holds.preorder_eq {t : Tree K V} {l? : Option (Layout (K × V))} {tall : Nat}
    (h : t.Holds l?) (hl : Shape.Stands f tall (l?.map Layout.shape)) :
    t.preorder = .ok (numbers l?) := by
  cases l? with
  | none =>
      rw [preorder, h.root]
      rfl
  | some l =>
      obtain ⟨height, rfl, hsound⟩ := hl
      rw [preorder, h.root]
      exact h.stores.reads.preorderFrom_eq hsound.1.level (h.height_lt hsound.1.level)

theorem Holds.live_eq {t : Tree K V} {l? : Option (Layout (K × V))} (h : t.Holds l?) :
    t.arena.live = .ok (numbers l?).length := by
  have hcard := congrArg Multiset.card (map_fst_cells l?)
  rw [Multiset.card_map, Multiset.coe_card] at hcard
  rw [h.stores.live_eq, hcard]

/-- A copy of a tree has the shape of the tree and is made like it. Its nodes are numbered from zero
on, and there are no other slots. -/
theorem Sound.copy {t : Tree K V} {l? : Option (Layout (K × V))} (h : t.Sound l?) :
    ∃ u l?', t.copy = .ok u ∧ u.Sound l?' ∧ l?'.map Layout.shape = l?.map Layout.shape ∧
      Alike t u ∧ numbers l?' = List.range (numbers l?).length ∧
      u.arena.stock = ⟨[], [], t.arena.capacity, (numbers l?).length⟩ := by
  have hblank : (Arena.empty t.arena.capacity : Arena K V).Stores 0 := .empty _
  cases l? with
  | none =>
      refine ⟨{ t with arena := Arena.empty t.arena.capacity }, none, ?_,
        ⟨⟨hblank, h.holds.root⟩, h.stands, h.ascending, h.size_eq⟩, rfl, ⟨rfl, rfl, rfl⟩, rfl, rfl⟩
      rw [Tree.copy, h.holds.root]
      rfl
  | some l =>
      obtain ⟨tall, height, rfl, hsound⟩ := h.stands
      obtain ⟨l', a, hcopy, hstores, hshape, hnumbers, hgrown⟩ := copies_of_reads
        h.holds.stores.reads hsound.1.level (h.holds.height_lt hsound.1.level) none _ 0 hblank
      refine ⟨{ t with arena := a, root := some l'.slot }, some l', ?_,
        ⟨⟨hstores.congr (add_zero _), rfl⟩, ?_, ?_, ?_⟩, congrArg some hshape,
        ⟨rfl, rfl, congrArg Arena.Stock.capacity hgrown⟩, ?_, ?_⟩
      · rw [Tree.copy, h.holds.root]
        simp only [Option.map_some, hcopy, ok_bind]
        rfl
      · rw [Option.map_some, hshape]
        exact h.stands
      · rw [Option.map_some, hshape]
        exact h.ascending
      · rw [Option.map_some, hshape]
        exact h.size_eq
      · rw [List.range_eq_range']
        exact hnumbers
      · refine hgrown.trans ?_
        simp [Arena.stock, Arena.empty, Arena.Stock.grow, numbers]

end Tree

end Multiway
