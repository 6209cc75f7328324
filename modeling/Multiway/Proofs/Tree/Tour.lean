import Multiway.Proofs.Tree.Audit
import Multiway.Proofs.Tree.Copy
import Multiway.Proofs.Tree.Valid

/-!
Every node once.

Checking a tree, writing it out and copying it are three recursions over the children of a node, and
each of them comes to every node once. `Layout.tour` lists the visits in the order in which they are
made, with what is known on the way to each: the node above, the depth, and the separators on both
sides. Each recursion is then shown to be a walk over this list and nothing else. A check that stops
at a violation stops in the list as well, so nothing has to be asked of the entries; the leaves must be
level, so that the depth to which a recursion may go is enough for all branches alike.
-/

namespace Multiway

variable {K V : Type} {height : Nat}

namespace Layout

mutual

/-- The visits of a layout, each node in front of those below it. -/
def tour (parent : Option NodeId) (depth : Nat) (low high : List (K × V)) :
    Layout (K × V) → List (Visit K V)
  | .node slot entries children =>
    ⟨slot, ⟨entries, children.map Layout.slot, parent⟩, parent, depth, low, high⟩ ::
      tourAll slot (depth + 1) low entries high children

/-- The visits of the children of a node, the first of them in front of some entries. -/
def tourAll (slot : NodeId) (depth : Nat) (low entries high : List (K × V)) :
    List (Layout (K × V)) → List (Visit K V)
  | [] => []
  | child :: children =>
    child.tour (some slot) depth low (entries ++ high) ++
      tourAll slot depth (low ++ entries.take 1) (entries.drop 1) high children

end

theorem tour_eq (parent : Option NodeId) (depth : Nat) (low high : List (K × V))
    (l : Layout (K × V)) : l.tour parent depth low high =
      ⟨l.slot, ⟨l.entries, l.children.map slot, parent⟩, parent, depth, low, high⟩ ::
        tourAll l.slot (depth + 1) low l.entries high l.children := by
  obtain ⟨slot, entries, children⟩ := l
  rw [tour]
  rfl

/-- A child is visited behind the entries on its left and in front of those on its right. -/
theorem mem_tourAll {slot : NodeId} {depth : Nat} {low entries high : List (K × V)}
    {children : List (Layout (K × V))} {v : Visit K V} :
    v ∈ tourAll slot depth low entries high children ↔
      ∃ (position : Nat) (child : Layout (K × V)), children[position]? = some child ∧
        v ∈ child.tour (some slot) depth (low ++ entries.take position)
          (entries.drop position ++ high) := by
  induction children generalizing low entries with
  | nil => simp [tourAll]
  | cons child children ih =>
      rw [tourAll, List.mem_append, ih]
      constructor
      · rintro (hmem | ⟨position, other, hget, hmem⟩)
        · exact ⟨0, child, rfl, by simpa using hmem⟩
        · refine ⟨position + 1, other, hget, ?_⟩
          rw [List.drop_drop, Nat.add_comm 1] at hmem
          rwa [Nat.add_comm position, List.take_add, ← List.append_assoc, Nat.add_comm 1]
      · rintro ⟨position, other, hget, hmem⟩
        cases position with
        | zero =>
            obtain rfl := Option.some.inj hget
            exact .inl (by simpa using hmem)
        | succ position =>
            refine .inr ⟨position, other, hget, ?_⟩
            rw [List.drop_drop, Nat.add_comm 1]
            rwa [Nat.add_comm position, List.take_add, ← List.append_assoc, Nat.add_comm 1] at hmem

/-- The nodes are visited in the order in which they are listed. -/
theorem map_id_tour (parent : Option NodeId) (depth : Nat) (low high : List (K × V))
    (l : Layout (K × V)) : (l.tour parent depth low high).map Visit.id = l.numbers := by
  induction l using induct generalizing parent depth low high with
  | h slot entries children ih =>
      have hall (low entries : List (K × V)) :
          (tourAll slot (depth + 1) low entries high children).map Visit.id =
            children.flatMap numbers := by
        induction children generalizing low entries with
        | nil => rfl
        | cons child children ihs =>
            rw [tourAll, List.map_append, ih child (List.mem_cons_self ..),
              ihs fun other hmem => ih other (List.mem_cons_of_mem _ hmem)]
            rfl
      rw [tour, numbers_node, List.map_cons, hall]

/-- So are the lines of the outline. -/
theorem map_line_tour (parent : Option NodeId) (depth : Nat) (low high : List (K × V))
    (l : Layout (K × V)) :
    ((l.tour parent depth low high).map fun v => (v.depth, v.node.entries)) =
      l.shape.outline depth := by
  induction l using induct generalizing parent depth low high with
  | h slot entries children ih =>
      have hall (low entries : List (K × V)) :
          ((tourAll slot (depth + 1) low entries high children).map fun v =>
            (v.depth, v.node.entries)) =
              Shape.outlineAll (depth + 1) (children.map shape) := by
        induction children generalizing low entries with
        | nil => rw [tourAll, List.map_nil, List.map_nil, Shape.outlineAll]
        | cons child children ihs =>
            rw [tourAll, List.map_append, ih child (List.mem_cons_self ..),
              ihs fun other hmem => ih other (List.mem_cons_of_mem _ hmem), List.map_cons,
              Shape.outlineAll]
      rw [tour, shape_node, Shape.outline, List.map_cons, hall]

/-- What is visited are cells. -/
theorem mem_cells_of_tour {parent : Option NodeId} {depth : Nat} {low high : List (K × V)}
    {l : Layout (K × V)} {v : Visit K V} (h : v ∈ l.tour parent depth low high) :
    (v.id, v.node) ∈ l.cells parent := by
  induction l using induct generalizing parent depth low high with
  | h slot entries children ih =>
      rw [tour, List.mem_cons] at h
      rw [cells_node, Multiset.mem_add]
      rcases h with rfl | h
      · exact .inl (Multiset.mem_singleton.mpr rfl)
      · obtain ⟨position, child, hget, hmem⟩ := mem_tourAll.mp h
        have hchild := List.mem_of_getElem? hget
        exact .inr (mem_allCells.mpr ⟨child, hchild, ih child hchild hmem⟩)

end Layout

namespace Tree

variable {t : Tree K V} {l : Layout (K × V)}

/-- Every child of a node on the tour is on the tour. -/
theorem mem_tour_child {parent : Option NodeId} {depth : Nat} {low high : List (K × V)}
    {v : Visit K V} {position : Nat} {id : NodeId} {node : Node K V}
    (hreads : t.arena.Reads (l.cells parent)) (hv : v ∈ l.tour parent depth low high)
    (hchild : v.node.children[position]? = some id) (hnode : t.arena.node id = .ok node) :
    ⟨id, node, some v.id, v.depth + 1, v.low ++ v.node.entries.take position,
      v.node.entries.drop position ++ v.high⟩ ∈ l.tour parent depth low high := by
  induction l using Layout.induct generalizing parent depth low high with
  | h slot entries children ih =>
      rw [Layout.tour, List.mem_cons] at hv ⊢
      rcases hv with rfl | hv
      · rw [List.getElem?_map] at hchild
        obtain ⟨child, hget, rfl⟩ := Option.map_eq_some_iff.mp hchild
        have hbelow : t.arena.Reads (child.cells (some slot)) :=
          hreads.child (List.mem_of_getElem? hget)
        obtain rfl := Except.ok.inj (hbelow.node.symm.trans hnode)
        refine .inr (Layout.mem_tourAll.mpr ⟨position, child, hget, ?_⟩)
        rw [Layout.tour_eq]
        exact List.mem_cons_self ..
      · obtain ⟨index, child, hget, hmem⟩ := Layout.mem_tourAll.mp hv
        have hlisted := List.mem_of_getElem? hget
        exact .inr (Layout.mem_tourAll.mpr
          ⟨index, child, hget, ih child hlisted (hreads.child hlisted) hmem⟩)

/-- The children lead to everything on the tour. -/
theorem visited_of_mem_tour {parent : Option NodeId} {depth : Nat} {low high : List (K × V)}
    {v : Visit K V} (hreads : t.arena.Reads (l.cells parent))
    (htop : t.Visited ⟨l.slot, ⟨l.entries, l.children.map Layout.slot, parent⟩, parent, depth, low,
      high⟩) (hv : v ∈ l.tour parent depth low high) : t.Visited v := by
  induction l using Layout.induct generalizing parent depth low high with
  | h slot entries children ih =>
      rw [Layout.tour, List.mem_cons] at hv
      rcases hv with rfl | hv
      · exact htop
      · obtain ⟨position, child, hget, hmem⟩ := Layout.mem_tourAll.mp hv
        have hlisted := List.mem_of_getElem? hget
        have hbelow : t.arena.Reads (child.cells (some slot)) := hreads.child hlisted
        refine ih child hlisted hbelow (.child htop ?_ hbelow.node) hmem
        show (children.map Layout.slot)[position]? = _
        rw [List.getElem?_map, hget]
        rfl

/-- The nodes on the tour are those that can be visited. -/
theorem Holds.mem_tour_iff (h : t.Holds (some l)) {v : Visit K V} :
    v ∈ l.tour none 0 [] [] ↔ t.Visited v := by
  have hreads : t.arena.Reads (l.cells none) := h.stores.reads
  constructor
  · exact visited_of_mem_tour hreads (.root h.root hreads.node)
  · intro hv
    induction hv with
    | root hroot hnode =>
        obtain rfl := Option.some.inj (hroot.symm.trans h.root)
        obtain rfl := Except.ok.inj (hnode.symm.trans hreads.node)
        rw [Layout.tour_eq]
        exact List.mem_cons_self ..
    | child hv hchild hnode ih => exact mem_tour_child hreads ih hchild hnode

/-! ### Checking -/

/-- What an audit does in one node, and what it has seen afterwards. -/
def auditVisit (t : Tree K V) (tally : Tally) (v : Visit K V) : Audit Tally := do
  t.auditNode v.id v.node v.parent (lowerBound v.low) (upperBound v.high)
  let tally := { tally with
    entries := tally.entries + v.node.entries.length, nodes := tally.nodes + 1 }
  if v.node.isLeaf then
    if let some expected := tally.leafDepth then
      Audit.demand (expected = v.depth) (.depth v.id v.depth expected)
    return { tally with leafDepth := some v.depth }
  else
    Audit.demand (v.node.children.length = v.node.entries.length + 1)
      (.children v.id v.node.entries.length v.node.children.length)
    return tally

/-- The children are checked one after the other. -/
theorem auditChildren_foldlM {fuel depth : Nat} {slot : NodeId} (parent : Option NodeId)
    (low : List (K × V)) {entries high : List (K × V)} {children : List (Layout (K × V))}
    (tally : Tally) (hlength : children.length = entries.length + 1)
    (hchildren : ∀ child ∈ children, ∀ low high tally,
      t.auditFrom fuel child.slot (some slot) depth (lowerBound low) (upperBound high) tally =
        (child.tour (some slot) depth low high).foldlM t.auditVisit tally) :
    (bracketed ⟨entries, children.map Layout.slot, parent⟩ (lowerBound low)
        (upperBound high)).foldlM (fun tally (child, lower, upper) =>
          t.auditFrom fuel child (some slot) depth lower upper tally) tally =
      (Layout.tourAll slot depth low entries high children).foldlM t.auditVisit tally := by
  induction entries generalizing children low tally with
  | nil =>
      obtain ⟨child, rfl⟩ := List.length_eq_one_iff.mp hlength
      rw [List.map_singleton, bracketed_singleton, List.foldlM_cons, Layout.tourAll, Layout.tourAll,
        List.append_nil]
      simp only [hchildren child (List.mem_cons_self ..), List.foldlM_nil, bind_pure]
      rfl
  | cons entry entries ih =>
      obtain ⟨child, children, rfl⟩ := List.exists_cons_of_length_eq_add_one hlength
      have hfirst := hchildren child (List.mem_cons_self ..) low (entry :: entries ++ high) tally
      have hrest (tally : Tally) := ih (low ++ [entry]) tally (Nat.succ.inj hlength)
        fun other hmem => hchildren other (List.mem_cons_of_mem _ hmem)
      rw [lowerBound_concat] at hrest
      rw [List.map_cons, bracketed_cons, List.foldlM_cons, Layout.tourAll, List.foldlM_append,
        ← hfirst]
      exact bind_congr hrest

/-- Checking a subtree is looking at its nodes one after the other. -/
theorem auditFrom_eq {l : Layout (K × V)} {parent : Option NodeId} {fuel depth : Nat}
    (low high : List (K × V)) {tally : Tally} (h : t.arena.Reads (l.cells parent))
    (hl : l.shape.Level height) (hfuel : height < fuel) :
    t.auditFrom fuel l.slot parent depth (lowerBound low) (upperBound high) tally =
      (l.tour parent depth low high).foldlM t.auditVisit tally := by
  induction height generalizing l parent fuel depth low high tally with
  | zero =>
      obtain ⟨fuel, rfl⟩ : ∃ rest, fuel = rest + 1 := ⟨fuel - 1, by omega⟩
      rw [Layout.tour_eq, Layout.leaf_of_level hl, Layout.tourAll, List.foldlM_cons, auditFrom, h.node,
        Layout.leaf_of_level hl]
      simp only [List.foldlM_nil, bind_pure]
      rfl
  | succ height ih =>
      obtain ⟨fuel, rfl⟩ : ∃ rest, fuel = rest + 1 := ⟨fuel - 1, by omega⟩
      have hlength := Layout.length_of_level hl
      have hinner := Layout.isLeaf_of_inner hlength parent
      rw [Layout.tour_eq, List.foldlM_cons, auditFrom, h.node, auditVisit, bind_assoc]
      show (t.auditNode l.slot _ parent _ _ >>= fun _ => _) = _
      refine bind_congr fun _ => ?_
      simp only [hinner, Bool.false_eq_true, if_false, bind_assoc, pure_bind]
      refine bind_congr fun _ => auditChildren_foldlM parent low _ hlength ?_
      intro child hmem low high tally
      exact ih low high (h.child hmem) (Layout.level_child hl hmem) (by omega)

/-! ### Writing out and copying -/

/-- The slots of a copy are those of the tour, in its order. -/
theorem Holds.copyInto_tour {fuel : Nat} (h : t.Holds (some l)) (hl : l.shape.Level height)
    (hfuel : height < fuel) (capacity : Nat) :
    ∃ copy a, copyInto t.arena fuel l.slot none (Arena.empty capacity) = .ok (copy, a) ∧
      a.slots.toList.map Node.entries = (l.tour none 0 [] []).map fun v => v.node.entries := by
  obtain ⟨l', a, hcopy, hstores, hshape, hnumbers, hgrown⟩ :=
    copies_of_reads h.stores.reads hl hfuel none _ 0 (.empty capacity)
  have hentries : ((l'.tour none 0 [] []).map fun v => v.node.entries) =
      (l.tour none 0 [] []).map fun v => v.node.entries := by
    have hlines := congrArg (List.map Prod.snd) ((l'.map_line_tour none 0 [] []).trans
      ((congrArg (Shape.outline 0) hshape).trans (l.map_line_tour none 0 [] []).symm))
    rwa [List.map_map, List.map_map] at hlines
  have hids : (l'.tour none 0 [] []).map Visit.id = List.range' 0 l.numbers.length :=
    (l'.map_id_tour none 0 [] []).trans hnumbers
  have hlength : (l'.tour none 0 [] []).length = l.numbers.length := by
    rw [← List.length_map (f := Visit.id), hids, List.length_range']
  have hsize : a.slots.size = l.numbers.length :=
    (congrArg Arena.Stock.size hgrown).trans (Nat.zero_add _)
  -- A visit of the copy is numbered like its place on the tour.
  have hslots : a.slots.toList = (l'.tour none 0 [] []).map Visit.node := by
    refine List.ext_getElem (by rw [List.length_map, hlength]; exact hsize) fun i hi hi' => ?_
    rw [List.length_map] at hi'
    have hid : (l'.tour none 0 [] [])[i].id = i := by
      have hget := congrArg (·[i]?) hids
      simpa [List.getElem?_eq_getElem hi', hlength ▸ hi'] using hget
    have hread := hstores.reads.left _ (Layout.mem_cells_of_tour (List.getElem_mem hi'))
    rw [hid, Arena.node_eq_ok_iff] at hread
    rw [List.getElem_map]
    exact (Array.getElem?_eq_some_iff.mp hread).2
  exact ⟨l'.slot, a, hcopy, by rw [hslots, List.map_map, ← hentries]; rfl⟩

/-! ### All of them -/

/-- The visits of all nodes of a tree with so many levels. Each of the recursions makes these visits
and no others, if it may go down as many levels as there are. -/
structure Toured (t : Tree K V) (levels : Nat) (visits : List (Visit K V)) : Prop where
  /-- Every node is visited, and none of them twice. -/
  complete : ∀ v, v ∈ visits ↔ t.Visited v
  nodup : (visits.map Visit.id).Nodup
  live : t.arena.live = .ok visits.length
  /-- The number of nodes is as good a bound as the number of levels. -/
  levels_le : levels ≤ visits.length
  /-- An audit looks at one node after the other, until it finds a violation. -/
  audit : ∀ root fuel tally, t.root = some root → levels ≤ fuel →
    t.auditFrom fuel root none 0 none none tally = visits.foldlM t.auditVisit tally
  /-- An outline has one line for each node. -/
  outline : ∀ root fuel, t.root = some root → levels ≤ fuel →
    ∃ shape, shapeFrom t.arena fuel root = .ok shape ∧
      shape.outline 0 = visits.map fun v => (v.depth, v.node.entries)
  render : ∀ [Text.Printable K],
    t.render = .ok (String.join (visits.map fun v => outlineLine v.depth v.node.entries))
  /-- A copy has one slot for each node. -/
  copy : ∀ root fuel capacity, t.root = some root → levels ≤ fuel →
    ∃ copy arena, copyInto t.arena fuel root none (Arena.empty capacity) = .ok (copy, arena) ∧
      arena.slots.toList.map Node.entries = visits.map fun v => v.node.entries

theorem Holds.toured (h : t.Holds (some l)) (hl : l.shape.Level height) :
    t.Toured (height + 1) (l.tour none 0 [] []) := by
  have hreads : t.arena.Reads (l.cells none) := h.stores.reads
  have hlength : (l.tour none 0 [] []).length = (l.cells none).card := by
    rw [← List.length_map (f := Visit.id), Layout.map_id_tour, ← Multiset.coe_card,
      ← l.map_fst_cells none, Multiset.card_map]
  have hroot {root : NodeId} (hroot : t.root = some root) : root = l.slot :=
    Option.some.inj (hroot.symm.trans h.root)
  constructor
  case complete => exact fun v => h.mem_tour_iff
  case nodup =>
    rw [Layout.map_id_tour, ← Multiset.coe_nodup, ← l.map_fst_cells none]
    exact h.stores.nodup
  case live =>
    rw [hlength]
    exact h.stores.live_eq
  case levels_le =>
    rw [hlength]
    exact Layout.height_lt_card hl none
  case audit =>
    intro root fuel tally hsome hfuel
    obtain rfl := hroot hsome
    exact auditFrom_eq [] [] hreads hl hfuel
  case outline =>
    intro root fuel hsome hfuel
    obtain rfl := hroot hsome
    exact ⟨l.shape, hreads.shapeFrom_eq hl hfuel, (l.map_line_tour none 0 [] []).symm⟩
  case render =>
    intro _
    have hshape : t.shape = .ok (some l.shape) := by
      rw [Tree.shape, h.root]
      exact congrArg (fun s => s >>= fun s => pure (some s))
        (hreads.shapeFrom_eq hl (h.height_lt hl))
    have hlines := congrArg (List.map fun line => outlineLine line.1 line.2)
      (l.map_line_tour none 0 [] [])
    rw [List.map_map] at hlines
    rw [Tree.render, hshape, ok_bind]
    exact congrArg (fun lines => Except.ok (String.join lines)) hlines.symm
  case copy =>
    intro root fuel capacity hsome hfuel
    obtain rfl := hroot hsome
    exact h.copyInto_tour hl hfuel capacity

/-- Without a root there is nothing to visit. -/
theorem Holds.toured_none (h : t.Holds none) : t.Toured 0 [] := by
  have hroot {root : NodeId} (hroot : t.root = some root) : False := by
    rw [h.root] at hroot
    contradiction
  constructor
  case complete => exact fun v => iff_of_false List.not_mem_nil (not_visited h.root v)
  case nodup => exact List.nodup_nil
  case live => exact h.stores.live_eq
  case levels_le => exact Nat.zero_le _
  case audit => exact fun root fuel tally hsome => (hroot hsome).elim
  case outline => exact fun root fuel hsome => (hroot hsome).elim
  case render =>
    intro _
    rw [Tree.render, Tree.shape, h.root]
    rfl
  case copy => exact fun root fuel capacity hsome => (hroot hsome).elim

end Tree

end Multiway
