import Multiway.Proofs.Arena.Reading

/-!
Nodes in front of those below them.

`preorder` lists the numbers of the nodes of a tree, each node in front of its children. It reads
the links only, so it can be asked of two trees whose arenas went through different things. A layout
has the same list, and is known from it once its shape is known: two layouts of one shape differ by
a change of numbers, and the two lists say which number stands for which.
-/

namespace Multiway

variable {α K V : Type} {f : Fanout} {height : Nat}

/-- The numbers of the nodes of a subtree, each in front of those below it. The first number bounds
the depth. -/
def Arena.preorderFrom (a : Arena K V) : Nat → NodeId → Except Fault (List NodeId)
  | 0, _ => .error .endless
  | fuel + 1, id => do
    let node ← a.node id
    return id :: (← node.children.mapM (a.preorderFrom fuel)).flatten

/-- The numbers of the nodes of a tree, each in front of those below it. -/
def Tree.preorder (t : Tree K V) : Except Fault (List NodeId) :=
  match t.root with
  | none => return []
  | some root => t.arena.preorderFrom t.bound root

/-- A node whose links are called by other numbers. -/
def Node.rename (g : NodeId → NodeId) (node : Node K V) : Node K V :=
  ⟨node.entries, node.children.map g, node.parent.map g⟩

/-- The number of nodes. -/
def Shape.count : Shape α → Nat
  | .node _ children => (children.map fun child => child.count).sum + 1

namespace Layout

/-- The slots of a layout, each in front of those below it. -/
def numbers : Layout α → List NodeId
  | .node slot _ children => slot :: children.flatMap fun child => child.numbers

/-- The same nodes in other slots. -/
def rename (g : NodeId → NodeId) : Layout α → Layout α
  | .node slot entries children => .node (g slot) entries (children.map fun child => child.rename g)

theorem numbers_node (slot : NodeId) (entries : List α) (children : List (Layout α)) :
    (node slot entries children).numbers = slot :: children.flatMap numbers := by
  rw [numbers]

theorem rename_node (g : NodeId → NodeId) (slot : NodeId) (entries : List α)
    (children : List (Layout α)) :
    (node slot entries children).rename g = node (g slot) entries (children.map (rename g)) := by
  rw [rename]

theorem slot_rename (g : NodeId → NodeId) (l : Layout α) : (l.rename g).slot = g l.slot := by
  cases l
  rw [rename_node]
  rfl

/-- How many slots there are is seen in the shape. -/
theorem length_numbers (l : Layout α) : l.numbers.length = l.shape.count := by
  induction l using induct with
  | h slot entries children ih =>
      rw [numbers_node, shape_node, Shape.count, List.length_cons, List.length_flatMap,
        List.map_map, List.map_congr_left ih]
      rfl

/-- Two layouts of one shape are the same but for the numbers of their nodes. -/
theorem eq_rename {g : NodeId → NodeId} {l l' : Layout α} (hshape : l'.shape = l.shape)
    (hnumbers : l'.numbers = l.numbers.map g) : l' = l.rename g := by
  induction l using induct generalizing l' with
  | h slot entries children ih =>
      obtain ⟨slot', entries', children'⟩ := l'
      rw [shape_node, shape_node, Shape.node.injEq] at hshape
      obtain ⟨rfl, hshapes⟩ := hshape
      rw [numbers_node, numbers_node, List.map_cons, List.cons.injEq] at hnumbers
      obtain ⟨rfl, hnumbers⟩ := hnumbers
      rw [rename_node]
      refine congrArg (node _ _) ?_
      -- The children take their numbers off the list one after the other.
      induction children generalizing children' with
      | nil => exact List.map_eq_nil_iff.mp hshapes
      | cons child children ihs =>
          obtain ⟨child', rest, rfl, hshape, hrest⟩ := List.map_eq_cons_iff.mp hshapes
          rw [List.flatMap_cons, List.flatMap_cons, List.map_append] at hnumbers
          have hlength : child'.numbers.length = (child.numbers.map g).length := by
            rw [List.length_map, length_numbers, length_numbers, hshape]
          obtain ⟨hchild, hnumbers⟩ := List.append_inj hnumbers hlength
          rw [List.map_cons, ih child (List.mem_cons_self ..) hshape hchild,
            ihs (fun child' hmem => ih child' (List.mem_cons_of_mem _ hmem)) rest hrest hnumbers]

/-- In the list of its slots a node is found in its place. -/
theorem map_idxOf {ids : List NodeId} (h : ids.Nodup) :
    ids.map ids.idxOf = List.range ids.length := by
  refine List.ext_getElem (by rw [List.length_map, List.length_range]) fun i hi hi' => ?_
  rw [List.getElem_map, List.getElem_range]
  exact h.idxOf_getElem i (List.length_map _ ▸ hi)

/-! ### Cells by their numbers -/

/-- The slots of the cells are those that the layout lists. -/
theorem map_fst_cells (parent : Option NodeId) (l : Layout (K × V)) :
    (l.cells parent).map Prod.fst = ↑l.numbers := by
  induction l using induct generalizing parent with
  | h slot entries children ih =>
      have hall : (allCells (some slot) children).map Prod.fst = ↑(children.flatMap numbers) := by
        induction children with
        | nil => rfl
        | cons child children ihs =>
            rw [allCells_cons, Multiset.map_add, ih child (List.mem_cons_self ..),
              ihs fun child' hmem => ih child' (List.mem_cons_of_mem _ hmem)]
            rfl
      rw [cells_node, Multiset.map_add, Multiset.map_singleton, hall, numbers_node]
      rfl

/-- Other numbers for the nodes are other numbers for their slots and their links. -/
theorem cells_rename (g : NodeId → NodeId) (parent : Option NodeId) (l : Layout (K × V)) :
    (l.rename g).cells (parent.map g) =
      (l.cells parent).map fun cell => (g cell.1, cell.2.rename g) := by
  induction l using induct generalizing parent with
  | h slot entries children ih =>
      have hall : allCells (some (g slot)) (children.map (rename g)) =
          (allCells (some slot) children).map fun cell => (g cell.1, cell.2.rename g) := by
        induction children with
        | nil => rfl
        | cons child children ihs =>
            rw [List.map_cons, allCells_cons, allCells_cons, Multiset.map_add,
              ← ih child (List.mem_cons_self ..), Option.map_some,
              ihs fun child' hmem => ih child' (List.mem_cons_of_mem _ hmem)]
      have hslots : (children.map (rename g)).map Layout.slot =
          (children.map Layout.slot).map g := by
        rw [List.map_map, List.map_map]
        exact List.map_congr_left fun child _ => slot_rename g child
      rw [rename_node, cells_node, cells_node, Multiset.map_add, Multiset.map_singleton, hall,
        hslots]
      rfl

end Layout

/-- The nodes are found in the order in which the layout lists them. -/
theorem Arena.Reads.preorderFrom_eq {a : Arena K V} {parent : Option NodeId} {l : Layout (K × V)}
    {fuel : Nat} (h : a.Reads (l.cells parent)) (hl : l.shape.Level height)
    (hfuel : height < fuel) : a.preorderFrom fuel l.slot = .ok l.numbers := by
  refine h.gather_eq hl hfuel (fun id _ below => id :: below.flatten)
    (fun fuel id node hnode => ?_) fun slot entries children => ?_
  · rw [preorderFrom, hnode, ok_bind]
    cases node.children.mapM (a.preorderFrom fuel) <;> rfl
  · exact Layout.numbers_node ..

end Multiway
