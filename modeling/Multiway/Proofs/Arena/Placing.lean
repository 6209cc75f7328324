import Mathlib.Data.Multiset.Bind
import Multiway.Proofs.Arena.Reading

/-!
Where the entries of a layout stand.

An entry stands in a slot and in a position there. The shape in which every entry carries its place
along has the same nodes, so its list of entries says at once which entry comes next and where it
stands. Which places there are is seen in the cells: each has as many as its node has entries. None
of this needs the entries to be in order.
-/

namespace Multiway

variable {α β K V : Type}

namespace Shape

/-- The same nodes with other entries. -/
def map (change : α → β) : Shape α → Shape β
  | .node entries children => .node (entries.map change) (children.map fun child => child.map change)

theorem map_node (change : α → β) (entries : List α) (children : List (Shape α)) :
    (node entries children).map change =
      .node (entries.map change) (children.map (map change)) := by
  rw [map]

theorem toList_map (change : α → β) (s : Shape α) :
    (s.map change).toList = s.toList.map change := by
  induction s using induct with
  | h entries children ih =>
      rw [map_node, toList_node, toList_node]
      induction children generalizing entries with
      | nil => rw [List.map_nil, interleave_nil, interleave_nil]
      | cons child children ihs =>
          have hchild := ih child (List.mem_cons_self ..)
          have hothers := fun entries =>
            ihs entries fun other hmem => ih other (List.mem_cons_of_mem child hmem)
          cases entries with
          | nil =>
              rw [List.map_cons, List.map_nil, interleave, interleave, List.map_append, hchild,
                ← hothers, List.map_nil]
          | cons entry entries =>
              rw [List.map_cons, List.map_cons, interleave, interleave, List.map_append,
                List.map_cons, hchild, hothers]

/-- In whatever order they come, the entries are those of the node and those of its children. -/
theorem coe_interleave (children : List (Shape α)) (entries : List α) :
    (↑(interleave children entries) : Multiset α) =
      ↑entries + (children.map fun child => (↑child.toList : Multiset α)).sum := by
  induction children generalizing entries with
  | nil => rw [interleave_nil, List.map_nil, List.sum_nil, add_zero]
  | cons child children ih =>
      rw [List.map_cons, List.sum_cons]
      cases entries with
      | nil => rw [interleave, ← Multiset.coe_add, ih, Multiset.coe_nil, zero_add, zero_add]
      | cons entry entries =>
          rw [interleave, ← Multiset.coe_add, ← Multiset.cons_coe, ih, ← Multiset.cons_coe,
            ← Multiset.singleton_add, ← Multiset.singleton_add]
          abel

end Shape

namespace Layout

/-- The entries of a slot with their places. -/
def placesIn (slot : NodeId) (entries : List α) : List ((NodeId × Nat) × α) :=
  entries.zipIdx.map fun (entry, position) => ((slot, position), entry)

/-- The shape of a layout in which every entry carries its place along. -/
def placed : Layout α → Shape ((NodeId × Nat) × α)
  | .node slot entries children => .node (placesIn slot entries) (children.map fun child => child.placed)

theorem placed_node (slot : NodeId) (entries : List α) (children : List (Layout α)) :
    (node slot entries children).placed = .node (placesIn slot entries) (children.map placed) := by
  rw [placed]

theorem mem_placesIn {slot id : NodeId} {entries : List α} {position : Nat} {entry : α} :
    ((id, position), entry) ∈ placesIn slot entries ↔
      slot = id ∧ entries[position]? = some entry := by
  simp only [placesIn, List.mem_map, Prod.exists, Prod.mk.injEq, List.mem_zipIdx_iff_getElem?]
  constructor
  · rintro ⟨entry', position', hget, ⟨rfl, rfl⟩, rfl⟩
    exact ⟨rfl, hget⟩
  · rintro ⟨rfl, hget⟩
    exact ⟨entry, position, hget, ⟨rfl, rfl⟩, rfl⟩

/-- Without the places the entries are those of the layout. -/
theorem map_placed (l : Layout α) : l.placed.map Prod.snd = l.shape := by
  induction l using induct with
  | h slot entries children ih =>
      have hentries : (placesIn slot entries).map Prod.snd = entries := by
        rw [placesIn, List.map_map]
        exact List.zipIdx_map_fst 0 entries
      rw [placed_node, Shape.map_node, shape_node, hentries, List.map_map]
      exact congrArg _ (List.map_congr_left ih)

theorem map_snd_placed (l : Layout α) : l.placed.toList.map Prod.snd = l.shape.toList := by
  rw [← Shape.toList_map, map_placed]

/-- The places are those of the cells. -/
theorem coe_placed (parent : Option NodeId) (l : Layout (K × V)) :
    (↑l.placed.toList : Multiset ((NodeId × Nat) × (K × V))) =
      (l.cells parent).bind fun cell => ↑(placesIn cell.1 cell.2.entries) := by
  induction l using induct generalizing parent with
  | h slot entries children ih =>
      have hall : ((children.map placed).map fun child =>
          (↑child.toList : Multiset ((NodeId × Nat) × (K × V)))).sum =
            (allCells (some slot) children).bind fun cell =>
              ↑(placesIn cell.1 cell.2.entries) := by
        induction children with
        | nil => rfl
        | cons child children ihs =>
            rw [List.map_cons, List.map_cons, List.sum_cons, allCells_cons, Multiset.add_bind,
              ih child (List.mem_cons_self ..) (some slot),
              ihs fun other hmem => ih other (List.mem_cons_of_mem child hmem)]
      rw [placed_node, Shape.toList_node, Shape.coe_interleave, hall, cells_node,
        Multiset.add_bind, Multiset.singleton_bind]

theorem mem_placed (parent : Option NodeId) {l : Layout (K × V)} {id : NodeId} {position : Nat}
    {entry : K × V} : ((id, position), entry) ∈ l.placed.toList ↔
      ∃ node, (id, node) ∈ l.cells parent ∧ node.entries[position]? = some entry := by
  rw [← Multiset.mem_coe, coe_placed parent, Multiset.mem_bind]
  simp only [Multiset.mem_coe, mem_placesIn, Prod.exists]
  constructor
  · rintro ⟨slot, node, hcell, rfl, hget⟩
    exact ⟨node, hcell, hget⟩
  · rintro ⟨node, hcell, hget⟩
    exact ⟨id, node, hcell, rfl, hget⟩

/-- In different slots no place comes twice. -/
theorem nodup_placed {parent : Option NodeId} {l : Layout (K × V)}
    (h : ((l.cells parent).map Prod.fst).Nodup) : (l.placed.toList.map Prod.fst).Nodup := by
  have hplaces : (↑(l.placed.toList.map Prod.fst) : Multiset (NodeId × Nat)) =
      (l.cells parent).bind fun cell =>
        ↑((List.range cell.2.entries.length).map fun position => (cell.1, position)) := by
    rw [← Multiset.map_coe, coe_placed parent, Multiset.map_bind]
    refine Multiset.bind_congr fun cell _ => ?_
    rw [Multiset.map_coe, placesIn, List.map_map, List.range_eq_range',
      ← List.zipIdx_map_snd 0 cell.2.entries, List.map_map]
    rfl
  rw [← Multiset.coe_nodup, hplaces, Multiset.nodup_bind]
  constructor
  · intro cell _
    exact Multiset.coe_nodup.mpr (List.nodup_range.map fun _ _ heq => (Prod.mk.inj heq).2)
  · refine Multiset.Nodup.pairwise (fun cell hcell other hother hne => ?_) (Multiset.Nodup.of_map _ h)
    refine Multiset.disjoint_left.mpr ?_
    intro place hplace hplace'
    obtain ⟨position, -, rfl⟩ := List.mem_map.mp (Multiset.mem_coe.mp hplace)
    obtain ⟨position', -, heq⟩ := List.mem_map.mp (Multiset.mem_coe.mp hplace')
    exact hne (Multiset.inj_on_of_nodup_map h cell hcell other hother (Prod.mk.inj heq).1.symm)

end Layout

end Multiway
