import Mathlib.Algebra.BigOperators.Group.Multiset.Basic
import Mathlib.Data.Multiset.Range
import Mathlib.Tactic.Abel
import Multiway.Arena.Basic

/-!
What an arena holds.

The nodes of a tree are told apart by their slots and by nothing else, so a statement about an
arena has to say of every slot what it is used for. `Arena.Stores a cells` does this once and for
all: the multiset `cells` lists the slots in use with their nodes, every other slot waits on one of
the two lists for reuse and is empty, and no slot is counted twice. Two halves of a tree then are
two summands of one multiset, and that an operation leaves one of them alone is said by not
touching the summand.

Every operation of the arena gets one lemma, in the form in which the operations of a tree use it:
the cell that is worked on is singled out in front of the others, and comes back changed. The
lemmas promise a result, so a walk over an arena that stores its cells meets no fault.

What a tree shows of its arena besides the nodes are the two lists, the capacity and the number of
slots, together the `stock`. Changing nodes leaves the stock alone; only `acquire` and `release`
move it.
-/

namespace Multiway.Arena

variable {K V : Type} {a : Arena K V} {cells : Multiset (NodeId × Node K V)}
  {id : NodeId} {n : Node K V}

/-- The slots in use are exactly those of `cells`, with these nodes. -/
structure Stores (a : Arena K V) (cells : Multiset (NodeId × Node K V)) : Prop where
  /-- Every cell is found in its slot. -/
  read : ∀ cell ∈ cells, a.slots[cell.1]? = some cell.2
  /-- A slot that waits for reuse is empty. -/
  blank : ∀ id ∈ a.free ++ a.vacant, a.slots[id]? = some {}
  /-- Every slot is in use, free or vacant, and is so once. -/
  cover : cells.map Prod.fst + ↑(a.free ++ a.vacant) = Multiset.range a.slots.size
  /-- The free list keeps to its capacity. -/
  room : a.free.length ≤ a.capacity

/-- What an arena keeps besides nodes. -/
structure Stock where
  free : List NodeId
  vacant : List NodeId
  capacity : Nat
  size : Nat

/-- The stock of an arena. -/
def stock (a : Arena K V) : Stock := ⟨a.free, a.vacant, a.capacity, a.slots.size⟩

/-- The slots that were given up in this order join the two lists: the free list as long as there
is room, then the vacant list, which is told. -/
def Stock.store (s : Stock) (ids : List NodeId) : Stock :=
  let kept := s.capacity - s.free.length
  { s with
    free := (ids.take kept).reverse ++ s.free
    vacant := (ids.drop kept).reverse ++ s.vacant }

/-- So many slots were added. -/
def Stock.grow (s : Stock) (count : Nat) : Stock := { s with size := s.size + count }

/-- The reports about slots that were given up and not kept. -/
def Stock.drops (s : Stock) (ids : List NodeId) : List Event :=
  (ids.drop (s.capacity - s.free.length)).map .nodeDropped

theorem Stock.room_store (s : Stock) (ids : List NodeId) :
    (s.store ids).capacity - (s.store ids).free.length =
      s.capacity - s.free.length - ids.length := by
  simp only [Stock.store, List.length_append, List.length_reverse, List.length_take]
  omega

theorem Stock.length_store {s : Stock} (h : s.free.length ≤ s.capacity) (ids : List NodeId) :
    (s.store ids).free.length = min s.capacity (s.free.length + ids.length) := by
  simp only [Stock.store, List.length_append, List.length_reverse, List.length_take]
  omega

theorem Stock.store_nil (s : Stock) : s.store [] = s := by
  simp [Stock.store]

/-- Giving up slots one after the other is giving up all of them. -/
theorem Stock.store_append (s : Stock) (ids more : List NodeId) :
    s.store (ids ++ more) = (s.store ids).store more := by
  rw [Stock.store, Stock.store, Stock.room_store]
  simp [Stock.store, List.take_append, List.drop_append]

/-- Whatever was given up is on one of the two lists. -/
theorem Stock.mem_store (s : Stock) {ids : List NodeId} {id : NodeId} (h : id ∈ ids) :
    id ∈ (s.store ids).free ++ (s.store ids).vacant := by
  rw [← List.take_append_drop (s.capacity - s.free.length) ids, List.mem_append] at h
  simp only [Stock.store, List.mem_append, List.mem_reverse]
  rcases h with h | h
  · exact .inl (.inl h)
  · exact .inr (.inl h)

theorem Stock.drops_nil (s : Stock) : s.drops [] = [] := by
  simp [Stock.drops]

theorem Stock.drops_append (s : Stock) (ids more : List NodeId) :
    s.drops (ids ++ more) = s.drops ids ++ (s.store ids).drops more := by
  rw [Stock.drops, Stock.drops, Stock.drops, Stock.room_store]
  simp [List.drop_append]

namespace Stores

theorem card_add (h : a.Stores cells) :
    cells.card + (a.free.length + a.vacant.length) = a.slots.size := by
  have hcover := congrArg Multiset.card h.cover
  simpa only [Multiset.card_add, Multiset.card_map, Multiset.coe_card, Multiset.card_range,
    List.length_append] using hcover

theorem card_le (h : a.Stores cells) : cells.card ≤ a.slots.size := by
  have := h.card_add
  omega

/-- As many nodes are handed out as there are cells. -/
theorem live_eq (h : a.Stores cells) : a.live = .ok cells.card := by
  have hcard := h.card_add
  rw [Arena.live, lessBy_of_le (by omega), ok_bind, lessBy_of_le (by omega)]
  exact congrArg Except.ok (by omega)

/-- Slots that are not in use any more were given up. -/
theorem slots_store {b : Arena K V} {cells' : Multiset (NodeId × Node K V)} {ids : List NodeId}
    (h : a.Stores cells) (h' : b.Stores cells') (hstock : b.stock = a.stock.store ids) :
    cells.map Prod.fst = cells'.map Prod.fst + ↑ids := by
  have hfree : b.free = (ids.take (a.capacity - a.free.length)).reverse ++ a.free :=
    congrArg Stock.free hstock
  have hvacant : b.vacant = (ids.drop (a.capacity - a.free.length)).reverse ++ a.vacant :=
    congrArg Stock.vacant hstock
  have hsize : b.slots.size = a.slots.size := congrArg Stock.size hstock
  have hspare : ((b.free ++ b.vacant : List NodeId) : Multiset NodeId) =
      ↑ids + ((a.free ++ a.vacant : List NodeId) : Multiset NodeId) := by
    rw [hfree, hvacant]
    nth_rewrite 3 [← List.take_append_drop (a.capacity - a.free.length) ids]
    simp only [← Multiset.coe_add, Multiset.coe_reverse]
    abel
  have hcover := h'.cover
  rw [hsize, ← h.cover, hspare, ← add_assoc] at hcover
  exact (add_right_cancel hcover).symm

/-- With one stock there are equally many cells. -/
theorem card_congr {b : Arena K V} {cells' : Multiset (NodeId × Node K V)} (h : a.Stores cells)
    (h' : b.Stores cells') (hstock : b.stock = a.stock) : cells'.card = cells.card := by
  have hslots := congrArg Multiset.card
    (h.slots_store h' (hstock.trans a.stock.store_nil.symm))
  rw [Multiset.card_add, Multiset.card_map, Multiset.card_map] at hslots
  exact hslots.symm

theorem nodup (h : a.Stores cells) : (cells.map Prod.fst).Nodup := by
  have hall : (Multiset.range a.slots.size).Nodup := Multiset.nodup_range _
  rw [← h.cover] at hall
  exact (Multiset.nodup_add.mp hall).1

theorem lt_size (h : a.Stores cells) (cell : NodeId × Node K V) (hmem : cell ∈ cells) :
    cell.1 < a.slots.size :=
  (Array.getElem?_eq_some_iff.mp (h.read cell hmem)).1

/-- A slot is in use by one cell. -/
theorem ne_of_mem (h : a.Stores ({(id, n)} + cells)) {cell : NodeId × Node K V}
    (hmem : cell ∈ cells) : cell.1 ≠ id := by
  have hnodup := h.nodup
  rw [Multiset.map_add, Multiset.map_singleton, Multiset.singleton_add,
    Multiset.nodup_cons] at hnodup
  intro heq
  exact hnodup.1 (Multiset.mem_map.mpr ⟨cell, hmem, heq⟩)

/-- A slot in use does not wait for reuse. -/
theorem not_mem_spare (h : a.Stores cells) (cell : NodeId × Node K V) (hmem : cell ∈ cells) :
    cell.1 ∉ a.free ++ a.vacant := by
  have hall : (Multiset.range a.slots.size).Nodup := Multiset.nodup_range _
  rw [← h.cover] at hall
  have hdisjoint := (Multiset.nodup_add.mp hall).2.2
  intro hspare
  exact Multiset.disjoint_left.mp hdisjoint (Multiset.mem_map_of_mem Prod.fst hmem)
    (Multiset.mem_coe.mpr hspare)

theorem node (h : a.Stores ({(id, n)} + cells)) : a.node id = .ok n := by
  rw [node_eq_ok_iff]
  exact h.read (id, n) (by simp)

/-- What is not among the cells that changed is read as before. -/
theorem node_frame {b : Arena K V} {old new rest : Multiset (NodeId × Node K V)} {ids : List NodeId}
    (h : a.Stores (old + rest)) (h' : b.Stores (new + rest))
    (hstock : b.stock = a.stock.store ids) (hid : id ∉ old.map Prod.fst) : b.node id = a.node id := by
  have hsize : b.slots.size = a.slots.size := congrArg Stock.size hstock
  have hslots := h.slots_store h' hstock
  rw [Multiset.map_add, Multiset.map_add, add_right_comm, add_left_inj] at hslots
  have hnew : id ∉ new.map Prod.fst := fun hmem =>
    hid (hslots ▸ Multiset.mem_add.mpr (.inl hmem))
  by_cases hrest : id ∈ rest.map Prod.fst
  · obtain ⟨cell, hcell, rfl⟩ := Multiset.mem_map.mp hrest
    rw [node_eq_ok_iff.mpr (h'.read cell (Multiset.mem_add.mpr (.inr hcell))),
      node_eq_ok_iff.mpr (h.read cell (Multiset.mem_add.mpr (.inr hcell)))]
  · by_cases hlt : id < a.slots.size
    · -- A slot that is no cell before and afterwards waits for reuse both times.
      have hspare : id ∈ a.free ++ a.vacant := by
        have hmem := Multiset.mem_range.mpr hlt
        rw [← h.cover, Multiset.map_add] at hmem
        simpa [hid, hrest] using hmem
      have hspare' : id ∈ b.free ++ b.vacant := by
        have hmem := Multiset.mem_range.mpr (hsize.symm ▸ hlt)
        rw [← h'.cover, Multiset.map_add] at hmem
        simpa [hnew, hrest] using hmem
      rw [node_eq_ok_iff.mpr (h'.blank id hspare'), node_eq_ok_iff.mpr (h.blank id hspare)]
    · rw [Arena.node, Arena.node, Array.getElem?_eq_none (Nat.le_of_not_lt hlt),
        Array.getElem?_eq_none (Nat.le_of_not_lt (hsize.symm ▸ hlt))]

/-- Writing into a slot that is in use changes one cell. -/
theorem write (h : a.Stores ({(id, n)} + cells)) (new : Node K V) :
    ∃ b, a.write id new = .ok b ∧ b.Stores ({(id, new)} + cells) ∧ b.stock = a.stock := by
  have hlt : id < a.slots.size := h.lt_size (id, n) (by simp)
  refine ⟨_, write_of_lt new hlt, ⟨?_, ?_, ?_, h.room⟩, by simp [stock]⟩
  · intro cell hmem
    rcases Multiset.mem_add.mp hmem with hmem | hmem
    · rw [Multiset.mem_singleton] at hmem
      subst hmem
      simp [hlt]
    · have hne : id ≠ cell.1 := (h.ne_of_mem hmem).symm
      rw [Array.getElem?_setIfInBounds_ne hne]
      exact h.read cell (Multiset.mem_add.mpr (.inr hmem))
  · intro spare hspare
    have hne : id ≠ spare := by
      intro heq
      exact h.not_mem_spare (id, n) (by simp) (heq ▸ hspare)
    rw [Array.getElem?_setIfInBounds_ne hne]
    exact h.blank spare hspare
  · have hcover := h.cover
    simp only [Multiset.map_add, Multiset.map_singleton] at hcover
    simpa only [Multiset.map_add, Multiset.map_singleton, Array.size_setIfInBounds] using hcover

theorem update (h : a.Stores ({(id, n)} + cells)) (change : Node K V → Node K V) :
    ∃ b, a.update id change = .ok b ∧ b.Stores ({(id, change n)} + cells) ∧
      b.stock = a.stock := by
  obtain ⟨b, hb, hstores, hstock⟩ := h.write (change n)
  refine ⟨b, ?_, hstores, hstock⟩
  rw [Arena.update, h.node]
  exact hb

end Stores

/-- An empty slot may wait for reuse or be in use: either way it is accounted for. -/
theorem stores_spare_iff (free vacant free' vacant' : List NodeId)
    (hspare : ((free ++ vacant : List NodeId) : Multiset NodeId) =
      {id} + ((free' ++ vacant' : List NodeId) : Multiset NodeId))
    (hroom : free.length ≤ a.capacity) (hroom' : free'.length ≤ a.capacity) :
    Stores { a with free := free, vacant := vacant } cells ↔
      Stores { a with free := free', vacant := vacant' } ({(id, {})} + cells) := by
  have hmem (x : NodeId) : x ∈ free ++ vacant ↔ x = id ∨ x ∈ free' ++ vacant' := by
    rw [← Multiset.mem_coe, hspare, Multiset.mem_add, Multiset.mem_singleton, Multiset.mem_coe]
  constructor
  · intro h
    refine ⟨?_, ?_, ?_, hroom'⟩
    · intro cell hcell
      rcases Multiset.mem_add.mp hcell with hcell | hcell
      · rw [Multiset.mem_singleton] at hcell
        subst hcell
        exact h.blank id ((hmem id).mpr (.inl rfl))
      · exact h.read cell hcell
    · intro spare hin
      exact h.blank spare ((hmem spare).mpr (.inr hin))
    · rw [← h.cover, hspare, Multiset.map_add, Multiset.map_singleton]
      abel
  · intro h
    refine ⟨?_, ?_, ?_, hroom⟩
    · intro cell hcell
      exact h.read cell (Multiset.mem_add.mpr (.inr hcell))
    · intro spare hin
      rcases (hmem spare).mp hin with heq | hin
      · subst heq
        exact h.read (spare, {}) (by simp)
      · exact h.blank spare hin
    · rw [← h.cover, hspare, Multiset.map_add, Multiset.map_singleton]
      abel

namespace Stores

/-- A new slot adds a cell. -/
theorem push (h : a.Stores cells) (n : Node K V) :
    (a.push n).2.Stores ({((a.push n).1, n)} + cells) := by
  refine ⟨?_, ?_, ?_, h.room⟩
  · intro cell hmem
    rcases Multiset.mem_add.mp hmem with hmem | hmem
    · rw [Multiset.mem_singleton] at hmem
      subst hmem
      simp [Arena.push]
    · have hlt := h.lt_size cell hmem
      simp only [Arena.push]
      rw [Array.getElem?_push_lt hlt, ← Array.getElem?_eq_getElem hlt]
      exact h.read cell hmem
  · intro spare hspare
    have hblank := h.blank spare hspare
    have hlt : spare < a.slots.size := (Array.getElem?_eq_some_iff.mp hblank).1
    simp only [Arena.push]
    rw [Array.getElem?_push_lt hlt, ← Array.getElem?_eq_getElem hlt]
    exact hblank
  · simp only [Arena.push, Multiset.map_add, Multiset.map_singleton, Array.size_push,
      Multiset.range_succ, add_assoc]
    rw [h.cover, Multiset.singleton_add]

/-- Handing out a slot adds an empty cell. The arena grows only when all its slots are in use. -/
theorem acquire (h : a.Stores cells) :
    ∃ id b, a.acquire = .ok (id, b) ∧ b.Stores ({(id, {})} + cells) ∧
      b.capacity = a.capacity ∧ b.slots.size = max a.slots.size (cells.card + 1) := by
  have hcard := h.card_add
  -- The free list is asked first, then the vacant one, and only then a slot is added.
  rcases hfree : a.free with _ | ⟨id, free⟩
  · rcases hvacant : a.vacant with _ | ⟨id, vacant⟩
    · refine ⟨_, _, ?_, h.push {}, rfl, ?_⟩
      · simp [Arena.acquire, hfree, hvacant]
      · simp only [hfree, hvacant, List.length_nil] at hcard
        simp only [Arena.push, Array.size_push]
        omega
    · have hspare : ((a.free ++ a.vacant : List NodeId) : Multiset NodeId) =
          {id} + ((a.free ++ vacant : List NodeId) : Multiset NodeId) := by
        simp [hfree, hvacant]
      have htaken := (stores_spare_iff a.free a.vacant a.free vacant hspare h.room h.room).mp h
      obtain ⟨b, hb, hstores, hstock⟩ := htaken.write {}
      refine ⟨id, b, ?_, hstores, ?_, ?_⟩
      · simp only [Arena.acquire, hfree, hvacant]
        rw [hfree] at hb
        rw [hb]
        rfl
      · exact congrArg Stock.capacity hstock
      · have hsize : b.slots.size = a.slots.size := congrArg Stock.size hstock
        simp only [hvacant, List.length_cons] at hcard
        omega
  · have hspare : ((a.free ++ a.vacant : List NodeId) : Multiset NodeId) =
        {id} + ((free ++ a.vacant : List NodeId) : Multiset NodeId) := by
      simp [hfree]
    have hroom : free.length ≤ a.capacity := by
      have := h.room
      simp only [hfree, List.length_cons] at this
      omega
    have hblank : a.node id = .ok {} := node_eq_ok_iff.mpr (h.blank id (by simp [hfree]))
    refine ⟨id, { a with free }, ?_,
      (stores_spare_iff a.free a.vacant free a.vacant hspare h.room hroom).mp h, rfl, ?_⟩
    · simp only [Arena.acquire, hfree, emptied, hblank]
      rfl
    · simp only [hfree, List.length_cons] at hcard
      show a.slots.size = max a.slots.size (cells.card + 1)
      omega

/-- Giving up a slot takes its cell away. -/
theorem release (h : a.Stores ({(id, n)} + cells)) :
    ∃ b, a.release id = .ok (b, a.stock.drops [id]) ∧ b.Stores cells ∧
      b.stock = a.stock.store [id] := by
  -- The slot is emptied while it still counts as in use; what is empty may then wait for reuse.
  obtain ⟨b, hb, hstores, hstock⟩ := h.write {}
  have hfree : b.free = a.free := congrArg Stock.free hstock
  have hvacant : b.vacant = a.vacant := congrArg Stock.vacant hstock
  have hcapacity : b.capacity = a.capacity := congrArg Stock.capacity hstock
  have hsize : b.slots.size = a.slots.size := congrArg Stock.size hstock
  by_cases hroom : b.free.length < b.capacity
  · obtain ⟨kept, hkept⟩ : ∃ kept, a.capacity - a.free.length = kept + 1 := by
      rw [hfree, hcapacity] at hroom
      exact ⟨a.capacity - a.free.length - 1, by omega⟩
    refine ⟨{ b with free := id :: b.free }, ?_, ?_, ?_⟩
    · rw [Arena.release, hb]
      simp only [bind, Except.bind, if_pos hroom, Stock.drops, stock]
      rw [hkept, List.drop_succ_cons, List.drop_nil]
      rfl
    · exact (stores_spare_iff (a := b) (id :: b.free) b.vacant b.free b.vacant (by simp)
        (Nat.succ_le_of_lt hroom) hstores.room).mpr hstores
    · simp only [stock, Stock.store]
      rw [hkept]
      simp [hfree, hvacant, hcapacity, hsize]
  · have hkept : a.capacity - a.free.length = 0 := by
      rw [hfree, hcapacity] at hroom
      omega
    refine ⟨{ b with vacant := id :: b.vacant }, ?_, ?_, ?_⟩
    · rw [Arena.release, hb]
      simp only [bind, Except.bind, if_neg hroom, Stock.drops, stock]
      rw [hkept]
      rfl
    · exact (stores_spare_iff (a := b) b.free (id :: b.vacant) b.free b.vacant (by simp)
        hstores.room hstores.room).mpr hstores
    · simp only [stock, Stock.store]
      rw [hkept]
      simp [hfree, hvacant, hcapacity, hsize]

end Stores

end Multiway.Arena
