import Multiway.Proofs.Tree.Nearest
import Multiway.Proofs.Tree.Valid
import Multiway.Tree.Cursor

/-!
Walks from node to node.

Nothing in the types keeps a chain of node numbers from going round in a circle. In a tree whose leaves
are level it cannot: each step down leads to a node with one level less below it, and each step up to
one with one node less above it. `Descends` says what the walks downwards have in common, and
`Bounded` puts together what follows for all walks in a tree.

The number that bounds a walk is the number of nodes it may look at, or of parents it may go to. One
result for all bounds from some number on thus says that no more nodes than this are looked at. How the
keys are ordered makes no difference to it, for wherever a search leads, it leads one level down.
-/

namespace Multiway

variable {K V σ β : Type} {height : Nat}

/-! ### Going down -/

namespace Node

variable {cmp : K → K → Ordering} {key : K} {node : Node K V} {position : Nat}

/-- What is found is an entry. -/
theorem lt_of_search_found (h : node.search cmp key = .found position) :
    position < node.entries.length := by
  rw [search] at h
  split at h
  · next entry hentry =>
      split at h
      · obtain rfl := Place.found.inj h
        exact (List.getElem?_eq_some_iff.mp hentry).1
      · contradiction
  · contradiction

/-- The gap in which a key is missing is one of the node. -/
theorem le_of_search_absent (h : node.search cmp key = .absent position) :
    position ≤ node.entries.length := by
  have hle : node.entries.findIdx (fun entry => cmp entry.1 key != .lt) ≤ node.entries.length :=
    List.findIdx_le_length
  rw [search] at h
  split at h
  · split at h
    · contradiction
    · obtain rfl := Place.absent.inj h
      exact hle
  · obtain rfl := Place.absent.inj h
    exact hle

end Node

namespace Arena

variable {a : Arena K V}

/-- In every node a walk stops, whatever number is left, or it goes on to one of the children. It may
carry something along. -/
def Descends (a : Arena K V) (walk : Nat → NodeId → σ → Except Fault β) : Prop :=
  ∀ id node, a.node id = .ok node →
    (node.children = [] ∨ node.children.length = node.entries.length + 1) → ∀ state,
      (∃ result, ∀ fuel, walk (fuel + 1) id state = .ok result) ∨
        ∃ child ∈ node.children, ∃ state', ∀ fuel, walk (fuel + 1) id state = walk fuel child state'

/-- A walk downwards looks at one node on each level at most. -/
theorem Descends.exists_result {walk : Nat → NodeId → σ → Except Fault β} (hwalk : a.Descends walk)
    {parent : Option NodeId} {l : Layout (K × V)} (h : a.Reads (l.cells parent))
    (hl : l.shape.Level height) (state : σ) :
    ∃ result, ∀ fuel, height < fuel → walk fuel l.slot state = .ok result := by
  induction l using Layout.induct generalizing parent height state with
  | h slot entries children ih =>
      have hlisted : children.map Layout.slot = [] ∨
          (children.map Layout.slot).length = entries.length + 1 := by
        rw [List.map_eq_nil_iff, List.length_map]
        exact Layout.children_of_level hl
      rcases hwalk _ _ h.node hlisted state with ⟨result, hstop⟩ | ⟨id, hmem, state', hnext⟩
      · refine ⟨result, fun fuel hfuel => ?_⟩
        obtain ⟨fuel, rfl⟩ := Nat.exists_eq_add_one.mpr (Nat.zero_lt_of_lt hfuel)
        exact hstop fuel
      · obtain ⟨child, hchild, rfl⟩ := List.mem_map.mp hmem
        cases height with
        | zero =>
            obtain rfl : children = [] := Layout.leaf_of_level hl
            contradiction
        | succ height =>
            obtain ⟨result, hresult⟩ :=
              ih child hchild (h.child hchild) (Layout.level_child hl hchild) state'
            refine ⟨result, fun fuel hfuel => ?_⟩
            obtain ⟨fuel, rfl⟩ := Nat.exists_eq_add_one.mpr (Nat.zero_lt_of_lt hfuel)
            exact (hnext fuel).trans (hresult fuel (Nat.lt_of_succ_lt_succ hfuel))

/-- A way that is given by a choice in each node. -/
theorem descends_follow {next : Node K V → Option NodeId}
    (hnext : ∀ node child, next node = some child → child ∈ node.children) :
    a.Descends fun fuel id (_ : Unit) => a.follow next fuel id := by
  intro id node hnode _ _
  cases hchild : next node with
  | none =>
      refine .inl ⟨id, fun fuel => ?_⟩
      show a.follow next (fuel + 1) id = _
      rw [follow, hnode, ok_bind, hchild]
      rfl
  | some child =>
      refine .inr ⟨child, hnext node child hchild, (), fun fuel => ?_⟩
      show a.follow next (fuel + 1) id = _
      rw [follow, hnode, ok_bind, hchild]

end Arena

namespace Tree

variable {t : Tree K V} {l : Layout (K × V)}

/-- Where a key is missing in a node that is no leaf, there is a child to go on to. -/
theorem exists_itemAt {cmp : K → K → Ordering} {key : K} {node : Node K V} {position : Nat}
    (hsearch : node.search cmp key = .absent position)
    (hchildren : node.children = [] ∨ node.children.length = node.entries.length + 1)
    (hinner : node.isLeaf = false) :
    ∃ child ∈ node.children, itemAt node.children position = .ok child := by
  have hlength := hchildren.resolve_left (List.isEmpty_eq_false_iff.mp hinner)
  have hlt : position < node.children.length :=
    hlength ▸ Nat.lt_succ_of_le (Node.le_of_search_absent hsearch)
  exact ⟨_, List.getElem_mem hlt, itemAt_of_lt hlt⟩

theorem descends_descend (t : Tree K V) (key : K) :
    t.arena.Descends fun fuel id (_ : Unit) => t.descend key fuel id := by
  intro id node hnode hchildren _
  cases hsearch : node.search t.cmp key with
  | found position =>
      refine .inl ⟨(id, .found position), fun fuel => ?_⟩
      show t.descend key (fuel + 1) id = _
      rw [descend, hnode, ok_bind, hsearch]
      rfl
  | absent position =>
      cases hleaf : node.isLeaf with
      | true =>
          refine .inl ⟨(id, .absent position), fun fuel => ?_⟩
          show t.descend key (fuel + 1) id = _
          rw [descend, hnode, ok_bind, hsearch]
          simp only [hleaf, if_true]
          rfl
      | false =>
          obtain ⟨child, hmem, hitem⟩ := exists_itemAt hsearch hchildren hleaf
          refine .inr ⟨child, hmem, (), fun fuel => ?_⟩
          show t.descend key (fuel + 1) id = _
          rw [descend, hnode, ok_bind, hsearch]
          simp only [hleaf, Bool.false_eq_true, if_false, hitem, ok_bind]

theorem descends_lastNotAbove (t : Tree K V) (key : K) :
    t.arena.Descends fun fuel id best => t.lastNotAbove key fuel id best := by
  intro id node hnode hchildren best
  cases hsearch : node.search t.cmp key with
  | found position =>
      have hitem := itemAt_of_lt (Node.lt_of_search_found hsearch)
      exact .inl ⟨_, fun fuel => lastNotAbove_found hnode hsearch hitem⟩
  | absent position =>
      have hbelow := entryBelow_eq (List.take_append_drop position node.entries).symm best
      rw [List.length_take_of_le (Node.le_of_search_absent hsearch)] at hbelow
      cases hleaf : node.isLeaf with
      | true =>
          refine .inl ⟨(node.entries.take position).getLast?.or best, fun fuel => ?_⟩
          show t.lastNotAbove key (fuel + 1) id best = _
          rw [lastNotAbove, hnode, ok_bind, hsearch]
          simp only [hbelow, ok_bind, hleaf, if_true]
          rfl
      | false =>
          obtain ⟨child, hmem, hitem⟩ := exists_itemAt hsearch hchildren hleaf
          refine .inr ⟨child, hmem, (node.entries.take position).getLast?.or best, fun fuel => ?_⟩
          show t.lastNotAbove key (fuel + 1) id best = _
          rw [lastNotAbove, hnode, ok_bind, hsearch]
          simp only [hbelow, ok_bind, hleaf, Bool.false_eq_true, if_false, hitem]

theorem descends_firstNotBelow (t : Tree K V) (key : K) :
    t.arena.Descends fun fuel id best => t.firstNotBelow key fuel id best := by
  intro id node hnode hchildren best
  cases hsearch : node.search t.cmp key with
  | found position =>
      have hitem := itemAt_of_lt (Node.lt_of_search_found hsearch)
      exact .inl ⟨_, fun fuel => firstNotBelow_found hnode hsearch hitem⟩
  | absent position =>
      cases hleaf : node.isLeaf with
      | true =>
          refine .inl ⟨node.entries[position]? <|> best, fun fuel => ?_⟩
          show t.firstNotBelow key (fuel + 1) id best = _
          rw [firstNotBelow, hnode, ok_bind, hsearch]
          simp only [hleaf, if_true]
          rfl
      | false =>
          obtain ⟨child, hmem, hitem⟩ := exists_itemAt hsearch hchildren hleaf
          refine .inr ⟨child, hmem, node.entries[position]? <|> best, fun fuel => ?_⟩
          show t.firstNotBelow key (fuel + 1) id best = _
          rw [firstNotBelow, hnode, ok_bind, hsearch]
          simp only [hleaf, Bool.false_eq_true, if_false, hitem, ok_bind]

/-! ### Going up -/

/-- A climb goes over the nodes of the path at most, whatever it is told to stop at. -/
theorem Holds.exists_climb {path : List (Frame (K × V))}
    (h : t.Holds (some (Layout.plug path l))) (separator : Node K V → Nat → Option Nat)
    (boundary : Boundary) : ∃ position, ∀ fuel, path.length ≤ fuel →
      t.climb separator boundary fuel l.slot = .ok position := by
  induction path generalizing l with
  | nil =>
      refine ⟨.beyond boundary, fun fuel _ => ?_⟩
      rw [climb, h.stores.reads.node_plug, ok_bind]
      rfl
  | cons frame path ih =>
      obtain ⟨slot, g⟩ := frame
      have habove : t.arena.node slot =
          .ok (Layout.frameNode (Layout.parentOf none path) l.slot g) := h.stores.reads.node_above
      have hlisted : (Layout.frameNode (Layout.parentOf none path) l.slot g).positionOf? l.slot =
          some g.position := h.stores.positionOf_plug
      obtain ⟨position, hrest⟩ := ih (l := Layout.fill (slot, g) l) h
      have hparent : Layout.parentOf none ((slot, g) :: path) = some slot := rfl
      cases hstop : separator (Layout.frameNode (Layout.parentOf none path) l.slot g) g.position with
      | some index =>
          refine ⟨.on slot index, fun fuel hfuel => ?_⟩
          obtain ⟨fuel, rfl⟩ :=
            Nat.exists_eq_add_one.mpr (Nat.lt_of_lt_of_le (Nat.succ_pos path.length) hfuel)
          rw [climb, h.stores.reads.node_plug, ok_bind]
          simp only [hparent, habove, ok_bind, hlisted, hstop]
          rfl
      | none =>
          refine ⟨position, fun fuel hfuel => ?_⟩
          obtain ⟨fuel, rfl⟩ :=
            Nat.exists_eq_add_one.mpr (Nat.lt_of_lt_of_le (Nat.succ_pos path.length) hfuel)
          rw [climb, h.stores.reads.node_plug, ok_bind]
          simp only [hparent, habove, ok_bind, hlisted, hstop]
          exact hrest fuel (Nat.le_of_succ_le_succ hfuel)

/-! ### All of them -/

/-- Whatever goes from node to node comes to an end in a tree with so many levels. Downwards from a
node no more nodes are looked at than there are levels from there on, upwards no more steps are taken
than there are nodes above. -/
structure Bounded (t : Tree K V) (levels : Nat) : Prop where
  /-- The bound that every walk is given is large enough. -/
  levels_le : levels ≤ t.bound
  depth_lt : ∀ v, t.Visited v → v.depth < levels
  /-- A parent lists its children, so that no climb finds a child missing. -/
  listed : ∀ v parent, t.Visited v → v.node.parent = some parent →
    ∃ above position, t.arena.node parent = .ok above ∧ above.positionOf? v.id = some position
  descend : ∀ key v, t.Visited v → ∃ found, ∀ fuel, levels ≤ v.depth + fuel →
    t.descend key fuel v.id = .ok found
  lastNotAbove : ∀ key best v, t.Visited v → ∃ found, ∀ fuel, levels ≤ v.depth + fuel →
    t.lastNotAbove key fuel v.id best = .ok found
  firstNotBelow : ∀ key best v, t.Visited v → ∃ found, ∀ fuel, levels ≤ v.depth + fuel →
    t.firstNotBelow key fuel v.id best = .ok found
  leftmost : ∀ v, t.Visited v → ∃ leaf, ∀ fuel, levels ≤ v.depth + fuel →
    t.arena.leftmost fuel v.id = .ok leaf
  rightmost : ∀ v, t.Visited v → ∃ leaf, ∀ fuel, levels ≤ v.depth + fuel →
    t.arena.rightmost fuel v.id = .ok leaf
  height : ∀ v, t.Visited v → ∀ fuel, levels ≤ v.depth + fuel →
    t.arena.levels fuel v.id = .ok (levels - v.depth)
  climb : ∀ separator boundary v, t.Visited v → ∃ position, ∀ fuel, v.depth ≤ fuel →
    t.climb separator boundary fuel v.id = .ok position

/-- From a visited node on a level tree is level, with a level less for each node above. -/
theorem Holds.exists_part (h : t.Holds (some l)) (hl : l.shape.Level height) {v : Visit K V}
    (hv : t.Visited v) : ∃ (part : Layout (K × V)) (rest : Nat), part.slot = v.id ∧
      t.arena.Reads (part.cells v.parent) ∧ part.shape.Level rest ∧ height = rest + v.depth := by
  obtain ⟨path, focus, rfl, rfl⟩ := (h.visited_iff hl).mp hv
  obtain ⟨rest, hheight, hfocus⟩ := Layout.level_of_plug hl
  have hreads := h.stores.reads
  rw [cells, Layout.cells_plug] at hreads
  exact ⟨focus, rest, rfl, hreads.left, hfocus, hheight⟩

theorem Holds.bounded (h : t.Holds (some l)) (hl : l.shape.Level height) :
    t.Bounded (height + 1) := by
  have hdown {σ β : Type} {walk : Nat → NodeId → σ → Except Fault β}
      (hwalk : t.arena.Descends walk) (state : σ) (v : Visit K V) (hv : t.Visited v) :
      ∃ result, ∀ fuel, height + 1 ≤ v.depth + fuel → walk fuel v.id state = .ok result := by
    obtain ⟨part, rest, hslot, hreads, hpart, rfl⟩ := h.exists_part hl hv
    obtain ⟨result, hresult⟩ := hwalk.exists_result hreads hpart state
    exact ⟨result, fun fuel hfuel => hslot ▸ hresult fuel (by omega)⟩
  constructor
  case levels_le => exact h.height_lt hl
  case depth_lt =>
    intro v hv
    obtain ⟨part, rest, -, -, -, rfl⟩ := h.exists_part hl hv
    omega
  case listed =>
    intro v parent hv hparent
    obtain ⟨path, focus, rfl, rfl⟩ := (h.visited_iff hl).mp hv
    cases path with
    | nil => contradiction
    | cons frame path =>
        obtain ⟨slot, g⟩ := frame
        obtain rfl := Option.some.inj hparent
        exact ⟨_, _, h.stores.reads.node_above, h.stores.positionOf_plug⟩
  case descend => exact fun key => hdown (t.descends_descend key) ()
  case lastNotAbove => exact fun key => hdown (t.descends_lastNotAbove key)
  case firstNotBelow => exact fun key => hdown (t.descends_firstNotBelow key)
  case leftmost =>
    exact hdown (Arena.descends_follow fun _ _ hchild => List.mem_of_mem_head? hchild) ()
  case rightmost =>
    exact hdown (Arena.descends_follow fun _ _ hchild => List.mem_of_mem_getLast? hchild) ()
  case height =>
    intro v hv fuel hfuel
    obtain ⟨part, rest, hslot, hreads, hpart, rfl⟩ := h.exists_part hl hv
    rw [← hslot, hreads.levels_eq hpart (by omega)]
    congr 1
    omega
  case climb =>
    intro separator boundary v hv
    obtain ⟨path, focus, rfl, rfl⟩ := (h.visited_iff hl).mp hv
    exact h.exists_climb separator boundary

/-- Without a root there is nowhere to start from. -/
theorem bounded_none (hroot : t.root = none) : t.Bounded 0 := by
  have hnone := not_visited hroot
  constructor
  case levels_le => exact Nat.zero_le _
  case depth_lt => exact fun v hv => (hnone v hv).elim
  case listed => exact fun v _ hv => (hnone v hv).elim
  case descend => exact fun _ v hv => (hnone v hv).elim
  case lastNotAbove => exact fun _ _ v hv => (hnone v hv).elim
  case firstNotBelow => exact fun _ _ v hv => (hnone v hv).elim
  case leftmost => exact fun v hv => (hnone v hv).elim
  case rightmost => exact fun v hv => (hnone v hv).elim
  case height => exact fun v hv => (hnone v hv).elim
  case climb => exact fun _ _ v hv => (hnone v hv).elim

end Tree

end Multiway
