import Multiway.Proofs.Tree.Mending
import Multiway.Proofs.Tree.Slots

/-!
What lending and merging change.

Every round in which a node that lacks an entry is mended writes a few nodes and leaves all others alone.
`Lends`, `Merges` and `Lowers` tell of the arena alone which nodes these are, what they were and what they
become.

Lending from the left is lending from the right with every list turned around, so both are told once,
with the hand on which the neighbour stands. In which slots a round writes is known from the cells
that it exchanges; all other slots keep their nodes, those that wait for reuse included.
-/

namespace Multiway

variable {K V α : Type} {height : Nat}

namespace Tree

/-- Nodes that get another parent and keep all else. -/
def Reparents (t u : Tree K V) (ids : List NodeId) (parent : Option NodeId) : Prop :=
  ∀ id ∈ ids, ∃ node, t.arena.node id = .ok node ∧ u.arena.node id = .ok { node with parent }

/-- All other nodes stay as they are. -/
def KeepsBut (t u : Tree K V) (ids : List NodeId) : Prop :=
  ∀ id, id ∉ ids → u.arena.node id = t.arena.node id

/-- A node that was given up: it is empty, waits for reuse, and nothing leads to it any more. -/
structure Retired (t : Tree K V) (id : NodeId) : Prop where
  blank : t.arena.node id = .ok {}
  waits : id ∈ t.arena.free ++ t.arena.vacant
  root : t.root ≠ some id
  unlisted : ∀ other node, t.arena.node other = .ok node → id ∉ node.children

/-- The hand on which a neighbour stands. -/
inductive Hand where
  | left
  | right

/-- What a node has, together with what stands on one hand of it. -/
def Hand.join : Hand → List α → List α → List α
  | .left, own, other => other ++ own
  | .right, own, other => own ++ other

/-- A neighbour lends one entry: it goes up, the separator comes down, and one child goes over with
it unless these are leaves. -/
structure Lends (t u : Tree K V) (hand : Hand) (parent current neighbour : NodeId)
    (position : Nat) (above node lender : Node K V) (lent separator : K × V)
    (moved : List NodeId) : Prop where
  reads_above : t.arena.node parent = .ok above
  reads_node : t.arena.node current = .ok node
  reads_lender : t.arena.node neighbour = .ok { lender with
    entries := hand.join [lent] lender.entries
    children := hand.join moved lender.children }
  /-- The two are neighbours, and the separator is the entry between them. -/
  beside : (above.children.drop position).take 2 = hand.join [current] [neighbour]
  separates : above.entries[position]? = some separator
  moves : moved.length = if node.isLeaf then 0 else 1
  /-- What the lender keeps is enough. -/
  enough : (t.order + 1) / 2 - 1 ≤ lender.entries.length
  writes_above : u.arena.node parent = .ok { above with
    entries := above.entries.set position lent }
  writes_node : u.arena.node current = .ok { node with
    entries := hand.join node.entries [separator]
    children := hand.join node.children moved }
  writes_lender : u.arena.node neighbour = .ok lender
  adopted : t.Reparents u moved (some current)
  others : t.KeepsBut u (parent :: current :: neighbour :: moved)
  root : u.root = t.root
  stock : u.arena.stock = t.arena.stock

/-- Two neighbours become one, with the entry between them; the parent loses that entry and one
child, and the right one of the two is given up. -/
structure Merges (t u : Tree K V) (parent left right : NodeId) (position : Nat)
    (above low high : Node K V) (separator : K × V) : Prop where
  reads_above : t.arena.node parent = .ok above
  reads_low : t.arena.node left = .ok low
  reads_high : t.arena.node right = .ok high
  /-- The two are neighbours, and the separator is the entry between them. -/
  beside : (above.children.drop position).take 2 = [left, right]
  separates : above.entries[position]? = some separator
  /-- The node that they become is not too full. -/
  most : low.entries.length + 1 + high.entries.length ≤ t.order - 1
  writes_above : u.arena.node parent = .ok { above with
    entries := above.entries.eraseIdx position
    children := above.children.eraseIdx (position + 1) }
  writes_low : u.arena.node left = .ok { low with
    entries := low.entries ++ separator :: high.entries
    children := low.children ++ high.children }
  retired : u.Retired right
  adopted : t.Reparents u high.children (some left)
  others : t.KeepsBut u (parent :: left :: right :: high.children)
  root : u.root = t.root

/-- A root without entries gives way to its only child, which has no parent then, or to none. -/
structure Lowers (t u : Tree K V) (id : NodeId) (node : Node K V) : Prop where
  entries : node.entries = []
  children : node.children.length ≤ 1
  root : u.root = node.children.head?
  adopted : t.Reparents u node.children none
  retired : u.Retired id
  others : t.KeepsBut u (id :: node.children)

variable {t : Tree K V}

/-! ### Lending -/

namespace Hand

variable {β : Type} {hand : Hand}

theorem map_join (f : α → β) (own other : List α) :
    (hand.join own other).map f = hand.join (own.map f) (other.map f) := by
  cases hand <;> exact List.map_append

theorem allCells_join (parent : Option NodeId) (own other : List (Layout (K × V))) :
    Layout.allCells parent (hand.join own other) =
      Layout.allCells parent own + Layout.allCells parent other := by
  cases hand
  · exact (Layout.allCells_append ..).trans (add_comm _ _)
  · exact Layout.allCells_append ..

end Hand

/-- The topmost nodes of some layouts get another parent. -/
theorem reparents_of_reads {u : Tree K V} {layouts : List (Layout (K × V))}
    {old new : Option NodeId} (ht : t.arena.Reads ↑(layouts.map (Layout.head old)))
    (hu : u.arena.Reads ↑(layouts.map (Layout.head new))) :
    t.Reparents u (layouts.map Layout.slot) new := by
  intro id hmem
  obtain ⟨l, hl, rfl⟩ := List.mem_map.mp hmem
  exact ⟨_, ht (l.head old) (List.mem_map_of_mem hl), hu (l.head new) (List.mem_map_of_mem hl)⟩

/-- Lending on either hand, told of the cells that are exchanged. -/
theorem lends_of_stores {u : Tree K V} {hand : Hand} {slot : NodeId} {l neighbour : Layout (K × V)}
    {position : Nat} {above : Node K V} {others : List (K × V)} {lent separator : K × V}
    {moved kept : List (Layout (K × V))} {rest : Multiset (NodeId × Node K V)}
    (ht : t.arena.Stores (l.cells (some slot) +
      (neighbour.cells (some slot) + ({(slot, above)} + rest))))
    (hu : u.arena.Stores ((Layout.node l.slot (hand.join l.entries [separator])
        (hand.join l.children moved)).cells (some slot) +
      ((Layout.node neighbour.slot others kept).cells (some slot) +
        ({(slot, { above with entries := above.entries.set position lent })} + rest))))
    (hentries : neighbour.entries = hand.join [lent] others)
    (hchildren : neighbour.children = hand.join moved kept)
    (hbeside : (above.children.drop position).take 2 = hand.join [l.slot] [neighbour.slot])
    (hseparates : above.entries[position]? = some separator)
    (hmoved : moved.length = if l.children = [] then 0 else 1)
    (henough : (t.order + 1) / 2 - 1 ≤ others.length) (hroot : u.root = t.root)
    (hstock : u.arena.stock = t.arena.stock) :
    t.Lends u hand slot l.slot neighbour.slot position above
      ⟨l.entries, l.children.map Layout.slot, some slot⟩
      ⟨others, kept.map Layout.slot, some slot⟩ lent separator (moved.map Layout.slot) := by
  obtain ⟨inner, hinner⟩ := Layout.exists_inner moved
  -- Only the topmost nodes of the children that move over are exchanged.
  have hold : t.arena.Stores (({(slot, above)} +
      ({(l.slot, ⟨l.entries, l.children.map Layout.slot, some slot⟩)} +
        ({(neighbour.slot, ⟨neighbour.entries, neighbour.children.map Layout.slot, some slot⟩)} +
          ↑(moved.map (Layout.head (some neighbour.slot)))))) +
      (inner + Layout.allCells (some neighbour.slot) kept +
        Layout.allCells (some l.slot) l.children + rest)) := by
    refine ht.congr ?_
    rw [Layout.cells_eq, Layout.cells_eq, hchildren, Hand.allCells_join, hinner]
    abel
  have hnew : u.arena.Stores (({(slot, { above with entries := above.entries.set position lent })} +
      ({(l.slot, ⟨hand.join l.entries [separator],
          (hand.join l.children moved).map Layout.slot, some slot⟩)} +
        ({(neighbour.slot, ⟨others, kept.map Layout.slot, some slot⟩)} +
          ↑(moved.map (Layout.head (some l.slot)))))) +
      (inner + Layout.allCells (some neighbour.slot) kept +
        Layout.allCells (some l.slot) l.children + rest)) := by
    refine hu.congr ?_
    rw [Layout.cells_node, Layout.cells_node, Hand.allCells_join, hinner]
    abel
  have hbefore := hold.reads.left
  have hafter := hnew.reads.left
  constructor
  case reads_above => exact hbefore.left _ (Multiset.mem_singleton.mpr rfl)
  case reads_node => exact hbefore.right.left _ (Multiset.mem_singleton.mpr rfl)
  case reads_lender =>
    rw [← Hand.map_join, ← hchildren, ← hentries]
    exact hbefore.right.right.left _ (Multiset.mem_singleton.mpr rfl)
  case beside => exact hbeside
  case separates => exact hseparates
  case moves =>
    rw [List.length_map, hmoved, Node.isLeaf]
    cases l.children <;> rfl
  case enough => exact henough
  case writes_above => exact hafter.left _ (Multiset.mem_singleton.mpr rfl)
  case writes_node =>
    rw [← Hand.map_join]
    exact hafter.right.left _ (Multiset.mem_singleton.mpr rfl)
  case writes_lender => exact hafter.right.right.left _ (Multiset.mem_singleton.mpr rfl)
  case adopted =>
    exact reparents_of_reads hbefore.right.right.right hafter.right.right.right
  case others =>
    intro id hid
    refine hold.node_frame hnew (hstock.trans t.arena.stock.store_nil.symm) ?_
    simpa [Layout.head, Function.comp_def] using hid
  case root => exact hroot
  case stock => exact hstock

section neighbours

variable {slot : NodeId} {path : List (Frame (K × V))} {l neighbour : Layout (K × V)}
  {before : List (Layout (K × V) × (K × V))} {behind : List ((K × V) × Layout (K × V))}
  {separator : K × V}

/-- The children on the two sides of an entry. -/
theorem beside_behind (parent : Option NodeId) :
    ((Layout.frameNode parent l.slot ⟨before, (separator, neighbour) :: behind⟩).children.drop
      before.length).take 2 = [l.slot, neighbour.slot] := by
  have hdrop : ((before.map fun pair => pair.1.slot).reverse ++
      l.slot :: neighbour.slot :: behind.map fun pair => pair.2.slot).drop before.length = _ :=
    List.drop_left' (by simp)
  simp [Layout.frameNode, Gap.around, Gap.map, Function.comp_def, hdrop]

theorem beside_before (parent : Option NodeId) :
    ((Layout.frameNode parent l.slot ⟨(neighbour, separator) :: before, behind⟩).children.drop
      before.length).take 2 = [neighbour.slot, l.slot] := by
  have hdrop : ((before.map fun pair => pair.1.slot).reverse ++
      neighbour.slot :: l.slot :: behind.map fun pair => pair.2.slot).drop before.length = _ :=
    List.drop_left' (by simp)
  simp [Layout.frameNode, Gap.around, Gap.map, Function.comp_def, hdrop]

/-- Of two level layouts of one height both are leaves or none is. -/
theorem length_children (hl : l.shape.Level height) (hlevel : neighbour.shape.Level height) :
    neighbour.children.length = if l.children = [] then 0 else neighbour.entries.length + 1 := by
  cases height with
  | zero => rw [if_pos (Layout.leaf_of_level hl), Layout.leaf_of_level hlevel, List.length_nil]
  | succ height =>
      rw [if_neg, Layout.length_of_level hlevel]
      intro hleaf
      have hlength := Layout.length_of_level hl
      rw [hleaf] at hlength
      contradiction

theorem Holds.lends_right
    (h : t.Holds (some (Layout.plug ((slot, ⟨before, (separator, neighbour) :: behind⟩) :: path) l)))
    (hl : l.shape.Level height) (hlevel : neighbour.shape.Level height)
    (hrich : t.fanout.fewestEntries < neighbour.entries.length) :
    ∃ u lender lent moved, t.shiftFromRight slot before.length = .ok (some u) ∧
      t.Lends u .right slot l.slot neighbour.slot before.length
        (Layout.frameNode (Layout.parentOf none path) l.slot
          ⟨before, (separator, neighbour) :: behind⟩)
        ⟨l.entries, l.children.map Layout.slot, some slot⟩ lender lent separator moved := by
  obtain ⟨lent, others, hentries⟩ := List.exists_cons_of_length_pos (Nat.zero_lt_of_lt hrich)
  obtain ⟨u, hshift, hholds, -, -, hstock⟩ := h.shiftFromRight_eq hrich hentries rfl rfl
  have ht := h.stores
  have hu := hholds.stores
  rw [cells, Layout.cells_plug_behind] at ht hu
  obtain ⟨hseparates, hset⟩ := replaceAt_eq_ok.mp
    (replaceAt_entries_behind lent : replaceAt (Layout.frameNode (Layout.parentOf none path) l.slot
      ⟨before, (separator, neighbour) :: behind⟩).entries before.length lent = _)
  have hlength := length_children hl hlevel
  rw [hentries, List.length_cons] at hrich hlength
  refine ⟨u, _, lent, _, hshift, lends_of_stores ht (hu.congr ?_) hentries
    (List.take_append_drop 1 _).symm (beside_behind _) hseparates ?_ (Nat.le_of_lt_succ hrich)
    (hholds.root.trans ?_) hstock⟩
  · rw [hset]
    rfl
  · rw [List.length_take, hlength]
    split <;> omega
  · rw [h.root]
    exact congrArg some (Layout.slot_plug_congr path rfl)

theorem Holds.lends_left
    (h : t.Holds (some (Layout.plug ((slot, ⟨(neighbour, separator) :: before, behind⟩) :: path) l)))
    (hl : l.shape.Level height) (hlevel : neighbour.shape.Level height)
    (hrich : t.fanout.fewestEntries < neighbour.entries.length) :
    ∃ u lender lent moved, t.shiftFromLeft slot (before.length + 1) = .ok (some u) ∧
      t.Lends u .left slot l.slot neighbour.slot before.length
        (Layout.frameNode (Layout.parentOf none path) l.slot
          ⟨(neighbour, separator) :: before, behind⟩)
        ⟨l.entries, l.children.map Layout.slot, some slot⟩ lender lent separator moved := by
  obtain ⟨others, lent, hentries⟩ := exists_concat (Nat.zero_lt_of_lt hrich)
  obtain ⟨u, hshift, hholds, -, -, hstock⟩ := h.shiftFromLeft_eq hlevel hrich hentries rfl rfl
  have ht := h.stores
  have hu := hholds.stores
  rw [cells, Layout.cells_plug_before] at ht hu
  obtain ⟨hseparates, hset⟩ := replaceAt_eq_ok.mp
    (replaceAt_entries_before lent : replaceAt (Layout.frameNode (Layout.parentOf none path) l.slot
      ⟨(neighbour, separator) :: before, behind⟩).entries before.length lent = _)
  have hlength := length_children hl hlevel
  rw [hentries, List.length_append, List.length_singleton] at hrich hlength
  refine ⟨u, _, lent, _, hshift, lends_of_stores ht (hu.congr ?_) hentries
    (List.take_append_drop (others.length + 1) _).symm (beside_before _) hseparates ?_
    (Nat.le_of_lt_succ hrich) (hholds.root.trans ?_) hstock⟩
  · rw [hset]
    rfl
  · rw [List.length_drop, hlength]
    split <;> omega
  · rw [h.root]
    exact congrArg some (Layout.slot_plug_congr path rfl)

end neighbours

/-! ### Merging -/

/-- A slot that waits for reuse is listed nowhere. -/
theorem Accounted.retired (h : t.Accounted) {id : NodeId}
    (hid : id ∈ t.arena.free ++ t.arena.vacant) : t.Retired id := by
  have hblank (id : NodeId) (hid : id ∈ t.arena.free ++ t.arena.vacant) :
      t.arena.node id = .ok {} := by
    rcases List.mem_append.mp hid with hfree | hvacant
    · exact h.free_blank id hfree
    · exact h.vacant_blank id hvacant
  have hunreached : ¬ t.Reaches id := fun hreached => by
    rcases h.one id (h.reached_lt id hreached) with ⟨-, hfree, hvacant⟩ | ⟨hnot, -⟩ | ⟨hnot, -⟩
    · exact (List.mem_append.mp hid).elim hfree hvacant
    · exact hnot hreached
    · exact hnot hreached
  refine ⟨hblank id hid, hid, fun hroot => hunreached ⟨[], hroot⟩, fun other node hnode hmem => ?_⟩
  -- The node that lists it would be reached, and so would the slot, or else wait and be empty.
  have hlt : other < t.arena.slots.size :=
    (Array.getElem?_eq_some_iff.mp (Arena.node_eq_ok_iff.mp hnode)).1
  have hwaits (hother : other ∈ t.arena.free ++ t.arena.vacant) : False := by
    obtain rfl := Except.ok.inj (hnode.symm.trans (hblank other hother))
    contradiction
  rcases h.one other hlt with ⟨⟨way, hway⟩, -⟩ | ⟨-, hfree, -⟩ | ⟨-, -, hvacant⟩
  · obtain ⟨position, hchild⟩ := List.getElem?_of_mem hmem
    refine hunreached ⟨position :: way, ?_⟩
    rw [slotAt, hway, Option.bind_some, Arena.node_eq_ok_iff.mp hnode, Option.bind_some, hchild]
  · exact hwaits (List.mem_append_left _ hfree)
  · exact hwaits (List.mem_append_right _ hvacant)

/-- A slot that was given up is retired. -/
theorem Holds.retired {l? : Option (Layout (K × V))} {s : Arena.Stock} {ids : List NodeId}
    {id : NodeId} (h : t.Holds l?) (hstock : t.arena.stock = s.store ids) (hid : id ∈ ids) :
    t.Retired id := by
  refine h.accounted.retired ?_
  have hmem := s.mem_store hid
  rw [← hstock] at hmem
  exact hmem

/-- Merging two neighbours, told of the arena. -/
theorem Holds.merges {slot : NodeId} {path : List (Frame (K × V))}
    {g : Gap (K × V) (Layout (K × V))} {low high : Layout (K × V)} {separator : K × V}
    (h : t.Holds (some (Layout.plug
      ((slot, ⟨g.before, (separator, high) :: g.behind⟩) :: path) low)))
    (hmost : low.entries.length + 1 + high.entries.length ≤ t.order - 1) :
    ∃ u, t.mergeAt slot g.position = .ok (u, t.arena.stock.drops [high.slot]) ∧
      u.Holds (some (Layout.plug path (Layout.fill (slot, g) (merged low separator high)))) ∧
      Alike t u ∧
      t.Merges u slot low.slot high.slot g.position
        (Layout.frameNode (Layout.parentOf none path) low.slot
          ⟨g.before, (separator, high) :: g.behind⟩)
        ⟨low.entries, low.children.map Layout.slot, some slot⟩
        ⟨high.entries, high.children.map Layout.slot, some slot⟩ separator := by
  obtain ⟨u, hmerge, hholds, halike, hsize, hstock⟩ := h.mergeAt_eq
  refine ⟨u, hmerge, hholds, halike, ?_⟩
  obtain ⟨inner, hinner⟩ := Layout.exists_inner high.children
  have ht := h.stores
  have hu : u.arena.Stores (Layout.cells none
    (Layout.plug ((slot, g) :: path) (merged low separator high))) := hholds.stores
  rw [cells, Layout.cells_plug_behind] at ht
  rw [Layout.cells_plug_cons, merged] at hu
  -- Only the topmost nodes of the children that move over are exchanged.
  have hold : t.arena.Stores (({(slot, Layout.frameNode (Layout.parentOf none path) low.slot
        ⟨g.before, (separator, high) :: g.behind⟩)} +
      ({(low.slot, ⟨low.entries, low.children.map Layout.slot, some slot⟩)} +
        ({(high.slot, ⟨high.entries, high.children.map Layout.slot, some slot⟩)} +
          ↑(high.children.map (Layout.head (some high.slot)))))) +
      (inner + Layout.allCells (some low.slot) low.children +
        (Layout.allCells (some slot) (g.around []) + Layout.pathCells none slot path))) := by
    refine ht.congr ?_
    rw [Layout.cells_eq, Layout.cells_eq, hinner]
    abel
  have hnew : u.arena.Stores (({(slot, Layout.frameNode (Layout.parentOf none path) low.slot g)} +
      ({(low.slot, ⟨low.entries ++ separator :: high.entries,
          (low.children ++ high.children).map Layout.slot, some slot⟩)} +
        ↑(high.children.map (Layout.head (some low.slot))))) +
      (inner + Layout.allCells (some low.slot) low.children +
        (Layout.allCells (some slot) (g.around []) + Layout.pathCells none slot path))) := by
    refine hu.congr ?_
    rw [Layout.cells_node, Layout.allCells_append, hinner, Layout.slot]
    abel
  have hbefore := hold.reads.left
  have hafter := hnew.reads.left
  obtain ⟨hseparates, hentries⟩ := removeAt_eq_ok.mp
    (removeAt_entries_behind : removeAt (Layout.frameNode (Layout.parentOf none path) low.slot
      ⟨g.before, (separator, high) :: g.behind⟩).entries g.position = _)
  obtain ⟨-, hchildren⟩ := removeAt_eq_ok.mp
    (removeAt_children_behind : removeAt (Layout.frameNode (Layout.parentOf none path) low.slot
      ⟨g.before, (separator, high) :: g.behind⟩).children (g.position + 1) = _)
  constructor
  case reads_above => exact hbefore.left _ (Multiset.mem_singleton.mpr rfl)
  case reads_low => exact hbefore.right.left _ (Multiset.mem_singleton.mpr rfl)
  case reads_high => exact hbefore.right.right.left _ (Multiset.mem_singleton.mpr rfl)
  case beside => exact beside_behind _
  case separates => exact hseparates
  case most => exact hmost
  case writes_above =>
    rw [hentries, hchildren]
    exact hafter.left _ (Multiset.mem_singleton.mpr rfl)
  case writes_low =>
    rw [← List.map_append]
    exact hafter.right.left _ (Multiset.mem_singleton.mpr rfl)
  case retired => exact hholds.retired hstock (List.mem_singleton.mpr rfl)
  case adopted => exact reparents_of_reads hbefore.right.right.right hafter.right.right
  case others =>
    intro id hid
    refine hold.node_frame hnew hstock ?_
    simpa [Layout.head, Function.comp_def] using hid
  case root =>
    rw [hholds.root, h.root]
    exact congrArg some (Layout.slot_plug_congr path rfl)

/-! ### Dropping the root -/

/-- A root without entries, told of the arena. -/
theorem Lacking.lowers {l : Layout (K × V)} (h : t.Lacking [] l height) (hentries : l.entries = []) :
    ∃ u events, t.lowerRoot l.slot = .ok (u, events) ∧
      t.Lowers u l.slot ⟨l.entries, l.children.map Layout.slot, none⟩ := by
  obtain ⟨heir?, hchildren, hstands⟩ := exists_heir h.regular hentries
  have hholds : t.Holds (some l) := h.holds
  obtain ⟨u, hlower, hnext, -, -, hstock⟩ := hholds.lowerRoot_empty hentries hchildren hstands
  obtain ⟨inner, hinner⟩ := Layout.exists_inner l.children
  have hold : t.arena.Stores (({(l.slot, ⟨l.entries, l.children.map Layout.slot, none⟩)} +
      ↑(l.children.map (Layout.head (some l.slot)))) + inner) := by
    refine hholds.stores.congr ?_
    rw [cells, Layout.cells_eq, hinner, add_assoc]
  have hnew : u.arena.Stores (↑(l.children.map (Layout.head none)) + inner) := by
    refine hnext.stores.congr ?_
    rw [← hinner, hchildren]
    cases heir? with
    | none => rfl
    | some heir => exact (add_zero _).symm
  refine ⟨u, _, hlower, hentries, ?_, ?_, ?_, hnext.retired hstock (List.mem_singleton.mpr rfl), ?_⟩
  · rw [List.length_map, hchildren]
    cases heir? <;> simp
  · rw [hnext.root, hchildren]
    cases heir? <;> rfl
  · exact reparents_of_reads hold.reads.left.right hnew.reads.left
  · intro id hid
    refine hold.node_frame hnew hstock ?_
    simpa [Layout.head, Function.comp_def] using hid

end Tree

end Multiway
