import Multiway.Proofs.Arena.Reading

/-!
Changes of an arena that stores a layout.

The lemmas about single slots are put here into the form in which trees use them: the node worked on
stands at the end of a path or is one of several neighbours, and everything else is a remainder that
comes back as it was.
-/

namespace Multiway

variable {K V : Type} {f : Fanout} {height : Nat}

namespace Layout

/-- The same node with other entries. -/
def withEntries (entries : List (K × V)) (l : Layout (K × V)) : Layout (K × V) :=
  .node l.slot entries l.children

@[simp] theorem slot_withEntries (entries : List (K × V)) (l : Layout (K × V)) :
    (l.withEntries entries).slot = l.slot := rfl

theorem shape_withEntries (entries : List (K × V)) (l : Layout (K × V)) :
    (l.withEntries entries).shape = .node entries l.shape.children := by
  rw [withEntries, shape_node, children_shape]

end Layout

namespace Arena.Stores

variable {a : Arena K V} {rest : Multiset (NodeId × Node K V)} {l : Layout (K × V)}

/-- Writing other entries into a node. -/
theorem write_entries {parent : Option NodeId} (h : a.Stores (l.cells parent + rest))
    (entries : List (K × V)) :
    ∃ b, a.write l.slot ⟨entries, l.children.map Layout.slot, parent⟩ = .ok b ∧
      b.Stores ((l.withEntries entries).cells parent + rest) ∧ b.stock = a.stock := by
  rw [Layout.cells_eq, add_assoc] at h
  obtain ⟨b, hb, hstores, hstock⟩ := h.write ⟨entries, l.children.map Layout.slot, parent⟩
  refine ⟨b, hb, ?_, hstock⟩
  rw [Layout.cells_eq, add_assoc]
  exact hstores

theorem write_entries_plug {top : Option NodeId} {path : List (Frame (K × V))}
    (h : a.Stores ((Layout.plug path l).cells top)) (entries : List (K × V)) :
    ∃ b, a.write l.slot ⟨entries, l.children.map Layout.slot, Layout.parentOf top path⟩ = .ok b ∧
      b.Stores ((Layout.plug path (l.withEntries entries)).cells top) ∧ b.stock = a.stock := by
  rw [Layout.cells_plug] at h
  obtain ⟨b, hb, hstores, hstock⟩ := h.write_entries entries
  refine ⟨b, hb, ?_, hstock⟩
  rw [Layout.cells_plug]
  exact hstores

/-- Writing other entries into the node above, around the same children. -/
theorem write_above {top : Option NodeId} {slot : NodeId} {g g' : Gap (K × V) (Layout (K × V))}
    {path : List (Frame (K × V))}
    (h : a.Stores ((Layout.plug ((slot, g) :: path) l).cells top))
    (haround : g'.around [] = g.around []) :
    ∃ b, a.write slot (Layout.frameNode (Layout.parentOf top path) l.slot g') = .ok b ∧
      b.Stores ((Layout.plug ((slot, g') :: path) l).cells top) ∧ b.stock = a.stock := by
  rw [Layout.cells_plug_cons, add_left_comm] at h
  obtain ⟨b, hb, hstores, hstock⟩ :=
    h.write (Layout.frameNode (Layout.parentOf top path) l.slot g')
  refine ⟨b, hb, ?_, hstock⟩
  rw [Layout.cells_plug_cons, haround, add_left_comm]
  exact hstores

/-- Nodes that get another parent keep all else. -/
theorem reparent {layouts : List (Layout (K × V))} {old : Option NodeId}
    (h : a.Stores (Layout.allCells old layouts + rest)) (parent : Option NodeId) :
    ∃ b, (layouts.map Layout.slot).foldlM (fun a child =>
          a.update child fun node => { node with parent }) a = .ok b ∧
      b.Stores (Layout.allCells parent layouts + rest) ∧ b.stock = a.stock := by
  induction layouts generalizing a rest with
  | nil => exact ⟨a, rfl, h, rfl⟩
  | cons l layouts ih =>
      rw [Layout.allCells_cons, Layout.cells_eq, add_assoc, add_assoc] at h
      obtain ⟨b, hb, hstores, hstock⟩ := h.update fun node => { node with parent }
      have hfront : b.Stores (Layout.allCells old layouts + (l.cells parent + rest)) := by
        apply hstores.congr
        rw [Layout.cells_eq]
        abel
      obtain ⟨c, hc, hstores, hstock'⟩ := ih hfront
      refine ⟨c, ?_, hstores.congr ?_, hstock'.trans hstock⟩
      · rw [List.map_cons, List.foldlM_cons, hb]
        exact hc
      · rw [Layout.allCells_cons]
        abel

theorem adopt {layouts : List (Layout (K × V))} {old : Option NodeId}
    (h : a.Stores (Layout.allCells old layouts + rest)) (parent : NodeId) :
    ∃ b, a.adopt parent (layouts.map Layout.slot) = .ok b ∧
      b.Stores (Layout.allCells (some parent) layouts + rest) ∧ b.stock = a.stock :=
  h.reparent (some parent)

theorem orphan {layouts : List (Layout (K × V))} {old : Option NodeId}
    (h : a.Stores (Layout.allCells old layouts + rest)) :
    ∃ b, a.orphan (layouts.map Layout.slot) = .ok b ∧
      b.Stores (Layout.allCells none layouts + rest) ∧ b.stock = a.stock :=
  h.reparent none

/-- What lending does to the arena: two neighbours and their parent are written, and the nodes that
move over get the other neighbour as their parent. -/
theorem lend {slot : NodeId} {l sibling : Layout (K × V)} {p : Node K V}
    {moved kept children : List (Layout (K × V))}
    (h : a.Stores (l.cells (some slot) + (sibling.cells (some slot) + ({(slot, p)} + rest))))
    (hcut : Layout.allCells (some sibling.slot) sibling.children =
      Layout.allCells (some sibling.slot) moved + Layout.allCells (some sibling.slot) kept)
    (hjoin : Layout.allCells (some l.slot) children =
      Layout.allCells (some l.slot) moved + Layout.allCells (some l.slot) l.children)
    (others entries : List (K × V)) (p' : Node K V) (change : Node K V → Node K V)
    (hchange : change ⟨l.entries, l.children.map Layout.slot, some slot⟩ =
      ⟨entries, children.map Layout.slot, some slot⟩) :
    ∃ a₁ a₂ a₃ b, a.write sibling.slot ⟨others, kept.map Layout.slot, some slot⟩ = .ok a₁ ∧
      a₁.write slot p' = .ok a₂ ∧ a₂.update l.slot change = .ok a₃ ∧
      a₃.adopt l.slot (moved.map Layout.slot) = .ok b ∧
      b.Stores ((Layout.node l.slot entries children).cells (some slot) +
        ((Layout.node sibling.slot others kept).cells (some slot) + ({(slot, p')} + rest))) ∧
      b.stock = a.stock := by
  rw [Layout.cells_eq _ l, Layout.cells_eq _ sibling, hcut] at h
  -- Each change asks for its cells in front and leaves the others behind them.
  have hfront : a.Stores
      ({(sibling.slot, ⟨sibling.entries, sibling.children.map Layout.slot, some slot⟩)} +
        ({(slot, p)} + ({(l.slot, ⟨l.entries, l.children.map Layout.slot, some slot⟩)} +
          (Layout.allCells (some sibling.slot) moved + (Layout.allCells (some sibling.slot) kept +
            (Layout.allCells (some l.slot) l.children + rest)))))) := h.congr (by abel)
  obtain ⟨a₁, hlender, h, hstock₁⟩ := hfront.write ⟨others, kept.map Layout.slot, some slot⟩
  rw [add_left_comm] at h
  obtain ⟨a₂, habove, h, hstock₂⟩ := h.write p'
  rw [add_left_comm _ {(l.slot, _)}, add_left_comm] at h
  obtain ⟨a₃, hcurrent, h, hstock₃⟩ := h.update change
  rw [add_left_comm _ (Layout.allCells _ moved), add_left_comm _ (Layout.allCells _ moved),
    add_left_comm] at h
  obtain ⟨b, hadopt, h, hstock₄⟩ := h.adopt l.slot
  refine ⟨a₁, a₂, a₃, b, hlender, habove, hcurrent, hadopt, h.congr ?_,
    ((hstock₄.trans hstock₃).trans hstock₂).trans hstock₁⟩
  rw [hchange, Layout.cells_node, Layout.cells_node, hjoin]
  abel

/-- What merging does to the arena: the parent is written, one neighbour takes over what the other
has, and the other is given up. -/
theorem merge {slot : NodeId} {low high : Layout (K × V)} {p : Node K V}
    (h : a.Stores (low.cells (some slot) + (high.cells (some slot) + ({(slot, p)} + rest))))
    (entries : List (K × V)) (p' : Node K V) :
    ∃ a₁ a₂ a₃ b, low.slot ≠ high.slot ∧ a.write slot p' = .ok a₁ ∧
      a₁.node low.slot = .ok ⟨low.entries, low.children.map Layout.slot, some slot⟩ ∧
      a₁.node high.slot = .ok ⟨high.entries, high.children.map Layout.slot, some slot⟩ ∧
      a₁.write low.slot ⟨entries, low.children.map Layout.slot ++ high.children.map Layout.slot,
        some slot⟩ = .ok a₂ ∧
      a₂.adopt low.slot (high.children.map Layout.slot) = .ok a₃ ∧
      a₃.release high.slot = .ok (b, a.stock.drops [high.slot]) ∧
      b.Stores ((Layout.node low.slot entries (low.children ++ high.children)).cells (some slot) +
        ({(slot, p')} + rest)) ∧
      b.stock = a.stock.store [high.slot] := by
  have hfront : a.Stores ({(slot, p)} +
      (low.cells (some slot) + (high.cells (some slot) + rest))) := h.congr (by abel)
  obtain ⟨a₁, habove, h, hstock₁⟩ := hfront.write p'
  have hlow := h.reads.right.left.node
  have hhigh := h.reads.right.right.left.node
  rw [Layout.cells_eq _ low, Layout.cells_eq _ high] at h
  have hfront : a₁.Stores ({(low.slot, ⟨low.entries, low.children.map Layout.slot, some slot⟩)} +
      ({(high.slot, ⟨high.entries, high.children.map Layout.slot, some slot⟩)} +
        (Layout.allCells (some high.slot) high.children +
          (Layout.allCells (some low.slot) low.children + ({(slot, p')} + rest))))) :=
    h.congr (by abel)
  have hne := hfront.ne_of_mem (Multiset.mem_add.mpr (.inl (Multiset.mem_singleton.mpr rfl)))
  obtain ⟨a₂, hmerge, h, hstock₂⟩ := hfront.write
    ⟨entries, low.children.map Layout.slot ++ high.children.map Layout.slot, some slot⟩
  rw [add_left_comm _ (Layout.allCells _ high.children), add_left_comm] at h
  obtain ⟨a₃, hadopt, h, hstock₃⟩ := h.adopt low.slot
  rw [add_left_comm _ {(high.slot, _)}, add_left_comm] at h
  obtain ⟨b, hrelease, h, hstock⟩ := h.release
  have hkept : a₃.stock = a.stock := (hstock₃.trans hstock₂).trans hstock₁
  rw [hkept] at hrelease hstock
  refine ⟨a₁, a₂, a₃, b, hne.symm, habove, hlow, hhigh, hmerge, hadopt, hrelease, h.congr ?_,
    hstock⟩
  rw [Layout.cells_node, Layout.allCells_append, List.map_append]
  abel

end Arena.Stores

end Multiway
