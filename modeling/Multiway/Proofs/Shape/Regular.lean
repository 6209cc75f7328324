import Multiway.Fanout
import Multiway.Proofs.Shape.Zipper

/-!
Shapes of a bounded width.

All leaves of a search tree are equally deep and all its nodes, the root apart, are at least half
full. Both are said of a shape by recursion on its height: `Regular` asks it of everything below the
topmost node and leaves open how many entries that one has. An operation that makes a node too full
or too poor breaks nothing else, so it can be described as work on a regular shape at the end of a
regular path, and the one number that is wrong stays visible.

`join` is the way in which nodes are cut, merged and lent to: two nodes of one height with an entry
between them become one. Moving an entry from one neighbour to another is a cut and a join with a
part that has no entry, so all these steps keep the entries for the same reason.
-/

namespace Multiway

variable {α : Type} {f : Fanout} {height : Nat}

/-- The numbers of entries that a node may have between two operations. -/
def Fanout.Allows (f : Fanout) (isRoot : Bool) (size : Nat) : Prop :=
  (if isRoot then 1 else f.fewestEntries) ≤ size ∧ size ≤ f.mostEntries

theorem Fanout.Allows.root {isRoot : Bool} {size : Nat} (h : f.Allows isRoot size) :
    f.Allows true size := by
  refine ⟨?_, h.2⟩
  have hleast := h.1
  cases isRoot with
  | true => exact hleast
  | false => exact Nat.le_trans f.fewestEntries_pos hleast

namespace Shape

/-- Below the topmost node all leaves are `height` levels down, every node has room for its entries
and enough of them, and an inner node has one child more than entries. -/
def Regular (f : Fanout) : Nat → Shape α → Prop
  | 0, s => s.children = []
  | height + 1, s => s.children.length = s.entries.length + 1 ∧
      ∀ child ∈ s.children, child.Regular f height ∧ f.Allows false child.entries.length

/-- The same for all that lies along a path to a shape of some height. -/
def RegularPath (f : Fanout) : Nat → List (Gap α (Shape α)) → Prop
  | _, [] => True
  | height, g :: path =>
      (∀ child ∈ g.around [], child.Regular f height ∧ f.Allows false child.entries.length) ∧
        f.Allows path.isEmpty g.entries.length ∧ RegularPath f (height + 1) path

/-- All leaves are `height` levels down, and an inner node has one child more than entries. How many
entries there are is left open everywhere. -/
def Level : Nat → Shape α → Prop
  | 0, s => s.children = []
  | height + 1, s => s.children.length = s.entries.length + 1 ∧
      ∀ child ∈ s.children, child.Level height

/-- A shape that a tree may have between two operations, the order of its entries apart. -/
def Sound (f : Fanout) (height : Nat) (s : Shape α) : Prop :=
  s.Regular f height ∧ f.Allows true s.entries.length

theorem forall_mem_around {p : Shape α → Prop} {g : Gap α (Shape α)} {s : Shape α} :
    (∀ child ∈ g.around [s], p child) ↔ (∀ child ∈ g.around [], p child) ∧ p s := by
  simp only [Gap.around, List.mem_append, List.mem_singleton, List.not_mem_nil, or_false]
  constructor
  · intro h
    refine ⟨?_, h s (.inl (.inr rfl))⟩
    rintro child (hmem | hmem)
    · exact h child (.inl (.inl hmem))
    · exact h child (.inr hmem)
  · rintro ⟨h, hs⟩ child ((hmem | rfl) | hmem)
    · exact h child (.inl hmem)
    · exact hs
    · exact h child (.inr hmem)

theorem regular_fill {g : Gap α (Shape α)} {s : Shape α} :
    (fill g s).Regular f (height + 1) ↔
      (∀ child ∈ g.around [], child.Regular f height ∧ f.Allows false child.entries.length) ∧
        s.Regular f height ∧ f.Allows false s.entries.length := by
  rw [Regular, children_fill, entries_fill, Gap.length_around, List.length_singleton,
    forall_mem_around]
  simp

/-- A shape at the end of a path makes a sound whole just when it is regular, has a number of
entries that is allowed there, and the path is regular. -/
theorem sound_plug {path : List (Gap α (Shape α))} {s : Shape α} :
    (plug path s).Sound f (height + path.length) ↔
      s.Regular f height ∧ f.Allows path.isEmpty s.entries.length ∧
        RegularPath f height path := by
  induction path generalizing height s with
  | nil => simp [plug, Sound, RegularPath]
  | cons g path ih =>
      rw [plug, List.length_cons, Nat.add_comm path.length, ← Nat.add_assoc, ih, regular_fill,
        entries_fill, RegularPath]
      simp only [List.isEmpty_cons]
      constructor
      · rintro ⟨⟨hsides, hs, hsize⟩, hg, hpath⟩
        exact ⟨hs, hsize, hsides, hg, hpath⟩
      · rintro ⟨hs, hsize, hsides, hg, hpath⟩
        exact ⟨⟨hsides, hs, hsize⟩, hg, hpath⟩

/-- A path in a sound shape is not longer than the shape is high. -/
theorem exists_height_of_sound {path : List (Gap α (Shape α))} {s : Shape α}
    (h : (plug path s).Sound f height) : ∃ rest, height = rest + path.length := by
  induction path generalizing height s with
  | nil => exact ⟨height, rfl⟩
  | cons g path ih =>
      obtain ⟨rest, rfl⟩ := ih h
      obtain ⟨hregular, -⟩ := sound_plug.mp h
      cases rest with
      | zero =>
          rw [Regular, children_fill] at hregular
          simp [Gap.around] at hregular
      | succ rest => exact ⟨rest, by simp only [List.length_cons]; omega⟩

/-! ### Shapes with level leaves

A walk only needs the leaves to be equally deep, so it can be described while the size of some node
is wrong. -/

theorem Regular.level {s : Shape α} (h : s.Regular f height) : s.Level height := by
  induction height generalizing s with
  | zero => exact h
  | succ height ih => exact ⟨h.1, fun child hmem => ih (h.2 child hmem).1⟩

theorem level_fill {g : Gap α (Shape α)} {s : Shape α} :
    (fill g s).Level (height + 1) ↔ (∀ child ∈ g.around [], child.Level height) ∧
      s.Level height := by
  rw [Level, children_fill, entries_fill, Gap.length_around, List.length_singleton,
    forall_mem_around]
  simp

/-- The end of a path in a level shape is level, and not more than the path lies above it. -/
theorem level_of_plug {path : List (Gap α (Shape α))} {s : Shape α}
    (h : (plug path s).Level height) : ∃ rest, height = rest + path.length ∧ s.Level rest := by
  induction path generalizing height s with
  | nil => exact ⟨height, rfl, h⟩
  | cons g path ih =>
      obtain ⟨rest, rfl, hfill⟩ := ih h
      cases rest with
      | zero =>
          rw [Level, children_fill] at hfill
          simp [Gap.around] at hfill
      | succ rest =>
          exact ⟨rest, by simp only [List.length_cons]; omega, (level_fill.mp hfill).2⟩

/-- Along a regular path nothing but the end of it decides whether the leaves are level. -/
theorem level_plug {path : List (Gap α (Shape α))} {s : Shape α} (hs : s.Level height)
    (hpath : RegularPath f height path) : (plug path s).Level (height + path.length) := by
  induction path generalizing height s with
  | nil => exact hs
  | cons g path ih =>
      obtain ⟨hsides, -, hrest⟩ := hpath
      rw [plug, List.length_cons, Nat.add_comm path.length, ← Nat.add_assoc]
      exact ih (level_fill.mpr ⟨fun child hmem => (hsides child hmem).1.level, hs⟩) hrest

/-- Whether a path is regular does not depend on the entries of its nodes. -/
theorem regularPath_replace {path up : List (Gap α (Shape α))} {g g' : Gap α (Shape α)}
    (hsides : g'.around [] = g.around []) (hlength : g'.entries.length = g.entries.length)
    (h : RegularPath f height (path ++ g :: up)) : RegularPath f height (path ++ g' :: up) := by
  induction path generalizing height with
  | nil =>
      obtain ⟨hg, hsize, hup⟩ := h
      exact ⟨by rwa [hsides], by rwa [hlength], hup⟩
  | cons first path ih =>
      have hempty : (path ++ g' :: up).isEmpty = (path ++ g :: up).isEmpty := by
        cases path <;> rfl
      rw [List.cons_append, RegularPath] at h ⊢
      rw [hempty]
      exact ⟨h.1, h.2.1, ih h.2.2⟩

/-! ### Joining neighbours -/

/-- Two nodes and an entry between them as one node. -/
def join (low : Shape α) (median : α) (high : Shape α) : Shape α :=
  .node (low.entries ++ median :: high.entries) (low.children ++ high.children)

theorem interleave_append {children : List (Shape α)} {entries : List α}
    (hlength : children.length = entries.length + 1) (median : α) (children' : List (Shape α))
    (entries' : List α) :
    interleave (children ++ children') (entries ++ median :: entries') =
      interleave children entries ++ median :: interleave children' entries' := by
  induction entries generalizing children with
  | nil =>
      obtain ⟨child, rfl⟩ := List.length_eq_one_iff.mp hlength
      simp [interleave]
  | cons entry entries ih =>
      obtain ⟨child, rest, rfl⟩ := List.exists_cons_of_length_eq_add_one hlength
      simp only [List.length_cons, Nat.add_right_cancel_iff] at hlength
      simp only [List.cons_append, interleave, ih hlength, List.append_assoc]

theorem toList_join {low high : Shape α} (median : α) (hlow : low.Regular f height)
    (hhigh : high.Regular f height) :
    (join low median high).toList = low.toList ++ median :: high.toList := by
  obtain ⟨entries, children⟩ := low
  obtain ⟨entries', children'⟩ := high
  simp only [join, toList_node, entries_node, children_node]
  cases height with
  | zero =>
      rw [Regular, children_node] at hlow hhigh
      simp only [hlow, hhigh, List.append_nil, interleave_nil]
  | succ height => exact interleave_append hlow.1 median children' entries'

theorem regular_join {low high : Shape α} (median : α) (hlow : low.Regular f height)
    (hhigh : high.Regular f height) : (join low median high).Regular f height := by
  cases height with
  | zero =>
      rw [Regular] at hlow hhigh ⊢
      simp [join, hlow, hhigh]
  | succ height =>
      refine ⟨?_, ?_⟩
      · have := hlow.1
        have := hhigh.1
        simp only [join, children_node, entries_node, List.length_append, List.length_cons]
        omega
      · intro child hmem
        rcases List.mem_append.mp hmem with hmem | hmem
        · exact hlow.2 child hmem
        · exact hhigh.2 child hmem

theorem join_assoc (first second third : Shape α) (entry entry' : α) :
    join (join first entry second) entry' third = join first entry (join second entry' third) := by
  simp [join]

/-- Cuts a node at the entry in a position. -/
def cut (middle : Nat) (s : Shape α) : Option (Shape α × α × Shape α) :=
  match s.entries.drop middle with
  | [] => none
  | median :: high =>
    some (.node (s.entries.take middle) (s.children.take (middle + 1)), median,
      .node high (s.children.drop (middle + 1)))

theorem exists_cut_eq {middle : Nat} {s : Shape α} (h : middle < s.entries.length) :
    ∃ parts, s.cut middle = some parts := by
  rw [cut, List.drop_eq_getElem_cons h]
  exact ⟨_, rfl⟩

/-- The parts of a cut are again regular, and joined they are what was cut. -/
theorem exists_cut {middle : Nat} {s : Shape α} (hs : s.Regular f height)
    (hmiddle : middle < s.entries.length) :
    ∃ low median high, s.cut middle = some (low, median, high) ∧ join low median high = s ∧
      low.Regular f height ∧ high.Regular f height ∧ low.entries.length = middle ∧
      high.entries.length + (middle + 1) = s.entries.length := by
  obtain ⟨entries, children⟩ := s
  rw [entries_node] at hmiddle
  have hdrop : entries.drop middle = entries[middle] :: entries.drop (middle + 1) :=
    List.drop_eq_getElem_cons hmiddle
  refine ⟨.node (entries.take middle) (children.take (middle + 1)), entries[middle],
    .node (entries.drop (middle + 1)) (children.drop (middle + 1)), ?_, ?_, ?_, ?_, ?_, ?_⟩
  · simp only [cut, entries_node, children_node]
    rw [hdrop]
  · simp only [join, entries_node, children_node]
    rw [← hdrop, List.take_append_drop, List.take_append_drop]
  · cases height with
    | zero =>
        rw [Regular, children_node] at hs ⊢
        simp [hs]
    | succ height =>
        refine ⟨?_, fun child hmem => hs.2 child (List.mem_of_mem_take hmem)⟩
        have := hs.1
        simp only [children_node, entries_node, List.length_take] at this ⊢
        omega
  · cases height with
    | zero =>
        rw [Regular, children_node] at hs ⊢
        simp [hs]
    | succ height =>
        refine ⟨?_, fun child hmem => hs.2 child (List.mem_of_mem_drop hmem)⟩
        have := hs.1
        simp only [children_node, entries_node, List.length_drop] at this ⊢
        omega
  · simp only [entries_node, List.length_take]
    omega
  · simp only [entries_node, List.length_drop]
    omega

/-! ### The two sides of a gap -/

section sides

variable {p : Shape α → Prop} {before : List (Shape α × α)} {behind : List (α × Shape α)}
  {child : Shape α} {entry : α}

theorem forall_mem_around_behind :
    (∀ c ∈ (Gap.mk before ((entry, child) :: behind)).around [], p c) ↔
      p child ∧ ∀ c ∈ (Gap.mk before behind).around [], p c := by
  simp only [Gap.around, List.append_nil, List.map_cons, List.mem_append, List.mem_cons]
  constructor
  · intro h
    refine ⟨h child (.inr (.inl rfl)), ?_⟩
    rintro c (hc | hc)
    · exact h c (.inl hc)
    · exact h c (.inr (.inr hc))
  · rintro ⟨hchild, h⟩ c (hc | rfl | hc)
    · exact h c (.inl hc)
    · exact hchild
    · exact h c (.inr hc)

theorem forall_mem_around_before :
    (∀ c ∈ (Gap.mk ((child, entry) :: before) behind).around [], p c) ↔
      p child ∧ ∀ c ∈ (Gap.mk before behind).around [], p c := by
  simp only [Gap.around, List.append_nil, List.map_cons, List.reverse_cons, List.mem_append,
    List.mem_singleton]
  constructor
  · intro h
    refine ⟨h child (.inl (.inr rfl)), ?_⟩
    rintro c (hc | hc)
    · exact h c (.inl (.inl hc))
    · exact h c (.inr hc)
  · rintro ⟨hchild, h⟩ c ((hc | rfl) | hc)
    · exact h c (.inl hc)
    · exact hchild
    · exact h c (.inr hc)

variable {s low high : Shape α} {median : α}

theorem toList_fill_behind (hlow : low.Regular f height) (hhigh : high.Regular f height) :
    (fill ⟨before, (median, high) :: behind⟩ low).toList =
      (fill ⟨before, behind⟩ (join low median high)).toList := by
  rw [toList_fill, toList_fill, toList_join median hlow hhigh]
  simp [lead, trail]

theorem toList_fill_before (hlow : low.Regular f height) (hhigh : high.Regular f height) :
    (fill ⟨(low, median) :: before, behind⟩ high).toList =
      (fill ⟨before, behind⟩ (join low median high)).toList := by
  rw [toList_fill, toList_fill, toList_join median hlow hhigh]
  simp [lead, trail]

theorem join_fill : join (fill ⟨before, []⟩ low) median (fill ⟨[], behind⟩ high) =
    fill ⟨before, (median, high) :: behind⟩ low := by
  simp [join, fill, Gap.entries, Gap.low, Gap.high, Gap.around]

/-- An inner node has a last child. -/
theorem exists_fill_last (hs : s.Regular f (height + 1)) :
    ∃ before child, s = fill ⟨before, []⟩ child := by
  obtain ⟨entries, children⟩ := s
  have hlength : children.length = entries.length + 1 := hs.1
  have hlt : entries.length < children.length := by omega
  obtain ⟨hentries, haround, hposition⟩ :=
    Gap.ofPosition_eq hlength (List.getElem?_eq_getElem hlt)
  have hbehind : (Gap.ofPosition entries.length entries children).behind = [] := by
    rw [Gap.ofPosition, List.drop_length, List.zip_nil_left]
  refine ⟨(Gap.ofPosition entries.length entries children).before, children[entries.length], ?_⟩
  rw [← hbehind, fill, hentries, haround]

/-- An inner node has a first child. -/
theorem exists_fill_first (hs : s.Regular f (height + 1)) :
    ∃ behind child, s = fill ⟨[], behind⟩ child := by
  obtain ⟨entries, children⟩ := s
  have hlength : children.length = entries.length + 1 := hs.1
  have hlt : 0 < children.length := by omega
  obtain ⟨hentries, haround, hposition⟩ :=
    Gap.ofPosition_eq hlength (List.getElem?_eq_getElem hlt)
  refine ⟨(Gap.ofPosition 0 entries children).behind, children[0], ?_⟩
  have hbefore : (Gap.ofPosition 0 entries children).before = [] := rfl
  rw [← hbefore, fill, hentries, haround]

theorem length_join : (join low median high).entries.length =
    low.entries.length + high.entries.length + 1 := by
  simp only [join, entries_node, List.length_append, List.length_cons]
  omega

end sides

/-! ### Height -/

/-- The number of levels, counted along the low edge. -/
def levels : Shape α → Nat
  | .node _ [] => 1
  | .node _ (child :: _) => child.levels + 1

/-- In a level shape every edge is as long as the low one. -/
theorem levels_eq {s : Shape α} (h : s.Level height) : s.levels = height + 1 := by
  induction height generalizing s with
  | zero =>
      obtain ⟨entries, children⟩ := s
      rw [Level, children_node] at h
      rw [h, levels]
  | succ height ih =>
      obtain ⟨entries, children⟩ := s
      obtain ⟨child, rest, rfl⟩ := List.exists_cons_of_length_eq_add_one h.1
      rw [levels, ih (h.2 child (by simp))]

end Shape

end Multiway
