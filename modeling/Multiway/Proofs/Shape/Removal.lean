import Multiway.Proofs.Shape.Insertion

/-!
Taking an entry out of a shape.

The entry is taken out of a leaf, the leaf of its predecessor if it stands further up, and then
`replenish` mends the node at the end of a path that may have one entry too few. It lends from the
right neighbour, or else from the left one, or else merges two neighbours and goes on with the node
above.

All three are a cut or a join on the side of the gap, so a lemma about one side of a gap and two
about joins carry them. The numbers are what is left: a neighbour that does not lend has exactly the
fewest entries, so a merged node is not too full.
-/

namespace Multiway

variable {α K V : Type} {f : Fanout} {height : Nat}

namespace Shape

/-- Moves the first entry of the right neighbour up and the entry above down, if the neighbour has
one to spare. -/
def lendRight (f : Fanout) (g : Gap α (Shape α)) (s : Shape α) : Option (Shape α) :=
  match g.behind with
  | [] => none
  | (separator, sibling) :: behind =>
    if sibling.entries.length ≤ f.fewestEntries then none
    else
      match sibling.cut 0 with
      | none => none
      | some (moved, lent, rest) =>
        some (fill ⟨g.before, (lent, rest) :: behind⟩ (join s separator moved))

/-- Moves the last entry of the left neighbour up and the entry above down, if the neighbour has
one to spare. -/
def lendLeft (f : Fanout) (g : Gap α (Shape α)) (s : Shape α) : Option (Shape α) :=
  match g.before with
  | [] => none
  | (sibling, separator) :: before =>
    if sibling.entries.length ≤ f.fewestEntries then none
    else
      match sibling.cut (sibling.entries.length - 1) with
      | none => none
      | some (rest, lent, moved) =>
        some (fill ⟨(rest, lent) :: before, g.behind⟩ (join moved separator s))

/-- Joins a shape and its right neighbour, or the left one if it is the last child. -/
def merge (g : Gap α (Shape α)) (s : Shape α) : Shape α :=
  match g.behind, g.before with
  | (separator, sibling) :: behind, before => fill ⟨before, behind⟩ (join s separator sibling)
  | [], (sibling, separator) :: before => fill ⟨before, []⟩ (join sibling separator s)
  | [], [] => fill g s

/-- Mends the shape at the end of a path if it has too few entries, then the node above, and so on.
A topmost node without entries gives way to its only child. -/
def replenish (f : Fanout) :
    List (Gap α (Shape α)) → Shape α → Option (Shape α) × List Event
  | [], s =>
    if s.entries.isEmpty then (s.children.head?, [.rootCollapsed (tall s.children.head?)])
    else (some s, [])
  | g :: path, s =>
    if f.fewestEntries ≤ s.entries.length then (some (plug path (fill g s)), [])
    else
      match lendRight f g s with
      | some above => (some (plug path above), [])
      | none =>
        match lendLeft f g s with
        | some above => (some (plug path above), [])
        | none => replenish f path (merge g s)

section replenish

variable {path : List (Gap α (Shape α))} {g : Gap α (Shape α)} {s above : Shape α}

section lend

variable {before : List (Shape α × α)} {behind : List (α × Shape α)} {separator lent : α}
  {sibling moved rest : Shape α}

theorem lendRight_of_le (h : sibling.entries.length ≤ f.fewestEntries) :
    lendRight f ⟨before, (separator, sibling) :: behind⟩ s = none := if_pos h

theorem lendLeft_of_le (h : sibling.entries.length ≤ f.fewestEntries) :
    lendLeft f ⟨(sibling, separator) :: before, behind⟩ s = none := if_pos h

theorem lendRight_of_lt (h : f.fewestEntries < sibling.entries.length)
    (hcut : sibling.cut 0 = some (moved, lent, rest)) :
    lendRight f ⟨before, (separator, sibling) :: behind⟩ s =
      some (fill ⟨before, (lent, rest) :: behind⟩ (join s separator moved)) := by
  simp only [lendRight]
  rw [if_neg (Nat.not_le_of_lt h), hcut]

theorem lendLeft_of_lt (h : f.fewestEntries < sibling.entries.length)
    (hcut : sibling.cut (sibling.entries.length - 1) = some (rest, lent, moved)) :
    lendLeft f ⟨(sibling, separator) :: before, behind⟩ s =
      some (fill ⟨(rest, lent) :: before, behind⟩ (join moved separator s)) := by
  simp only [lendLeft]
  rw [if_neg (Nat.not_le_of_lt h), hcut]

/-- A neighbour that does not lend has no entry to spare. -/
theorem le_of_lendRight_eq_none
    (h : lendRight f ⟨before, (separator, sibling) :: behind⟩ s = none) :
    sibling.entries.length ≤ f.fewestEntries := by
  apply Nat.le_of_not_lt
  intro hrich
  obtain ⟨⟨moved, lent, rest⟩, hcut⟩ := exists_cut_eq (Nat.zero_lt_of_lt hrich)
  rw [lendRight_of_lt hrich hcut] at h
  contradiction

theorem le_of_lendLeft_eq_none
    (h : lendLeft f ⟨(sibling, separator) :: before, behind⟩ s = none) :
    sibling.entries.length ≤ f.fewestEntries := by
  apply Nat.le_of_not_lt
  intro hrich
  obtain ⟨⟨rest, lent, moved⟩, hcut⟩ := exists_cut_eq
    (Nat.sub_lt (Nat.zero_lt_of_lt hrich) Nat.one_pos)
  rw [lendLeft_of_lt hrich hcut] at h
  contradiction

theorem lt_of_lendRight_eq_some
    (h : lendRight f ⟨before, (separator, sibling) :: behind⟩ s = some above) :
    f.fewestEntries < sibling.entries.length := by
  apply Nat.lt_of_not_le
  intro hpoor
  rw [lendRight_of_le hpoor] at h
  contradiction

theorem lt_of_lendLeft_eq_some
    (h : lendLeft f ⟨(sibling, separator) :: before, behind⟩ s = some above) :
    f.fewestEntries < sibling.entries.length := by
  apply Nat.lt_of_not_le
  intro hpoor
  rw [lendLeft_of_le hpoor] at h
  contradiction

end lend

theorem lendRight_spec
    (hsides : ∀ child ∈ g.around [], child.Regular f height ∧ f.Allows false child.entries.length)
    (hs : s.Regular f height) (hsize : s.entries.length + 1 = f.fewestEntries)
    (h : lendRight f g s = some above) :
    above.Regular f (height + 1) ∧ above.entries.length = g.entries.length ∧
      above.toList = (fill g s).toList := by
  obtain ⟨before, behind⟩ := g
  rcases behind with _ | ⟨⟨separator, sibling⟩, behind⟩
  · contradiction
  · obtain ⟨⟨hsibling, hroom⟩, hothers⟩ := forall_mem_around_behind.mp hsides
    have htwice := f.two_mul_fewestEntries_le
    rcases Nat.lt_or_ge f.fewestEntries sibling.entries.length with hrich | hpoor
    · obtain ⟨moved, lent, rest, hcut, rfl, hmoved, hrest, hlength, hlength'⟩ :=
        exists_cut hsibling (Nat.zero_lt_of_lt hrich)
      rw [lendRight_of_lt hrich hcut] at h
      obtain rfl := Option.some.inj h
      rw [length_join] at hroom hrich
      refine ⟨?_, ?_, ?_⟩
      · refine regular_fill.mpr ⟨forall_mem_around_behind.mpr ⟨⟨hrest, ?_⟩, hothers⟩,
          regular_join separator hs hmoved, ?_⟩
        · simp only [Fanout.Allows, Bool.false_eq_true, if_false] at hroom ⊢
          omega
        · rw [length_join]
          simp only [Fanout.Allows, Bool.false_eq_true, if_false] at hroom ⊢
          omega
      · simp [Gap.length_entries]
      · rw [toList_fill_behind (regular_join separator hs hmoved) hrest,
          toList_fill_behind hs hsibling, join_assoc]
    · rw [lendRight_of_le hpoor] at h
      contradiction

theorem lendLeft_spec
    (hsides : ∀ child ∈ g.around [], child.Regular f height ∧ f.Allows false child.entries.length)
    (hs : s.Regular f height) (hsize : s.entries.length + 1 = f.fewestEntries)
    (h : lendLeft f g s = some above) :
    above.Regular f (height + 1) ∧ above.entries.length = g.entries.length ∧
      above.toList = (fill g s).toList := by
  obtain ⟨before, behind⟩ := g
  rcases before with _ | ⟨⟨sibling, separator⟩, before⟩
  · contradiction
  · obtain ⟨⟨hsibling, hroom⟩, hothers⟩ := forall_mem_around_before.mp hsides
    have htwice := f.two_mul_fewestEntries_le
    rcases Nat.lt_or_ge f.fewestEntries sibling.entries.length with hrich | hpoor
    · obtain ⟨rest, lent, moved, hcut, hjoin, hrest, hmoved, hlength, hlength'⟩ :=
        exists_cut hsibling (Nat.sub_lt (Nat.zero_lt_of_lt hrich) Nat.one_pos)
      rw [lendLeft_of_lt hrich hcut] at h
      obtain rfl := Option.some.inj h
      refine ⟨?_, ?_, ?_⟩
      · refine regular_fill.mpr ⟨forall_mem_around_before.mpr ⟨⟨hrest, ?_⟩, hothers⟩,
          regular_join separator hmoved hs, ?_⟩
        · simp only [Fanout.Allows, Bool.false_eq_true, if_false] at hroom ⊢
          omega
        · rw [length_join]
          simp only [Fanout.Allows, Bool.false_eq_true, if_false] at hroom ⊢
          omega
      · simp [Gap.length_entries]
      · rw [toList_fill_before hrest (regular_join separator hmoved hs),
          toList_fill_before hsibling hs, ← join_assoc, hjoin]
    · rw [lendLeft_of_le hpoor] at h
      contradiction

theorem merge_spec
    (hsides : ∀ child ∈ g.around [], child.Regular f height ∧ f.Allows false child.entries.length)
    (hs : s.Regular f height) (hsize : s.entries.length + 1 = f.fewestEntries)
    (hg : 0 < g.entries.length) (hright : lendRight f g s = none) (hleft : lendLeft f g s = none) :
    (merge g s).Regular f (height + 1) ∧ (merge g s).entries.length + 1 = g.entries.length ∧
      (merge g s).toList = (fill g s).toList := by
  have htwice := f.two_mul_fewestEntries_le
  obtain ⟨before, behind⟩ := g
  rcases behind with _ | ⟨⟨separator, sibling⟩, behind⟩
  · rcases before with _ | ⟨⟨sibling, separator⟩, before⟩
    · simp [Gap.length_entries] at hg
    · obtain ⟨⟨hsibling, hroom⟩, hothers⟩ := forall_mem_around_before.mp hsides
      have hpoor := le_of_lendLeft_eq_none hleft
      refine ⟨?_, ?_, ?_⟩
      · refine regular_fill.mpr ⟨hothers, regular_join separator hsibling hs, ?_⟩
        rw [length_join]
        simp only [Fanout.Allows, Bool.false_eq_true, if_false] at hroom ⊢
        omega
      · simp [merge, Gap.length_entries]
      · exact (toList_fill_before hsibling hs).symm
  · obtain ⟨⟨hsibling, hroom⟩, hothers⟩ := forall_mem_around_behind.mp hsides
    have hpoor := le_of_lendRight_eq_none hright
    refine ⟨?_, ?_, ?_⟩
    · refine regular_fill.mpr ⟨hothers, regular_join separator hs hsibling, ?_⟩
      rw [length_join]
      simp only [Fanout.Allows, Bool.false_eq_true, if_false] at hroom ⊢
      omega
    · simp only [merge, entries_fill, Gap.length_entries, List.length_cons]
      omega
    · exact (toList_fill_behind hs hsibling).symm

/-- A root without entries gives way to its only child, so the tree loses a level. -/
theorem replenish_root (hs : s.Regular f height) (hmost : s.entries.length ≤ f.mostEntries) :
    contents (replenish f [] s).1 = s.toList ∧
      ((Stands f (height + 1) (replenish f [] s).1 ∧ (replenish f [] s).2 = []) ∨
        Stands f height (replenish f [] s).1 ∧
          (replenish f [] s).2 = [.rootCollapsed height]) := by
  obtain ⟨entries, children⟩ := s
  rcases entries with _ | ⟨entry, entries⟩
  · cases height with
    | zero =>
        rw [Regular, children_node] at hs
        subst hs
        exact ⟨rfl, .inr ⟨rfl, rfl⟩⟩
    | succ height =>
        obtain ⟨hone, hchild⟩ := hs
        obtain ⟨child, hchildren⟩ := List.length_eq_one_iff.mp hone
        rw [children_node] at hchildren
        subst hchildren
        obtain ⟨hregular, hsize⟩ := hchild child (by simp)
        refine ⟨?_, .inr ⟨⟨height, rfl, hregular, hsize.root⟩, ?_⟩⟩
        · simp [replenish, toList, interleave]
        · simp [replenish, tall, levels_eq hregular.level]
  · refine ⟨rfl, .inl ⟨⟨height, rfl, hs, ?_⟩, rfl⟩⟩
    exact ⟨by simp, hmost⟩

/-- Replenishing a shape that is regular but for one missing entry makes the whole sound and keeps
its entries. The tree loses a level just when this is told. -/
theorem replenish_spec (hs : s.Regular f height) (hpath : RegularPath f height path)
    (hleast : (if path.isEmpty then 1 else f.fewestEntries) ≤ s.entries.length + 1)
    (hmost : s.entries.length ≤ f.mostEntries) :
    contents (replenish f path s).1 = (plug path s).toList ∧
      ((Stands f (height + path.length + 1) (replenish f path s).1 ∧
          (replenish f path s).2 = []) ∨
        Stands f (height + path.length) (replenish f path s).1 ∧
          (replenish f path s).2 = [.rootCollapsed (height + path.length)]) := by
  -- A merge takes one entry from the node above, which again lacks one at most.
  induction path generalizing height s with
  | nil => exact replenish_root hs hmost
  | cons g path ih =>
      obtain ⟨hsides, hsize, hrest⟩ := hpath
      have hsum : height + (g :: path).length = height + 1 + path.length := by
        rw [List.length_cons]
        omega
      rw [hsum, plug]
      by_cases hrich : f.fewestEntries ≤ s.entries.length
      · have hfill : (fill g s).Regular f (height + 1) :=
          regular_fill.mpr ⟨hsides, hs, by simpa using hrich, hmost⟩
        rw [replenish, if_pos hrich]
        exact ⟨rfl, .inl ⟨⟨_, rfl, sound_plug.mpr ⟨hfill, hsize, hrest⟩⟩, rfl⟩⟩
      · have hpoor : s.entries.length + 1 = f.fewestEntries := by
          simp only [List.isEmpty_cons, Bool.false_eq_true, if_false] at hleast
          omega
        -- Lending leaves the node above as large as it was, so the work ends there.
        have hlend {above : Shape α} (h : above.Regular f (height + 1) ∧
            above.entries.length = g.entries.length ∧ above.toList = (fill g s).toList) :
            (plug path above).toList = (plug path (fill g s)).toList ∧
              Stands f (height + 1 + path.length + 1) (some (plug path above)) := by
          obtain ⟨hregular, hlength, hlist⟩ := h
          refine ⟨by rw [toList_plug, toList_plug, hlist], _, rfl, ?_⟩
          exact sound_plug.mpr ⟨hregular, by rwa [hlength], hrest⟩
        rw [replenish, if_neg hrich]
        cases hright : lendRight f g s with
        | some above =>
            obtain ⟨hlist, hstands⟩ := hlend (lendRight_spec hsides hs hpoor hright)
            exact ⟨hlist, .inl ⟨hstands, rfl⟩⟩
        | none =>
            cases hleft : lendLeft f g s with
            | some above =>
                obtain ⟨hlist, hstands⟩ := hlend (lendLeft_spec hsides hs hpoor hleft)
                exact ⟨hlist, .inl ⟨hstands, rfl⟩⟩
            | none =>
                have hpos : 0 < g.entries.length := hsize.root.1
                obtain ⟨hregular, hlength, hlist⟩ := merge_spec hsides hs hpoor hpos hright hleft
                obtain ⟨hcontents, hstands⟩ := ih hregular hrest (by rw [hlength]; exact hsize.1)
                  (by have := hsize.2; omega)
                refine ⟨?_, hstands⟩
                show contents (replenish f path (merge g s)).1 = _
                rw [hcontents, toList_plug, toList_plug, hlist]

end replenish

/-! ### Taking an entry out of a leaf -/

/-- Takes out the entry in a position of the shape at the end of a path. An entry that is in no
leaf gives its place to the one before it. The answer is the leaf that has lost an entry, with the
path to it. -/
def detach (position : Nat) (path : List (Gap α (Shape α))) (focus : Shape α) :
    Option (List (Gap α (Shape α)) × Shape α) :=
  match focus.children[position]? with
  | none => some (path, .node (focus.entries.eraseIdx position) [])
  | some child =>
    let (way, leaf) := child.walk steerHigh []
    match leaf.entries.getLast? with
    | none => none
    | some before =>
      some (way ++ Gap.ofPosition position (focus.entries.set position before) focus.children :: path,
        .node leaf.entries.dropLast [])

/-- Takes out an entry and mends the shape. -/
def take (f : Fanout) (position : Nat) (path : List (Gap α (Shape α))) (focus : Shape α) :
    Option (Shape α) × List Event :=
  match detach position path focus with
  | none => (some (plug path focus), [])
  | some (path, leaf) => replenish f path leaf

section take

variable {path : List (Gap α (Shape α))} {low high : Shape α} {removed : α}

theorem detach_leaf (low high : List α) :
    detach low.length path (.node (low ++ removed :: high) []) =
      some (path, .node (low ++ high) []) := by
  simp [detach, List.eraseIdx_append_of_length_le]

/-- The way to the entry before one that is in no leaf goes to the high edge of the child on the
left. -/
theorem detach_fill {way : List (Gap α (Shape α))} {before : List (Shape α × α)}
    {behind : List (α × Shape α)} {next child : Shape α} {entries : List α} {last : α}
    (hwalk : child.walk steerHigh [] = (way, .node (entries ++ [last]) [])) :
    detach before.length path (fill ⟨before, (removed, next) :: behind⟩ child) =
      some (way ++ ⟨before, (last, next) :: behind⟩ :: path, .node entries []) := by
  have hchild : (fill ⟨before, (removed, next) :: behind⟩ child).children[before.length]? =
      some child := Gap.getElem?_around ..
  have hset : (fill ⟨before, (removed, next) :: behind⟩ child).entries.set before.length last =
      (Gap.mk before ((last, next) :: behind)).entries := by
    simp [Gap.entries, Gap.low, Gap.high]
  have hgap := Gap.ofPosition_around (Gap.mk before ((last, next) :: behind)) child
  rw [detach, hchild]
  simp only [hwalk, entries_node, List.getLast?_concat, List.dropLast_concat, hset]
  exact congrArg (fun g => some (way ++ g :: path, _)) hgap

theorem detach_spec {rest : Nat} (hlow : low.Regular f rest) (hhigh : high.Regular f rest)
    (h : (plug path (join low removed high)).Sound f (rest + path.length)) :
    ∃ path' entries, detach low.entries.length path (join low removed high) =
        some (path', .node entries []) ∧ rest + path.length = path'.length ∧
      RegularPath f 0 path' ∧ f.Allows path'.isEmpty (entries.length + 1) ∧
      leads path' ++ entries ++ trails path' =
        (leads path ++ low.toList) ++ (high.toList ++ trails path) := by
  cases rest with
  | zero =>
      obtain ⟨-, hsize, hpath⟩ := sound_plug.mp h
      obtain ⟨entries, children⟩ := low
      obtain ⟨entries', children'⟩ := high
      rw [Regular, children_node] at hlow hhigh
      subst hlow hhigh
      refine ⟨path, entries ++ entries', detach_leaf entries entries', by omega, hpath, ?_, ?_⟩
      · rw [length_join] at hsize
        rwa [List.length_append]
      · rw [toList_node, toList_node, interleave_nil, interleave_nil]
        simp
  | succ rest =>
      obtain ⟨before, child, rfl⟩ := exists_fill_last hlow
      obtain ⟨behind, next, rfl⟩ := exists_fill_first hhigh
      obtain ⟨-, hchild, -⟩ := regular_fill.mp hlow
      obtain ⟨way, entries, rfl, rfl, hway, hwalk⟩ := exists_walk_high hchild
      specialize hwalk []
      rw [List.append_nil] at hwalk
      rw [join_fill] at h ⊢
      -- The leaf gives its last entry away, so the size that is allowed there is read off its path.
      have hplug : plug path (fill ⟨before, (removed, next) :: behind⟩
          (plug way (.node entries []))) =
          plug (way ++ ⟨before, (removed, next) :: behind⟩ :: path) (.node entries []) := by
        rw [plug_append, plug]
      have hheight : way.length + 1 + path.length =
          0 + (way ++ ⟨before, (removed, next) :: behind⟩ :: path).length := by
        rw [List.length_append, List.length_cons]
        omega
      rw [hplug, hheight] at h
      obtain ⟨-, hsize, hpath⟩ := sound_plug.mp h
      rw [entries_node] at hsize
      obtain ⟨entries, last, rfl⟩ := exists_concat hsize.root.1
      refine ⟨way ++ ⟨before, (last, next) :: behind⟩ :: path, entries, ?_, ?_,
        regularPath_replace (by rfl) ?_ hpath, ?_, ?_⟩
      · rw [entries_fill, Gap.length_entries]
        exact detach_fill hwalk
      · rw [List.length_append, List.length_cons]
        omega
      · simp [Gap.length_entries]
      · rw [List.length_append] at hsize
        cases way <;> exact hsize
      · have htrails := trails_of_steered hway
        rw [leads_append, trails_append, htrails, toList_fill, toList_fill, toList_plug, htrails,
          toList_node, interleave_nil, leads, trails]
        simp [lead, trail]

/-- What removing leaves of a tree with so many levels: it has as many, or one level less, and
tells so. -/
def Shrinks (f : Fanout) (tall : Nat) (result : Option (Shape α) × List Event) : Prop :=
  ∃ tall', Stands f tall' result.1 ∧
    ((tall' = tall ∧ result.2 = []) ∨ tall = tall' + 1 ∧ result.2 = [.rootCollapsed tall'])

theorem take_spec {rest : Nat} (hlow : low.Regular f rest) (hhigh : high.Regular f rest)
    (h : (plug path (join low removed high)).Sound f (rest + path.length)) :
    contents (take f low.entries.length path (join low removed high)).1 =
        (leads path ++ low.toList) ++ (high.toList ++ trails path) ∧
      Shrinks f (rest + path.length + 1)
        (take f low.entries.length path (join low removed high)) := by
  obtain ⟨path', entries, hdetach, hlength, hpath, hsize, hlist⟩ := detach_spec hlow hhigh h
  have hmost : (node entries [] : Shape α).entries.length ≤ f.mostEntries :=
    Nat.le_of_succ_le hsize.2
  obtain ⟨hcontents, hstands⟩ := replenish_spec (s := node entries []) (show Regular f 0 _ from rfl)
    hpath hsize.1 hmost
  rw [take, hdetach]
  refine ⟨?_, ?_⟩
  · rw [← hlist]
    simpa only [toList_plug, toList_node, interleave_nil] using hcontents
  · rw [Nat.zero_add] at hstands
    rw [hlength]
    rcases hstands with ⟨hstands, hevents⟩ | ⟨hstands, hevents⟩
    · exact ⟨_, hstands, .inl ⟨rfl, hevents⟩⟩
    · exact ⟨_, hstands, .inr ⟨rfl, hevents⟩⟩

end take

/-! ### Removing by key and from both ends -/

/-- Removes the entry that has a key. -/
def erase (f : Fanout) (cmp : K → K → Ordering) (key : K) :
    Option (Shape (K × V)) → Option (Shape (K × V)) × List Event
  | none => (none, [])
  | some s =>
    let (path, focus) := s.walk (steerTo cmp key) []
    match search cmp key focus.entries with
    | .absent _ => (some s, [])
    | .found position => take f position path focus

/-- Removes the first entry. -/
def popFirst (f : Fanout) : Option (Shape α) → Option (Shape α) × List Event
  | none => (none, [])
  | some s =>
    let (path, leaf) := s.walk steerLow []
    take f 0 path leaf

/-- Removes the last entry. -/
def popLast (f : Fanout) : Option (Shape α) → Option (Shape α) × List Event
  | none => (none, [])
  | some s =>
    let (path, leaf) := s.walk steerHigh []
    take f (leaf.entries.length - 1) path leaf

theorem shrinks_self {s? : Option (Shape α)} {tall : Nat} (hs : Stands f tall s?) :
    Shrinks f tall (s?, []) := ⟨tall, hs, .inl ⟨rfl, rfl⟩⟩

theorem erase_spec {cmp : K → K → Ordering} [Std.TransCmp cmp] {s? : Option (Shape (K × V))}
    {tall : Nat} (hs : Stands f tall s?) (h : Ascending cmp (contents s?)) (key : K) :
    contents (erase f cmp key s?).1 = Entries.remove cmp key (contents s?) ∧
      Shrinks f tall (erase f cmp key s?) := by
  cases s? with
  | none => exact ⟨rfl, shrinks_self hs⟩
  | some s =>
      obtain ⟨height, rfl, hsound⟩ := hs
      rw [contents_some] at h ⊢
      rcases search_cases hsound.1 h key with
        ⟨path, rest, low, entry, high, rfl, rfl, hlow, hhigh, -, hkey, hwalk, hsearch⟩ |
        ⟨path, low, high, rfl, rfl, -, hsplit, hwalk, hsearch⟩
      · have heq : erase f cmp key (some (plug path (join low entry high))) =
            take f low.entries.length path (join low entry high) := by
          simp only [erase, hwalk, hsearch]
        obtain ⟨hcontents, hshrinks⟩ := take_spec hlow hhigh hsound
        rw [toList_plug_join entry hlow hhigh] at h ⊢
        rw [heq, hcontents, (h.splits hkey).remove_of_eq hkey]
        exact ⟨rfl, hshrinks⟩
      · have heq : erase f cmp key (some (plug path (.node (low ++ high) []))) =
            (some (plug path (.node (low ++ high) [])), []) := by
          simp only [erase, hwalk, entries_node, hsearch]
        rw [heq, contents_some, toList_plug_leaf, hsplit.remove_of_absent]
        exact ⟨rfl, shrinks_self ⟨_, rfl, hsound⟩⟩

theorem popFirst_spec {s? : Option (Shape α)} {tall : Nat} (hs : Stands f tall s?) :
    contents (popFirst f s?).1 = (contents s?).tail ∧ Shrinks f tall (popFirst f s?) := by
  cases s? with
  | none => exact ⟨rfl, shrinks_self hs⟩
  | some s =>
      obtain ⟨height, rfl, hsound⟩ := hs
      obtain ⟨path, entries, rfl, rfl, hpath, hwalk⟩ := exists_walk_low hsound.1
      rw [← Nat.zero_add path.length] at hsound ⊢
      obtain ⟨-, hsize, -⟩ := sound_plug.mp hsound
      obtain ⟨first, entries, rfl⟩ := List.exists_cons_of_length_pos hsize.root.1
      have hjoin : node (first :: entries) [] = join (node [] []) first (node entries []) := rfl
      have heq : popFirst f (some (plug path (.node (first :: entries) []))) =
          take f (node [] [] : Shape α).entries.length path
            (join (node [] []) first (node entries [])) := by
        simp only [popFirst, hwalk, List.append_nil]
        rfl
      have hlow : (node [] [] : Shape α).Regular f 0 := rfl
      have hhigh : (node entries [] : Shape α).Regular f 0 := rfl
      rw [hjoin] at hsound
      obtain ⟨hcontents, hshrinks⟩ := take_spec hlow hhigh hsound
      rw [heq, hcontents]
      refine ⟨?_, hshrinks⟩
      rw [contents_some, toList_plug, leads_of_steered hpath]
      simp only [toList_node, interleave_nil, List.nil_append, List.cons_append, List.tail_cons]

theorem popLast_spec {s? : Option (Shape α)} {tall : Nat} (hs : Stands f tall s?) :
    contents (popLast f s?).1 = (contents s?).dropLast ∧ Shrinks f tall (popLast f s?) := by
  cases s? with
  | none => exact ⟨rfl, shrinks_self hs⟩
  | some s =>
      obtain ⟨height, rfl, hsound⟩ := hs
      obtain ⟨path, entries, rfl, rfl, hpath, hwalk⟩ := exists_walk_high hsound.1
      rw [← Nat.zero_add path.length] at hsound ⊢
      obtain ⟨-, hsize, -⟩ := sound_plug.mp hsound
      obtain ⟨entries, last, rfl⟩ := exists_concat hsize.root.1
      have heq : popLast f (some (plug path (.node (entries ++ [last]) []))) =
          take f (node entries [] : Shape α).entries.length path
            (join (node entries []) last (node [] [])) := by
        simp only [popLast, hwalk, List.append_nil]
        simp [join]
      have hlow : (node entries [] : Shape α).Regular f 0 := rfl
      have hhigh : (node [] [] : Shape α).Regular f 0 := rfl
      have hjoin : node (entries ++ [last]) [] = join (node entries []) last (node [] []) := rfl
      rw [hjoin] at hsound
      obtain ⟨hcontents, hshrinks⟩ := take_spec hlow hhigh hsound
      rw [heq, hcontents]
      refine ⟨?_, hshrinks⟩
      rw [contents_some, toList_plug, trails_of_steered hpath]
      simp only [toList_node, interleave_nil, List.append_nil]
      rw [← List.append_assoc, List.dropLast_concat]

end Shape

end Multiway
