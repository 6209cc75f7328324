import Multiway.Event
import Multiway.Proofs.Shape.Descent

/-!
Storing an entry in a shape.

These functions say what storing does to a tree when the numbers of its nodes are forgotten: which
nodes are cut and where the parts go. A value is exchanged in place. A new entry goes into a leaf,
and `relieve` then cuts the node at the end of a path while it is too full, pushing the entry between
the parts into the node above.

Two things are shown of `relieve`: it leaves a sound shape whatever path it works on, as long as
nothing but the number of entries was wrong, and it keeps the entries in their order. The order of
the keys plays no part in either.
-/

namespace Multiway

variable {α K V : Type} {f : Fanout} {height : Nat}

/-! ### Trees as shapes

A tree without entries has no shape. What is said of shapes extends to this case. -/

namespace Shape

/-- The entries of a tree that has this shape. -/
def contents (s? : Option (Shape α)) : List α := (s?.map toList).getD []

/-- The number of levels of a tree that has this shape. -/
def tall (s? : Option (Shape α)) : Nat := (s?.map levels).getD 0

/-- A tree of this shape is empty or has a sound shape with as many levels. -/
def Stands (f : Fanout) : Nat → Option (Shape α) → Prop
  | tall, none => tall = 0
  | tall, some s => ∃ height, tall = height + 1 ∧ s.Sound f height

@[simp] theorem contents_some (s : Shape α) : contents (some s) = s.toList := rfl

theorem tall_eq {s? : Option (Shape α)} {tall' : Nat} (h : Stands f tall' s?) :
    tall s? = tall' := by
  cases s? with
  | none => exact h.symm
  | some s =>
      obtain ⟨height, rfl, hsound⟩ := h
      exact levels_eq hsound.1.level

/-! ### Exchanging an entry -/

/-- Puts another entry into a position of the topmost node. -/
def swap (position : Nat) (entry : α) (s : Shape α) : Shape α :=
  .node (s.entries.set position entry) s.children

theorem swap_join (low : Shape α) (median entry : α) (high : Shape α) :
    swap low.entries.length entry (join low median high) = join low entry high := by
  simp [swap, join]

theorem getElem?_join (low : Shape α) (median : α) (high : Shape α) :
    (join low median high).entries[low.entries.length]? = some median := by
  simp [join]

theorem toList_plug_join {path : List (Gap α (Shape α))} {low high : Shape α} (entry : α)
    (hlow : low.Regular f height) (hhigh : high.Regular f height) :
    (plug path (join low entry high)).toList =
      (leads path ++ low.toList) ++ entry :: (high.toList ++ trails path) := by
  rw [toList_plug, toList_join entry hlow hhigh]
  simp

theorem toList_plug_leaf (path : List (Gap α (Shape α))) (low high : List α) :
    (plug path (.node (low ++ high) [])).toList =
      (leads path ++ low) ++ (high ++ trails path) := by
  rw [toList_plug, toList_node, interleave_nil]
  simp

/-- What an entry is does not matter to the shape around it. -/
theorem sound_plug_join {path : List (Gap α (Shape α))} {low high : Shape α} {entry : α}
    (hlow : low.Regular f height) (hhigh : high.Regular f height) (new : α)
    (h : (plug path (join low entry high)).Sound f (height + path.length)) :
    (plug path (join low new high)).Sound f (height + path.length) := by
  obtain ⟨-, hsize, hpath⟩ := sound_plug.mp h
  refine sound_plug.mpr ⟨regular_join new hlow hhigh, ?_, hpath⟩
  simpa [join] using hsize

/-- Changes the value of the entry that has a key. -/
def revise (cmp : K → K → Ordering) (key : K) (change : V → V) (s : Shape (K × V)) :
    Shape (K × V) :=
  let (path, focus) := s.walk (steerTo cmp key) []
  match search cmp key focus.entries with
  | .absent _ => s
  | .found position =>
    match focus.entries[position]? with
    | none => s
    | some (stored, old) => plug path (focus.swap position (stored, change old))

section revise

variable {cmp : K → K → Ordering} [Std.TransCmp cmp] {s : Shape (K × V)}

theorem revise_spec (hs : s.Sound f height) (h : Ascending cmp s.toList) (key : K)
    (change : V → V) :
    (revise cmp key change s).Sound f height ∧
      (revise cmp key change s).toList = Entries.revise cmp key change s.toList := by
  rcases search_cases hs.1 h key with
    ⟨path, rest, low, entry, high, rfl, rfl, hlow, hhigh, -, hkey, hwalk, hsearch⟩ |
    ⟨path, low, high, rfl, rfl, -, hsplit, hwalk, hsearch⟩
  · have heq : revise cmp key change (plug path (join low entry high)) =
        plug path (join low (entry.1, change entry.2) high) := by
      simp only [revise, hwalk, hsearch, getElem?_join, swap_join]
    rw [heq]
    refine ⟨sound_plug_join hlow hhigh _ hs, ?_⟩
    rw [toList_plug_join entry hlow hhigh] at h ⊢
    rw [toList_plug_join _ hlow hhigh, (h.splits hkey).revise_of_eq hkey]
  · have heq : revise cmp key change (plug path (.node (low ++ high) [])) =
        plug path (.node (low ++ high) []) := by
      simp only [revise, hwalk, entries_node, hsearch]
    rw [heq, toList_plug_leaf, hsplit.revise_of_absent]
    exact ⟨hs, rfl⟩

end revise

/-! ### Cutting nodes that are too full -/

/-- Cuts the shape at the end of a path if it is too full, then the node above, and so on. -/
def relieve (f : Fanout) : List (Gap α (Shape α)) → Shape α → Shape α × List Event
  | path, s =>
    if s.entries.length ≤ f.mostEntries then (plug path s, [])
    else
      match s.cut f.middle with
      | none => (plug path s, [])
      | some (low, median, high) =>
        match path with
        | [] => (.node [median] [low, high], [.rootSplit (low.levels + 1)])
        | g :: path => relieve f path (fill ⟨(low, median) :: g.before, g.behind⟩ high)

section relieve

variable {path : List (Gap α (Shape α))} {g : Gap α (Shape α)} {s low high : Shape α} {median : α}

theorem relieve_of_le (h : s.entries.length ≤ f.mostEntries) :
    relieve f path s = (plug path s, []) := by
  cases path <;> rw [relieve, if_pos h]

theorem relieve_nil (h : ¬ s.entries.length ≤ f.mostEntries)
    (hcut : s.cut f.middle = some (low, median, high)) :
    relieve f [] s = (.node [median] [low, high], [.rootSplit (low.levels + 1)]) := by
  rw [relieve, if_neg h, hcut]

theorem relieve_cons (h : ¬ s.entries.length ≤ f.mostEntries)
    (hcut : s.cut f.middle = some (low, median, high)) :
    relieve f (g :: path) s = relieve f path (fill ⟨(low, median) :: g.before, g.behind⟩ high) := by
  rw [relieve, if_neg h, hcut]

/-- A node that is too full by one entry is cut into two parts that are allowed everywhere. -/
theorem exists_cut_middle (hs : s.Regular f height) (hsize : s.entries.length = f.order) :
    ∃ low median high, s.cut f.middle = some (low, median, high) ∧ join low median high = s ∧
      (low.Regular f height ∧ f.Allows false low.entries.length) ∧
      (high.Regular f height ∧ f.Allows false high.entries.length) := by
  have := f.three_le
  have hmiddle : f.middle < s.entries.length := by
    rw [hsize, Fanout.middle]
    omega
  obtain ⟨low, median, high, hcut, hjoin, hlow, hhigh, hlength, hlength'⟩ := exists_cut hs hmiddle
  refine ⟨low, median, high, hcut, hjoin, ⟨hlow, ?_⟩, ⟨hhigh, ?_⟩⟩ <;>
    simp only [Fanout.Allows, Fanout.fewestEntries, Fanout.mostEntries, Fanout.middle,
      Bool.false_eq_true, if_false] at hlength hlength' ⊢ <;>
    omega

/-- The parts of a cut take their places left and right of a new entry above. -/
theorem regular_fill_cut
    (hsides : ∀ child ∈ g.around [], child.Regular f height ∧ f.Allows false child.entries.length)
    (hlow : low.Regular f height ∧ f.Allows false low.entries.length)
    (hhigh : high.Regular f height ∧ f.Allows false high.entries.length) :
    (fill ⟨(low, median) :: g.before, g.behind⟩ high).Regular f (height + 1) :=
  regular_fill.mpr ⟨forall_mem_around_before.mpr ⟨hlow, hsides⟩, hhigh⟩

/-- Relieving a shape that is regular but for one entry too many makes the whole sound and keeps
its entries. The tree grows a level just when this is told. -/
theorem relieve_spec (hs : s.Regular f height) (hpath : RegularPath f height path)
    (hleast : (if path.isEmpty then 1 else f.fewestEntries) ≤ s.entries.length)
    (hmost : s.entries.length ≤ f.order) :
    (relieve f path s).1.toList = (plug path s).toList ∧
      (((relieve f path s).1.Sound f (height + path.length) ∧ (relieve f path s).2 = []) ∨
        (relieve f path s).1.Sound f (height + path.length + 1) ∧
          (relieve f path s).2 = [.rootSplit (height + path.length + 2)]) := by
  have hthree := f.three_le
  -- A cut hands one entry up, so the node above is again regular but for one entry too many.
  induction path generalizing height s with
  | nil =>
      by_cases hfits : s.entries.length ≤ f.mostEntries
      · rw [relieve_of_le hfits]
        exact ⟨rfl, .inl ⟨⟨hs, hleast, hfits⟩, rfl⟩⟩
      · have hfull := hfits
        rw [Fanout.mostEntries] at hfull
        obtain ⟨low, median, high, hcut, rfl, hlow, hhigh⟩ := exists_cut_middle hs (by omega)
        rw [relieve_nil hfits hcut, levels_eq hlow.1.level]
        refine ⟨?_, .inr ⟨⟨⟨rfl, ?_⟩, ?_⟩, rfl⟩⟩
        · rw [plug, toList_join median hlow.1 hhigh.1]
          simp [toList, interleave]
        · simp only [children_node, List.mem_cons, List.not_mem_nil, or_false, forall_eq_or_imp,
            forall_eq]
          exact ⟨hlow, hhigh⟩
        · simp only [Fanout.Allows, Fanout.mostEntries, entries_node, List.length_singleton,
            if_true]
          omega
  | cons g path ih =>
      obtain ⟨hsides, hsize, hrest⟩ := hpath
      by_cases hfits : s.entries.length ≤ f.mostEntries
      · rw [relieve_of_le hfits]
        exact ⟨rfl, .inl ⟨sound_plug.mpr ⟨hs, ⟨hleast, hfits⟩, hsides, hsize, hrest⟩, rfl⟩⟩
      · have hfull := hfits
        rw [Fanout.mostEntries] at hfull
        obtain ⟨low, median, high, hcut, rfl, hlow, hhigh⟩ := exists_cut_middle hs (by omega)
        have hentries : (fill ⟨(low, median) :: g.before, g.behind⟩ high).entries.length =
            g.entries.length + 1 := by
          simp only [entries_fill, Gap.length_entries, List.length_cons]
          omega
        have hsum : height + (g :: path).length = height + 1 + path.length := by
          rw [List.length_cons]
          omega
        have hfill : (fill ⟨(low, median) :: g.before, g.behind⟩ high).Regular f (height + 1) :=
          regular_fill_cut hsides hlow hhigh
        obtain ⟨htoList, hsound⟩ := ih hfill hrest
          (by rw [hentries]; exact Nat.le_succ_of_le hsize.1)
          (by have := hsize.2; rw [Fanout.mostEntries] at this; rw [hentries]; omega)
        rw [relieve_cons hfits hcut, hsum]
        refine ⟨?_, hsound⟩
        rw [htoList, plug, toList_plug, toList_plug, toList_fill_before hlow.1 hhigh.1]

end relieve

/-! ### Storing a value -/

/-- Stores a value under a key. -/
def put (f : Fanout) (cmp : K → K → Ordering) (key : K) (value : V) :
    Option (Shape (K × V)) → Shape (K × V) × List Event
  | none => (.node [(key, value)] [], [])
  | some s =>
    let (path, focus) := s.walk (steerTo cmp key) []
    match search cmp key focus.entries with
    | .found _ => (revise cmp key (fun _ => value) s, [])
    | .absent position =>
      relieve f path (.node (focus.entries.insertIdx position (key, value)) focus.children)

/-- Storing an entry does to the shape what it does to the list, and it adds at most a level, which
is told unless it is the first one. -/
theorem put_spec {cmp : K → K → Ordering} [Std.TransCmp cmp] {s? : Option (Shape (K × V))}
    {tall : Nat} (hs : Stands f tall s?) (h : Ascending cmp (contents s?)) (key : K) (value : V) :
    (put f cmp key value s?).1.toList = Entries.store cmp key value (contents s?) ∧
      ∃ tall', Stands f tall' (some (put f cmp key value s?).1) ∧
        ((tall' = max tall 1 ∧ (put f cmp key value s?).2 = []) ∨
          0 < tall ∧ tall' = tall + 1 ∧ (put f cmp key value s?).2 = [.rootSplit (tall + 1)]) := by
  have hthree := f.three_le
  cases s? with
  | none =>
      obtain rfl : tall = 0 := hs
      refine ⟨rfl, 1, ⟨0, rfl, rfl, ?_⟩, .inl ⟨rfl, rfl⟩⟩
      simp only [put, Fanout.Allows, Fanout.mostEntries, entries_node, List.length_singleton,
        if_true]
      omega
  | some s =>
      obtain ⟨height, rfl, hsound⟩ := hs
      rw [contents_some] at h ⊢
      rcases search_cases hsound.1 h key with
        ⟨path, rest, low, entry, high, rfl, rfl, hlow, hhigh, -, hkey, hwalk, hsearch⟩ |
        ⟨path, low, high, rfl, rfl, -, hsplit, hwalk, hsearch⟩
      · have heq : put f cmp key value (some (plug path (join low entry high))) =
            (revise cmp key (fun _ => value) (plug path (join low entry high)), []) := by
          simp only [put, hwalk, hsearch]
        obtain ⟨hrevised, hlist⟩ := revise_spec hsound h key fun _ => value
        rw [heq]
        refine ⟨?_, _, ⟨_, rfl, hrevised⟩, .inl ⟨by omega, rfl⟩⟩
        rw [toList_plug_join entry hlow hhigh] at h hlist ⊢
        rw [hlist, (h.splits hkey).store_of_eq hkey, (h.splits hkey).revise_of_eq hkey]
      · have heq : put f cmp key value (some (plug path (.node (low ++ high) []))) =
            relieve f path (.node (low ++ (key, value) :: high) []) := by
          simp only [put, hwalk, entries_node, hsearch, children_node, insertIdx_length_append]
        rw [← Nat.zero_add path.length] at hsound ⊢
        obtain ⟨-, hsize, hpath⟩ := sound_plug.mp hsound
        have hlength : (low ++ (key, value) :: high).length = (low ++ high).length + 1 := by
          simp only [List.length_append, List.length_cons]
          omega
        rw [entries_node] at hsize
        have hleast := hsize.1
        have hmost := hsize.2
        rw [Fanout.mostEntries] at hmost
        obtain ⟨hlist, hresult⟩ := relieve_spec (f := f) (s := .node (low ++ (key, value) :: high) [])
          (show Regular f 0 _ from rfl) hpath (by rw [entries_node]; omega) (by rw [entries_node]; omega)
        rw [heq, hlist]
        refine ⟨?_, ?_⟩
        · rw [toList_plug_leaf, toList_plug_leaf, hsplit.store_of_absent]
          rfl
        · rcases hresult with ⟨hsound, hevents⟩ | ⟨hsound, hevents⟩
          · exact ⟨_, ⟨_, rfl, hsound⟩, .inl ⟨by omega, hevents⟩⟩
          · exact ⟨_, ⟨_, rfl, hsound⟩, .inr ⟨by omega, by omega, hevents⟩⟩

end Shape

end Multiway
