import Multiway.Arena.Node
import Multiway.Proofs.Entries
import Multiway.Proofs.Shape.Regular

/-!
Going down in a shape.

Every way down a tree looks at the entries of a node and at nothing else in order to choose the next
child: a search goes to the gap of its key, the way to the first entry takes the first gap, the way
to the last entry the last one. So there is one descent, `walk`, with the choice as a parameter, and
one theorem about it: the walk ends where the choice gives up or in a leaf, and every gap on the
path is the chosen one of its node.

For a search this says all that is needed: a gap that is chosen for a key cuts the entries of its
node at the key, and since the entries of the whole shape ascend, the path as a whole cuts them too.
-/

namespace Multiway

variable {α K V : Type} {f : Fanout} {height : Nat}

namespace Shape

/-- Goes down from child to child while `steer` chooses a gap, and answers the path and where it
ends. -/
def walk (steer : List α → Option Nat) (path : List (Gap α (Shape α))) :
    Shape α → List (Gap α (Shape α)) × Shape α
  | .node entries children =>
    match steer entries with
    | none => (path, .node entries children)
    | some position =>
      match _h : children[position]? with
      | none => (path, .node entries children)
      | some child => child.walk steer (Gap.ofPosition position entries children :: path)
termination_by s => s
decreasing_by
  have := List.mem_of_getElem? _h
  decreasing_tactic

/-- Every gap of a path is the one that was chosen. -/
def Steered (steer : List α → Option Nat) (path : List (Gap α (Shape α))) : Prop :=
  ∀ g ∈ path, steer g.entries = some g.position

theorem walk_node (steer : List α → Option Nat) (path : List (Gap α (Shape α)))
    (entries : List α) (children : List (Shape α)) :
    walk steer path (.node entries children) =
      match steer entries with
      | none => (path, .node entries children)
      | some position =>
        match children[position]? with
        | none => (path, .node entries children)
        | some child => walk steer (Gap.ofPosition position entries children :: path) child := by
  rw [walk]
  cases steer entries with
  | none => rfl
  | some position =>
      dsimp only
      split <;> simp_all

/-- A walk through a regular shape cuts it into a path of chosen gaps and the rest, and stops only
where nothing is chosen or in a leaf. -/
theorem exists_walk {steer : List α → Option Nat}
    (hsteer : ∀ entries position, steer entries = some position → position ≤ entries.length)
    {s : Shape α} (hs : s.Regular f height) :
    ∃ path rest focus, height = rest + path.length ∧ plug path focus = s ∧
      focus.Regular f rest ∧ Steered steer path ∧ (steer focus.entries = none ∨ rest = 0) ∧
      ∀ up, walk steer up s = (path ++ up, focus) := by
  -- On the height, since a chosen child is as regular as its node but one level lower.
  induction height generalizing s with
  | zero =>
      refine ⟨[], 0, s, rfl, rfl, hs, by simp [Steered], .inr rfl, fun up => ?_⟩
      obtain ⟨entries, children⟩ := s
      rw [Regular, children_node] at hs
      subst hs
      rw [walk_node]
      cases steer entries <;> rfl
  | succ height ih =>
      obtain ⟨entries, children⟩ := s
      cases hchoice : steer entries with
      | none =>
          refine ⟨[], height + 1, .node entries children, rfl, rfl, hs, by simp [Steered],
            .inl hchoice, fun up => ?_⟩
          rw [walk_node, hchoice]
          rfl
      | some position =>
          have hlength := hs.1
          have hle := hsteer entries position hchoice
          rw [children_node, entries_node] at hlength
          obtain ⟨child, hchild⟩ : ∃ child, children[position]? = some child :=
            ⟨children[position], List.getElem?_eq_getElem (by omega)⟩
          obtain ⟨hentries, haround, hposition⟩ := Gap.ofPosition_eq hlength hchild
          obtain ⟨path, rest, focus, hheight, hplug, hfocus, hpath, hstop, hwalk⟩ :=
            ih (hs.2 child (List.mem_of_getElem? hchild)).1
          refine ⟨path ++ [Gap.ofPosition position entries children], rest, focus, ?_, ?_, hfocus,
            ?_, hstop, fun up => ?_⟩
          · rw [hheight, List.length_append, List.length_singleton, Nat.add_assoc]
          · rw [plug_append, hplug, plug, plug, fill, hentries, haround]
          · intro g hg
            rcases List.mem_append.mp hg with hg | hg
            · exact hpath g hg
            · rw [List.mem_singleton.mp hg, hentries, hposition, hchoice]
          · rw [walk_node, hchoice]
            dsimp only
            rw [hchild, List.append_assoc]
            exact hwalk _

/-! ### The two edges -/

/-- The way to the first entry. -/
def steerLow (_ : List α) : Option Nat := some 0

/-- The way to the last entry. -/
def steerHigh (entries : List α) : Option Nat := some entries.length

theorem leads_of_steered {path : List (Gap α (Shape α))} (h : Steered steerLow path) :
    leads path = [] := by
  induction path with
  | nil => rfl
  | cons g path ih =>
      have hposition : g.before.length = 0 := (Option.some.inj (h g (by simp))).symm
      rw [leads, ih fun g' hg' => h g' (List.mem_cons_of_mem g hg'), lead,
        List.length_eq_zero_iff.mp hposition]
      rfl

theorem trails_of_steered {path : List (Gap α (Shape α))} (h : Steered steerHigh path) :
    trails path = [] := by
  induction path with
  | nil => rfl
  | cons g path ih =>
      have hposition : g.entries.length = g.before.length := Option.some.inj (h g (by simp))
      rw [Gap.length_entries] at hposition
      have hbehind : g.behind.length = 0 := by omega
      rw [trails, ih fun g' hg' => h g' (List.mem_cons_of_mem g hg'), trail,
        List.length_eq_zero_iff.mp hbehind]
      rfl

/-- A way that is chosen everywhere ends in a leaf. -/
theorem exists_walk_leaf {steer : List α → Option Nat}
    (hsteer : ∀ entries, ∃ position, steer entries = some position ∧ position ≤ entries.length)
    {s : Shape α} (hs : s.Regular f height) :
    ∃ path entries, height = path.length ∧ plug path (.node entries []) = s ∧
      Steered steer path ∧ ∀ up, walk steer up s = (path ++ up, .node entries []) := by
  have hle (entries : List α) (position : Nat) (h : steer entries = some position) :
      position ≤ entries.length := by
    obtain ⟨position', hposition', hle⟩ := hsteer entries
    rw [hposition'] at h
    rwa [← Option.some.inj h]
  obtain ⟨path, rest, focus, hheight, hplug, hfocus, hpath, hstop, hwalk⟩ := exists_walk hle hs
  have hleaf : rest = 0 := by
    apply hstop.resolve_left
    obtain ⟨position, hposition, -⟩ := hsteer focus.entries
    rw [hposition]
    exact Option.some_ne_none position
  subst hleaf
  obtain ⟨entries, children⟩ := focus
  rw [Regular, children_node] at hfocus
  subst hfocus
  exact ⟨path, entries, by omega, hplug, hpath, hwalk⟩

theorem exists_walk_low {s : Shape α} (hs : s.Regular f height) :
    ∃ path entries, height = path.length ∧ plug path (.node entries []) = s ∧
      Steered steerLow path ∧ ∀ up, walk steerLow up s = (path ++ up, .node entries []) :=
  exists_walk_leaf (fun _ => ⟨0, rfl, Nat.zero_le _⟩) hs

theorem exists_walk_high {s : Shape α} (hs : s.Regular f height) :
    ∃ path entries, height = path.length ∧ plug path (.node entries []) = s ∧
      Steered steerHigh path ∧ ∀ up, walk steerHigh up s = (path ++ up, .node entries []) :=
  exists_walk_leaf (fun entries => ⟨entries.length, rfl, Nat.le_refl _⟩) hs

/-! ### Searching -/

variable {cmp : K → K → Ordering} {key : K}

/-- The place of a key among the entries of a node. -/
def search (cmp : K → K → Ordering) (key : K) (entries : List (K × V)) : Place :=
  Node.search cmp key ({ entries } : Node K V)

/-- A search goes on in the gap of its key, and nowhere once the key is found. -/
def steerTo (cmp : K → K → Ordering) (key : K) (entries : List (K × V)) : Option Nat :=
  match search cmp key entries with
  | .found _ => none
  | .absent position => some position

/-- The first entry that is not below a key decides. -/
theorem search_append {low rest : List (K × V)} (hlow : ∀ entry ∈ low, cmp entry.1 key = .lt)
    (hrest : ∀ entry ∈ rest.head?, cmp entry.1 key ≠ .lt) :
    search cmp key (low ++ rest) =
      match rest.head? with
      | some entry => if cmp entry.1 key = .eq then .found low.length else .absent low.length
      | none => .absent low.length := by
  have hbelow : low.findIdx (fun entry => cmp entry.1 key != .lt) = low.length := by
    rw [List.findIdx_eq_length]
    intro entry hentry
    simp [hlow entry hentry]
  have hhead : rest.findIdx (fun entry => cmp entry.1 key != .lt) = 0 := by
    cases rest with
    | nil => rfl
    | cons entry rest =>
        have hentry := hrest entry rfl
        rw [List.findIdx_cons, bne_iff_ne.mpr hentry, cond_true]
  have hposition : (low ++ rest).findIdx (fun entry => cmp entry.1 key != .lt) = low.length := by
    rw [List.findIdx_append, hbelow, hhead, if_neg (Nat.lt_irrefl _), Nat.zero_add]
  have hget : (low ++ rest)[low.length]? = rest.head? := by
    rw [List.getElem?_append_right (Nat.le_refl _), Nat.sub_self, List.head?_eq_getElem?]
  cases rest with
  | nil => simp only [search, Node.search, hposition, hget, List.head?_nil]
  | cons entry rest => simp only [search, Node.search, hposition, hget, List.head?_cons]

theorem search_of_splits {low high : List (K × V)} (h : Splits cmp key low high) :
    search cmp key (low ++ high) = .absent low.length := by
  have hhigh : ∀ entry ∈ high.head?, cmp entry.1 key = .gt :=
    fun entry hentry => h.above entry (List.mem_of_mem_head? hentry)
  rw [search_append h.below fun entry hentry => by simp [hhigh entry hentry]]
  cases high with
  | nil => rfl
  | cons entry high =>
      show (if _ then _ else _) = _
      rw [hhigh entry rfl, if_neg (by decide)]

theorem search_of_eq {low high : List (K × V)} {entry : K × V} (h : Splits cmp key low high)
    (hkey : cmp entry.1 key = .eq) :
    search cmp key (low ++ entry :: high) = .found low.length := by
  rw [search_append h.below fun _ hentry => by simp [← Option.some.inj hentry, hkey]]
  exact if_pos hkey

theorem search_of_steerTo {entries : List (K × V)} {position : Nat}
    (h : steerTo cmp key entries = some position) :
    search cmp key entries = .absent position := by
  rw [steerTo] at h
  split at h
  · contradiction
  · next found hsearch =>
    obtain rfl := Option.some.inj h
    exact hsearch

theorem steerTo_le (entries : List (K × V)) (position : Nat)
    (h : steerTo cmp key entries = some position) : position ≤ entries.length := by
  have hindex : (search cmp key entries).position =
      entries.findIdx fun entry => cmp entry.1 key != .lt := by
    simp only [search, Node.search]
    split
    · split <;> rfl
    · rfl
  rw [search_of_steerTo h] at hindex
  exact (show position = _ from hindex) ▸ List.findIdx_le_length

theorem steerTo_splits [Std.TransCmp cmp] {entries : List (K × V)} {position : Nat}
    (h : Ascending cmp entries) (hsteer : steerTo cmp key entries = some position) :
    Splits cmp key (entries.take position) (entries.drop position) := by
  rcases h.split_cases key with ⟨low, entry, high, rfl, hkey, hsplit⟩ | ⟨low, high, rfl, hsplit⟩
  · rw [steerTo, search_of_eq hsplit hkey] at hsteer
    contradiction
  · rw [steerTo, search_of_splits hsplit] at hsteer
    obtain rfl := Option.some.inj hsteer
    rwa [List.take_left, List.drop_left]

/-- An entry of what stands in a gap finds the gap. -/
theorem splits_of_mem [Std.TransCmp cmp] {g : Gap (K × V) (Shape (K × V))} {s : Shape (K × V)}
    {entry : K × V} (h : Ascending cmp (fill g s).toList) (hmem : entry ∈ s.toList) :
    Splits cmp entry.1 g.low g.high := by
  rw [toList_fill] at h
  obtain ⟨hleft, -, hright⟩ := List.pairwise_append.mp h
  refine ⟨fun left hlow => ?_, fun right hhigh => ?_⟩
  · exact (List.pairwise_append.mp hleft).2.2 left ((low_sublist_lead g).subset hlow) entry hmem
  · exact Std.OrientedCmp.gt_of_lt (hright entry (List.mem_append.mpr (.inr hmem)) right
      ((high_sublist_trail g).subset hhigh))

/-- What stands in front of an entry that is below a key is below it too, and likewise above. -/
theorem splits_lead_trail [Std.TransCmp cmp] {g : Gap (K × V) (Shape (K × V))}
    {entries : List (K × V)} (h : Ascending cmp (lead g ++ entries ++ trail g))
    (hsplit : Splits cmp key g.low g.high) : Splits cmp key (lead g) (trail g) := by
  obtain ⟨hleft, htrail, -⟩ := List.pairwise_append.mp h
  have hlead := (List.pairwise_append.mp hleft).1
  -- From here on each side is on its own, and its pairs are taken off the far end of the list.
  clear h hleft
  obtain ⟨before, behind⟩ := g
  refine ⟨?_, ?_⟩
  · induction before with
    | nil => simp [lead]
    | cons pair before ih =>
        obtain ⟨child, entry⟩ := pair
        have hcons : lead ⟨(child, entry) :: before, behind⟩ =
            lead ⟨before, behind⟩ ++ (child.toList ++ [entry]) := by
          simp [lead]
        have hentry : cmp entry.1 key = .lt := hsplit.below entry (by simp [Gap.low])
        rw [hcons] at hlead ⊢
        intro left hleft
        rcases List.mem_append.mp hleft with hleft | hleft
        · exact Std.TransCmp.lt_trans
            ((List.pairwise_append.mp hlead).2.2 left hleft entry (by simp)) hentry
        · rcases List.mem_append.mp hleft with hleft | hleft
          · have hchild := (List.pairwise_append.mp hlead).2.1
            exact Std.TransCmp.lt_trans
              ((List.pairwise_append.mp hchild).2.2 left hleft entry (by simp)) hentry
          · rwa [List.mem_singleton.mp hleft]
  · induction behind with
    | nil => simp [trail]
    | cons pair behind ih =>
        obtain ⟨entry, child⟩ := pair
        have hentry : cmp entry.1 key = .gt := hsplit.above entry (by simp [Gap.high])
        have habove (right : K × V) (hright : cmp entry.1 right.1 = .lt) :
            cmp right.1 key = .gt :=
          Std.TransCmp.gt_trans (Std.OrientedCmp.gt_of_lt hright) hentry
        intro right hright
        rcases List.mem_cons.mp hright with rfl | hright
        · exact hentry
        · exact habove right ((List.pairwise_cons.mp htrail).1 right hright)

/-- The path of a search cuts the entries at the key. -/
theorem splits_of_steered [Std.TransCmp cmp] {path : List (Gap (K × V) (Shape (K × V)))}
    {s : Shape (K × V)} (h : Ascending cmp (plug path s).toList)
    (hpath : Steered (steerTo cmp key) path) : Splits cmp key (leads path) (trails path) := by
  induction path generalizing s with
  | nil => exact ⟨by simp [leads], by simp [trails]⟩
  | cons g path ih =>
      -- The nodes above are cut by the rest of the path, this node by the gap that was chosen.
      have houter := ih h fun g' hg' => hpath g' (List.mem_cons_of_mem g hg')
      rw [plug, toList_plug, toList_fill] at h
      have hinner : Ascending cmp (lead g ++ s.toList ++ trail g) :=
        (List.pairwise_append.mp (List.pairwise_append.mp h).1).2.1
      have hentries : Ascending cmp g.entries := by
        refine List.Pairwise.sublist ?_ hinner
        rw [List.append_assoc]
        exact (low_sublist_lead g).append ((high_sublist_trail g).trans
          (List.sublist_append_right _ _))
      have hsplit := steerTo_splits hentries (hpath g (by simp))
      rw [Gap.entries, ← Gap.length_low, List.take_left, List.drop_left] at hsplit
      exact houter.append (splits_lead_trail hinner hsplit)

/-- The way to an entry is the way that a search for its key takes. -/
theorem steered_of_mem [Std.TransCmp cmp] {path : List (Gap (K × V) (Shape (K × V)))}
    {s : Shape (K × V)} {entry : K × V} (h : Ascending cmp (plug path s).toList)
    (hmem : entry ∈ s.toList) : Steered (steerTo cmp entry.1) path := by
  induction path generalizing s with
  | nil => exact nofun
  | cons g path ih =>
      have hinner : Ascending cmp (fill g s).toList := by
        rw [plug, toList_plug] at h
        exact (List.pairwise_append.mp (List.pairwise_append.mp h).1).2.1
      have hup : entry ∈ (fill g s).toList := by
        rw [toList_fill]
        exact List.mem_append_left _ (List.mem_append_right _ hmem)
      have hgap : steerTo cmp entry.1 g.entries = some g.position := by
        rw [steerTo, Gap.entries, search_of_splits (splits_of_mem hinner hmem), Gap.length_low]
      exact List.forall_mem_cons.mpr ⟨hgap, ih h hup⟩

/-- A search ends at an entry that has the key, with the rest of its node left and right of it, or
in a leaf at the place where the key would stand among all entries. -/
theorem search_cases [Std.TransCmp cmp] {s : Shape (K × V)} (hs : s.Regular f height)
    (h : Ascending cmp s.toList) (key : K) :
    (∃ path rest low entry high, height = rest + path.length ∧
        plug path (join low entry high) = s ∧ low.Regular f rest ∧ high.Regular f rest ∧
        Steered (steerTo cmp key) path ∧ cmp entry.1 key = .eq ∧
        s.walk (steerTo cmp key) [] = (path, join low entry high) ∧
        search cmp key (join low entry high).entries = .found low.entries.length) ∨
      ∃ path low high, height = path.length ∧ plug path (.node (low ++ high) []) = s ∧
        Steered (steerTo cmp key) path ∧ Splits cmp key (leads path ++ low) (high ++ trails path) ∧
        s.walk (steerTo cmp key) [] = (path, .node (low ++ high) []) ∧
        search cmp key (low ++ high) = .absent low.length := by
  obtain ⟨path, rest, focus, hheight, rfl, hfocus, hpath, hstop, hwalk⟩ :=
    exists_walk (fun entries position => steerTo_le entries position) hs
  specialize hwalk []
  rw [List.append_nil] at hwalk
  have hentries : Ascending cmp focus.entries := by
    rw [toList_plug] at h
    exact (List.pairwise_append.mp (List.pairwise_append.mp h).1).2.1.sublist
      (entries_sublist_toList focus)
  rcases hentries.split_cases key with ⟨low, entry, high, hfound, hkey, hsplit⟩ |
    ⟨low, high, hfound, hsplit⟩
  · have hsearch := search_of_eq hsplit hkey
    have hmiddle : low.length < focus.entries.length := by
      rw [hfound, List.length_append, List.length_cons]
      omega
    obtain ⟨near, median, far, -, hjoin, hnear, hfar, hlength, -⟩ := exists_cut hfocus hmiddle
    have hparts : near.entries ++ median :: far.entries = low ++ entry :: high := by
      rw [← hfound, ← hjoin]
      rfl
    obtain ⟨hlow, hrest⟩ := List.append_inj hparts hlength
    obtain ⟨rfl, -⟩ := List.cons.inj hrest
    refine .inl ⟨path, rest, near, median, far, hheight, ?_, hnear, hfar, hpath, hkey, ?_, ?_⟩
    · rw [hjoin]
    · rw [hjoin, hwalk]
    · rw [hjoin, hfound, hlow, hsearch]
  · have hsearch := search_of_splits hsplit
    have hleaf : rest = 0 := by
      apply hstop.resolve_left
      rw [hfound, steerTo, hsearch]
      exact Option.some_ne_none _
    subst hleaf
    obtain ⟨entries, children⟩ := focus
    rw [entries_node] at hfound
    rw [Regular, children_node] at hfocus
    subst hfound hfocus
    refine .inr ⟨path, low, high, by omega, rfl, hpath, ?_, hwalk, hsearch⟩
    exact (splits_of_steered h hpath).append hsplit

end Shape

end Multiway
