import Multiway.Proofs.Collection.SetAlgebra

/-!
Laws of sets with one comparison.

Sets that are combined in two ways have trees of different layouts, so the laws are shown on ascending
lists, by what is found under a key. What is found in a union is found in the first of its parts that
has something, and from this everything follows as it does for options: parts may be grouped as one
likes, and a part that comes again changes nothing.

Turning two sets round is another matter. The elements of the two unions are the same one by one, as far
as the comparison can tell, but it is the first set that says which of them are kept. The same holds for
intersections. This pairs the elements that two sets have in common, so both intersections have the same
number of elements, and counting goes on from there.
-/

namespace Multiway

/-! ### Lists -/

section lists

variable {K V : Type} {cmp : K → K → Ordering} {entries others more : List (K × V)}

theorem Entries.length_shared_add_length_unshared (cmp : K → K → Ordering)
    (others entries : List (K × V)) :
    (shared cmp others entries).length + (unshared cmp others entries).length = entries.length :=
  (List.length_eq_length_filter_add _).symm

namespace Ascending

theorem shared (h : Ascending cmp entries) (others : List (K × V)) :
    Ascending cmp (Entries.shared cmp others entries) :=
  h.sublist List.filter_sublist

theorem unshared (h : Ascending cmp entries) (others : List (K × V)) :
    Ascending cmp (Entries.unshared cmp others entries) :=
  h.sublist List.filter_sublist

variable [Std.TransCmp cmp]

/-- A list put together from what it shares with another one and what it does not. -/
theorem addAll_shared_unshared (h : Ascending cmp entries) (others : List (K × V)) :
    Entries.addAll cmp (Entries.shared cmp others entries) (Entries.unshared cmp others entries) =
      entries := by
  refine ((h.unshared others).addAll _).eq_of_find? h fun key => ?_
  rw [(h.unshared others).find?_addAll, h.find?_unshared, h.find?_shared]
  cases Entries.find? cmp key others <;> simp

/-- What is shared stays in the union. -/
theorem unshared_addAll_shared (h : Ascending cmp entries) (others : List (K × V)) :
    Entries.unshared cmp (Entries.addAll cmp others entries) (Entries.shared cmp others entries) =
      [] := by
  refine ((h.shared others).unshared _).eq_of_find? .nil fun key => ?_
  rw [(h.shared others).find?_unshared, h.find?_addAll, h.find?_shared]
  cases Entries.find? cmp key entries <;> cases Entries.find? cmp key others <;> rfl

theorem unshared_self (h : Ascending cmp entries) :
    Entries.unshared cmp entries entries = [] := by
  refine (h.unshared entries).eq_of_find? .nil fun key => ?_
  rw [h.find?_unshared]
  cases Entries.find? cmp key entries <;> rfl

theorem addAll_self (h : Ascending cmp entries) : Entries.addAll cmp entries entries = entries := by
  refine (h.addAll entries).eq_of_find? h fun key => ?_
  rw [h.find?_addAll, Option.or_self]

theorem shared_unshared (h : Ascending cmp entries) (others : List (K × V)) :
    Entries.shared cmp others (Entries.unshared cmp others entries) = [] := by
  refine ((h.unshared others).shared _).eq_of_find? .nil fun key => ?_
  rw [(h.unshared others).find?_shared, h.find?_unshared]
  cases Entries.find? cmp key others <;> rfl

/-- Three lists may be joined from either end. -/
theorem addAll_assoc (h : Ascending cmp entries) (h' : Ascending cmp others) (more : List (K × V)) :
    Entries.addAll cmp more (Entries.addAll cmp others entries) =
      Entries.addAll cmp (Entries.addAll cmp more others) entries := by
  refine ((h.addAll others).addAll more).eq_of_find? (h.addAll _) fun key => ?_
  rw [(h.addAll others).find?_addAll, h.find?_addAll, h.find?_addAll, h'.find?_addAll,
    Option.or_assoc]

theorem shared_addAll (h : Ascending cmp entries) (others : List (K × V)) :
    Entries.shared cmp entries (Entries.addAll cmp others entries) = entries := by
  refine ((h.addAll others).shared _).eq_of_find? h fun key => ?_
  rw [(h.addAll others).find?_shared, h.find?_addAll]
  cases Entries.find? cmp key entries <;> rfl

/-- Behind the first list the union has what only the second list has. -/
theorem unshared_addAll (h : Ascending cmp entries) (h' : Ascending cmp others) :
    Entries.unshared cmp entries (Entries.addAll cmp others entries) =
      Entries.unshared cmp entries others := by
  refine ((h.addAll others).unshared _).eq_of_find? (h'.unshared _) fun key => ?_
  rw [(h.addAll others).find?_unshared, h.find?_addAll, h'.find?_unshared]
  cases Entries.find? cmp key entries <;> rfl

/-- Where the same keys are found, the entries match one by one. -/
theorem forall₂_of_isSome (h : Ascending cmp entries) (h' : Ascending cmp others)
    (hfind : ∀ key, (Entries.find? cmp key entries).isSome = (Entries.find? cmp key others).isSome) :
    List.Forall₂ (fun left right => cmp left.1 right.1 = .eq) entries others := by
  refine h.forall₂ (fun _ _ heq => heq) h' (fun entry hentry => ?_) fun entry hentry => ?_
  · have hthere : (Entries.find? cmp entry.1 others).isSome := by
      rw [← hfind, (h.mem_iff_find? entry).mp hentry, Option.isSome_some]
    obtain ⟨found, hfound, hkey⟩ := Entries.find?_isSome_iff.mp hthere
    exact ⟨found, hfound, Std.OrientedCmp.eq_symm hkey⟩
  · have hthere : (Entries.find? cmp entry.1 entries).isSome := by
      rw [hfind, (h'.mem_iff_find? entry).mp hentry, Option.isSome_some]
    exact Entries.find?_isSome_iff.mp hthere

/-- The two unions of two lists match. -/
theorem forall₂_addAll (h : Ascending cmp entries) (h' : Ascending cmp others) :
    List.Forall₂ (fun left right => cmp left.1 right.1 = .eq) (Entries.addAll cmp others entries)
      (Entries.addAll cmp entries others) := by
  refine (h.addAll others).forall₂_of_isSome (h'.addAll entries) fun key => ?_
  rw [h.find?_addAll, h'.find?_addAll, Option.isSome_or, Option.isSome_or, Bool.or_comm]

/-- What one list shares with another matches what the other shares with it. -/
theorem forall₂_shared (h : Ascending cmp entries) (h' : Ascending cmp others) :
    List.Forall₂ (fun left right => cmp left.1 right.1 = .eq) (Entries.shared cmp others entries)
      (Entries.shared cmp entries others) := by
  refine (h.shared others).forall₂_of_isSome (h'.shared entries) fun key => ?_
  rw [h.find?_shared, h'.find?_shared]
  cases Entries.find? cmp key entries <;> cases Entries.find? cmp key others <;> rfl

/-- What is shared is counted once in the union. -/
theorem length_addAll_add_length_shared (h : Ascending cmp entries) (h' : Ascending cmp others) :
    (Entries.addAll cmp others entries).length + (Entries.shared cmp others entries).length =
      entries.length + others.length := by
  have hjoined := Entries.length_shared_add_length_unshared cmp entries
    (Entries.addAll cmp others entries)
  have hothers := Entries.length_shared_add_length_unshared cmp entries others
  -- The union is cut where it meets the first list, the second list where the two overlap.
  rw [h.shared_addAll, h.unshared_addAll h'] at hjoined
  rw [← (h.forall₂_shared h').length_eq] at hothers
  omega

end Ascending

end lists

/-- Entries without values are compared by their keys. -/
theorem beq_map_fst {T : Type} [BEq T] (entries entries' : List (T × Unit)) :
    (entries.map Prod.fst == entries'.map Prod.fst) = (entries == entries') := by
  have hpair (left right : T × Unit) : (left == right) = (left.1 == right.1) := Bool.and_true _
  rw [Bool.eq_iff_iff, beq_iff_forall₂, beq_iff_forall₂, List.forall₂_map_left_iff,
    List.forall₂_map_right_iff]
  simp only [hpair]

/-! ### Sets -/

variable {T : Type} {cmp : T → T → Ordering}

namespace SortedSet

/-- A set that is compared by `cmp` and has these entries. -/
def Keeps (s : SortedSet T) (cmp : T → T → Ordering) (entries : List (T × Unit)) : Prop :=
  ∃ t : Tree T Unit, t.cmp = cmp ∧ s.Has t entries

/-- To compare two sets is to compare their elements in order, and nothing else of them. -/
structure Compares (s u : SortedSet T) : Prop where
  equal : ∀ [BEq T], ∃ elements elements', s.toList = .ok elements ∧ u.toList = .ok elements' ∧
    s.equal u = .ok (elements == elements')
  equal_iff : ∀ [BEq T] [LawfulBEq T], s.equal u = .ok true ↔ s.toList = u.toList

/-- Two sets have the same elements. They are equal if a set is equal to itself at all, as it is when
every element is. -/
structure Coincides (s u : SortedSet T) : Prop where
  toList : ∃ elements, s.toList = .ok elements ∧ u.toList = .ok elements
  size : s.size = u.size
  equal_self : ∀ [BEq T], s.equal u = s.equal s
  equal : ∀ [BEq T] [ReflBEq T], s.equal u = .ok true

/-- The elements of two sets are the same one by one, as far as a comparison can tell. The sets are equal
when elements are that the comparison takes for one. -/
structure Matches (cmp : T → T → Ordering) (s u : SortedSet T) : Prop where
  toList : ∃ elements elements', s.toList = .ok elements ∧ u.toList = .ok elements' ∧
    List.Forall₂ (fun left right => cmp left right = .eq) elements elements'
  equal : ∀ [BEq T], (∀ left right : T, cmp left right = .eq → (left == right) = true) →
    s.equal u = .ok true
  coincides : (∀ left right, cmp left right = .eq → left = right) → s.Coincides u

/-- A set without elements. -/
structure Vacant (s : SortedSet T) : Prop where
  toList : s.toList = .ok []
  size : s.size = 0
  isEmpty : s.isEmpty = true

/-- What comes out when sets with one comparison are combined or compared. -/
structure Laws (cmp : T → T → Ordering) (s s' s'' : SortedSet T) : Prop where
  size : ∃ joined both, s.union s' = .ok joined ∧ s.intersection s' = .ok both ∧
    joined.size + both.size = s.size + s'.size
  union_difference_intersection : ∃ u,
    (do (← s.difference s').union (← s.intersection s')) = .ok u ∧ u.Coincides s
  difference_intersection_union : ∃ u,
    (do (← s.intersection s').difference (← s.union s')) = .ok u ∧ u.Vacant
  difference_self : ∃ u, s.difference s = .ok u ∧ u.Vacant
  union_self : ∃ u, s.union s = .ok u ∧ u.Coincides s
  intersection_difference : ∃ u, (do (← s.difference s').intersection s') = .ok u ∧ u.Vacant
  union_comm : ∃ u v, s.union s' = .ok u ∧ s'.union s = .ok v ∧ u.Matches cmp v
  intersection_comm : ∃ u v, s.intersection s' = .ok u ∧ s'.intersection s = .ok v ∧
    u.Matches cmp v
  /-- It does not matter here what the comparison takes for one. -/
  union_assoc : ∃ u v, (do (← s.union s').union s'') = .ok u ∧
    (do s.union (← s'.union s'')) = .ok v ∧ u.Coincides v
  compares : s.Compares s'

variable {s s' : SortedSet T} {entries entries' : List (T × Unit)}

theorem Reachable.keeps [Std.TransCmp cmp] (h : Reachable cmp s) :
    ∃ entries, s.Keeps cmp entries := by
  obtain ⟨hcmp, entries, hhas⟩ := h.has
  exact ⟨entries, s.tree, hcmp, hhas⟩

namespace Keeps

theorem ascending (h : s.Keeps cmp entries) : Ascending cmp entries := by
  obtain ⟨t, rfl, h⟩ := h
  exact h.ascending

theorem size_eq (h : s.Keeps cmp entries) : s.size = entries.length := by
  obtain ⟨t, -, h⟩ := h
  exact h.size_eq

variable [Std.TransCmp cmp]

theorem toList_eq (h : s.Keeps cmp entries) : s.toList = .ok (entries.map Prod.fst) := by
  obtain ⟨t, rfl, h⟩ := h
  exact h.toList_eq

theorem equal_eq [BEq T] (h : s.Keeps cmp entries) (h' : s'.Keeps cmp entries') :
    s.equal s' = .ok (entries == entries') := by
  obtain ⟨t, rfl, h⟩ := h
  obtain ⟨t', hcmp, h'⟩ := h'
  obtain ⟨l?, hsound, rfl⟩ := h.sound
  obtain ⟨l?', hsound', rfl⟩ := h'.sound
  have := h.alike.transCmp
  have : Std.TransCmp t'.cmp := hcmp ▸ ‹Std.TransCmp t.cmp›
  have := h'.alike.transCmp
  exact hsound.equal_eq hsound'

theorem compares (h : s.Keeps cmp entries) (h' : s'.Keeps cmp entries') : s.Compares s' := by
  have hequal [BEq T] :
      s.equal s' = .ok (entries.map Prod.fst == entries'.map Prod.fst) := by
    rw [h.equal_eq h', beq_map_fst]
  constructor
  case equal => exact ⟨_, _, h.toList_eq, h'.toList_eq, hequal⟩
  case equal_iff =>
    intros
    rw [hequal, h.toList_eq, h'.toList_eq, Except.ok.injEq, Except.ok.injEq, beq_iff_eq]

theorem union (h : s.Keeps cmp entries) (h' : s'.Keeps cmp entries') :
    ∃ u, s.union s' = .ok u ∧ u.Keeps cmp (Entries.addAll cmp entries' entries) := by
  obtain ⟨t, rfl, h⟩ := h
  obtain ⟨t', hcmp, h'⟩ := h'
  have : Std.TransCmp t'.cmp := hcmp ▸ ‹Std.TransCmp t.cmp›
  obtain ⟨u, hunion, hu⟩ := h.union_eq h'
  exact ⟨u, hunion, t, rfl, hu⟩

theorem intersection (h : s.Keeps cmp entries) (h' : s'.Keeps cmp entries') :
    ∃ u, s.intersection s' = .ok u ∧ u.Keeps cmp (Entries.shared cmp entries' entries) := by
  obtain ⟨t, rfl, h⟩ := h
  obtain ⟨t', hcmp, h'⟩ := h'
  have : Std.TransCmp t'.cmp := hcmp ▸ ‹Std.TransCmp t.cmp›
  obtain ⟨u, hintersection, hu⟩ := h.intersection_eq h'
  exact ⟨u, hintersection, t, rfl, hcmp ▸ hu⟩

theorem difference (h : s.Keeps cmp entries) (h' : s'.Keeps cmp entries') :
    ∃ u, s.difference s' = .ok u ∧ u.Keeps cmp (Entries.unshared cmp entries' entries) := by
  obtain ⟨t, rfl, h⟩ := h
  obtain ⟨t', hcmp, h'⟩ := h'
  have : Std.TransCmp t'.cmp := hcmp ▸ ‹Std.TransCmp t.cmp›
  obtain ⟨u, hdifference, hu⟩ := h.difference_eq h'
  exact ⟨u, hdifference, t, rfl, hcmp ▸ hu⟩

theorem coincides (h : s.Keeps cmp entries) (h' : s'.Keeps cmp entries') (heq : entries = entries') :
    s.Coincides s' := by
  subst heq
  constructor
  case toList => exact ⟨_, h.toList_eq, h'.toList_eq⟩
  case size => exact h.size_eq.trans h'.size_eq.symm
  case equal_self =>
    intro _
    rw [h.equal_eq h', h.equal_eq h]
  case equal =>
    intro _ _
    rw [h.equal_eq h', BEq.rfl]

theorem vacant (h : s.Keeps cmp entries) (hnil : entries = []) : s.Vacant := by
  subst hnil
  exact ⟨h.toList_eq, h.size_eq, decide_eq_true h.size_eq⟩

theorem matches_of_forall₂ (h : s.Keeps cmp entries) (h' : s'.Keeps cmp entries')
    (hmatch : List.Forall₂ (fun left right => cmp left.1 right.1 = .eq) entries entries') :
    s.Matches cmp s' := by
  constructor
  case toList => exact ⟨_, _, h.toList_eq, h'.toList_eq, by simpa using hmatch⟩
  case equal =>
    intro _ hbeq
    have hpairs : List.Forall₂ (fun left right => (left == right) = true) entries entries' :=
      hmatch.imp fun left right heq => Bool.and_eq_true_iff.mpr ⟨hbeq left.1 right.1 heq, rfl⟩
    rw [h.equal_eq h', beq_iff_forall₂.mpr hpairs]
  case coincides =>
    intro hone
    have hpairs : List.Forall₂ Eq entries entries' :=
      hmatch.imp fun left right heq =>
        (Prod.ext (hone left.1 right.1 heq) rfl : left = right)
    rw [List.forall₂_eq_eq_eq] at hpairs
    exact h.coincides h' hpairs

end Keeps

theorem Keeps.laws [Std.TransCmp cmp] {s'' : SortedSet T} {entries'' : List (T × Unit)}
    (h : s.Keeps cmp entries) (h' : s'.Keeps cmp entries') (h'' : s''.Keeps cmp entries'') :
    Laws cmp s s' s'' := by
  have hascending := h.ascending
  have hascending' := h'.ascending
  obtain ⟨joined, hjoined, hkeepsJoined⟩ := h.union h'
  obtain ⟨turned, hturned, hkeepsTurned⟩ := h'.union h
  obtain ⟨both, hboth, hkeepsBoth⟩ := h.intersection h'
  obtain ⟨both', hboth', hkeepsBoth'⟩ := h'.intersection h
  obtain ⟨only, honly, hkeepsOnly⟩ := h.difference h'
  constructor
  case size =>
    refine ⟨joined, both, hjoined, hboth, ?_⟩
    rw [hkeepsJoined.size_eq, hkeepsBoth.size_eq, h.size_eq, h'.size_eq]
    exact hascending.length_addAll_add_length_shared hascending'
  case union_difference_intersection =>
    obtain ⟨u, hunion, hu⟩ := hkeepsOnly.union hkeepsBoth
    rw [honly, ok_bind, hboth]
    exact ⟨u, hunion, hu.coincides h (hascending.addAll_shared_unshared entries')⟩
  case difference_intersection_union =>
    obtain ⟨u, hdifference, hu⟩ := hkeepsBoth.difference hkeepsJoined
    rw [hboth, ok_bind, hjoined]
    exact ⟨u, hdifference, hu.vacant (hascending.unshared_addAll_shared entries')⟩
  case difference_self =>
    obtain ⟨u, hdifference, hu⟩ := h.difference h
    exact ⟨u, hdifference, hu.vacant hascending.unshared_self⟩
  case union_self =>
    obtain ⟨u, hunion, hu⟩ := h.union h
    exact ⟨u, hunion, hu.coincides h hascending.addAll_self⟩
  case intersection_difference =>
    obtain ⟨u, hintersection, hu⟩ := hkeepsOnly.intersection h'
    rw [honly]
    exact ⟨u, hintersection, hu.vacant (hascending.shared_unshared entries')⟩
  case union_comm =>
    exact ⟨joined, turned, hjoined, hturned,
      hkeepsJoined.matches_of_forall₂ hkeepsTurned (hascending.forall₂_addAll hascending')⟩
  case intersection_comm =>
    exact ⟨both, both', hboth, hboth',
      hkeepsBoth.matches_of_forall₂ hkeepsBoth' (hascending.forall₂_shared hascending')⟩
  case union_assoc =>
    obtain ⟨u, hunion, hu⟩ := hkeepsJoined.union h''
    obtain ⟨rest, hrest, hkeepsRest⟩ := h'.union h''
    obtain ⟨v, hunion', hv⟩ := h.union hkeepsRest
    rw [hjoined, hrest]
    exact ⟨u, v, hunion, hunion', hu.coincides hv (hascending.addAll_assoc hascending' entries'')⟩
  case compares => exact h.compares h'

end SortedSet

/-- Sets that can be had and have one comparison, whatever their orders, combine as sets do, and they are
equal if and only if they have the same elements. -/
theorem laws_of_reachable (hcmp : Consistent cmp) {s s' s'' : SortedSet T} (h : s.Reachable cmp)
    (h' : s'.Reachable cmp) (h'' : s''.Reachable cmp) : SortedSet.Laws cmp s s' s'' := by
  have := hcmp.transCmp
  obtain ⟨entries, hkeeps⟩ := h.keeps
  obtain ⟨entries', hkeeps'⟩ := h'.keeps
  obtain ⟨entries'', hkeeps''⟩ := h''.keeps
  exact hkeeps.laws hkeeps' hkeeps''

/-- The first two sets have remainders in common, though no numbers: six remainders and two make four and
four. Where only a number itself is the same, it does not matter which set comes first. -/
theorem laws_of_reachable_orders :
    Consistent (compareOn fun n : Nat => n % 10) ∧ Consistent (compare : Nat → Nat → Ordering) ∧
      (∃ s s' s'' : SortedSet Nat, s.Reachable (compareOn fun n => n % 10) ∧
        s'.Reachable (compareOn fun n => n % 10) ∧ s''.Reachable (compareOn fun n => n % 10) ∧
        s.toList = .ok [30, 12, 25, 7] ∧ s'.toList = .ok [41, 22, 5, 8] ∧
        s''.toList = .ok [1, 18, 9] ∧ s.tree.order = 3 ∧ s'.tree.order = 5 ∧
        SortedSet.Laws (compareOn fun n => n % 10) s s' s'' ∧
        ∃ joined both, s.union s' = .ok joined ∧ s.intersection s' = .ok both ∧
          joined.size + both.size = 8) ∧
      ∃ s s' : SortedSet Nat, s.Reachable compare ∧ s'.Reachable compare ∧
        s.toList = .ok [1, 2, 3, 4] ∧ s'.toList = .ok [3, 4, 5] ∧ s.tree.order = 3 ∧
        s'.tree.order = 6 ∧
        ∃ u v, s.union s' = .ok u ∧ s'.union s = .ok v ∧ u.equal v = .ok true := by
  have hcmp : Consistent (compareOn fun n : Nat => n % 10) := Consistent.of_transCmp
  have hnatural : Consistent (compare : Nat → Nat → Ordering) := Consistent.of_transCmp
  refine ⟨hcmp, hnatural, ?_, ?_⟩
  · obtain ⟨s, h, hlist, horder, hsize⟩ : ∃ s : SortedSet Nat,
        s.Reachable (compareOn fun n => n % 10) ∧ s.toList = .ok [30, 12, 25, 7] ∧
          s.tree.order = 3 ∧ s.size = 4 :=
      SortedSet.exists_reachable 3 [12, 25, 7, 30] (by decide +kernel)
    obtain ⟨s', h', hlist', horder', hsize'⟩ : ∃ s' : SortedSet Nat,
        s'.Reachable (compareOn fun n => n % 10) ∧ s'.toList = .ok [41, 22, 5, 8] ∧
          s'.tree.order = 5 ∧ s'.size = 4 :=
      SortedSet.exists_reachable 5 [22, 5, 8, 41] (by decide +kernel)
    obtain ⟨s'', h'', hlist''⟩ : ∃ s'' : SortedSet Nat,
        s''.Reachable (compareOn fun n => n % 10) ∧ s''.toList = .ok [1, 18, 9] :=
      SortedSet.exists_reachable 4 [1, 9, 18, 28] (by decide +kernel)
    have hlaws := laws_of_reachable hcmp h h' h''
    obtain ⟨joined, both, hjoined, hboth, hcount⟩ := hlaws.size
    rw [hsize, hsize'] at hcount
    exact ⟨s, s', s'', h, h', h'', hlist, hlist', hlist'', horder, horder', hlaws, joined, both,
      hjoined, hboth, hcount⟩
  · obtain ⟨s, h, hlist, horder⟩ : ∃ s : SortedSet Nat, s.Reachable compare ∧
        s.toList = .ok [1, 2, 3, 4] ∧ s.tree.order = 3 :=
      SortedSet.exists_reachable 3 [4, 2, 3, 1] (by decide +kernel)
    obtain ⟨s', h', hlist', horder'⟩ : ∃ s' : SortedSet Nat, s'.Reachable compare ∧
        s'.toList = .ok [3, 4, 5] ∧ s'.tree.order = 6 :=
      SortedSet.exists_reachable 6 [3, 4, 5] (by decide +kernel)
    obtain ⟨u, v, hu, hv, hmatches⟩ := (laws_of_reachable hnatural h h' h).union_comm
    exact ⟨s, s', h, h', hlist, hlist', horder, horder', u, v, hu, hv,
      (hmatches.coincides fun left right => Nat.compare_eq_eq.mp).equal⟩

end Multiway
