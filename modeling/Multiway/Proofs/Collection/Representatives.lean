import Multiway.Proofs.Collection.Mirrored

/-!
The first of those that are one.

Keys that a comparison takes for one key may differ, and a set keeps the one of them that came first.
An ascending list is a choice of one entry for some of the keys: it is known when for every key it is
known which entry is found under it. So whatever is made of ascending lists is described by what is
found in it. Among several lists that are joined, the first one in which something is found decides.
When entries are picked from a list because another list has or has not their keys, what is found in
the first list decides, and whether something is found in the second.
-/

namespace Multiway

variable {K V : Type} {cmp : K → K → Ordering}

namespace Entries

/-- Adds an entry unless its key is there. -/
def add (cmp : K → K → Ordering) (entry : K × V) (entries : List (K × V)) : List (K × V) :=
  if (find? cmp entry.1 entries).isSome then entries else store cmp entry.1 entry.2 entries

/-- Adds entries one after the other. -/
def addAll (cmp : K → K → Ordering) (new entries : List (K × V)) : List (K × V) :=
  new.foldl (fun entries entry => add cmp entry entries) entries

/-- The entries whose keys are there in another list, by the comparison of that list. -/
def shared (cmp : K → K → Ordering) (others entries : List (K × V)) : List (K × V) :=
  entries.filter fun entry => (find? cmp entry.1 others).isSome

/-- The entries whose keys are not there in another list. -/
def unshared (cmp : K → K → Ordering) (others entries : List (K × V)) : List (K × V) :=
  entries.filter fun entry => !(find? cmp entry.1 others).isSome

end Entries

/-- The elements of `new`, in their order, that are one with none of `taken` and none of those in front
of them. -/
def newcomers (cmp : K → K → Ordering) : List K → List K → List K
  | _, [] => []
  | taken, key :: new =>
    if taken.any fun old => cmp old key = .eq then newcomers cmp taken new
    else key :: newcomers cmp (key :: taken) new

/-! ### What is found -/

section found

variable {entries others new : List (K × V)} {entry : K × V} {key other : K}

theorem Entries.find?_isSome_iff :
    (find? cmp key entries).isSome ↔ ∃ entry ∈ entries, cmp entry.1 key = .eq := by
  simp [find?, List.find?_isSome]

variable [Std.TransCmp cmp]

/-- It does not matter which of the keys that are one is looked for. -/
theorem Entries.find?_congr (hkey : cmp key other = .eq) (entries : List (K × V)) :
    find? cmp key entries = find? cmp other entries := by
  have heq (entry : K × V) : cmp entry.1 key = .eq ↔ cmp entry.1 other = .eq :=
    ⟨fun h => Std.TransCmp.eq_trans h hkey,
      fun h => Std.TransCmp.eq_trans h (Std.OrientedCmp.eq_symm hkey)⟩
  simp only [find?, heq]

namespace Ascending

theorem add (h : Ascending cmp entries) (entry : K × V) :
    Ascending cmp (Entries.add cmp entry entries) := by
  rw [Entries.add]
  split
  · exact h
  · exact h.store entry.1 entry.2

theorem addAll (h : Ascending cmp entries) (new : List (K × V)) :
    Ascending cmp (Entries.addAll cmp new entries) := by
  induction new generalizing entries with
  | nil => exact h
  | cons entry new ih => exact ih (h.add entry)

/-- An ascending list is known by its entries. -/
theorem eq_of_mem (h : Ascending cmp entries) (h' : Ascending cmp others)
    (hmem : ∀ entry, entry ∈ entries ↔ entry ∈ others) : entries = others := by
  have hself (left right : K × V) (heq : left = right) : cmp left.1 right.1 = .eq :=
    heq ▸ Std.ReflCmp.compare_self
  have hmatch : List.Forall₂ Eq entries others :=
    h.forall₂ hself h' (fun entry hentry => ⟨entry, (hmem entry).mp hentry, rfl⟩)
      fun entry hentry => ⟨entry, (hmem entry).mpr hentry, rfl⟩
  rwa [List.forall₂_eq_eq_eq] at hmatch

/-- An ascending list is known by what is found in it. -/
theorem eq_of_find? (h : Ascending cmp entries) (h' : Ascending cmp others)
    (hfind : ∀ key, Entries.find? cmp key entries = Entries.find? cmp key others) :
    entries = others :=
  h.eq_of_mem h' fun entry => by rw [h.mem_iff_find?, h'.mem_iff_find?, hfind]

/-- What is found after an entry was added: what was there comes first. -/
theorem find?_add (h : Ascending cmp entries) (entry : K × V) (key : K) :
    Entries.find? cmp key (Entries.add cmp entry entries) =
      (Entries.find? cmp key entries).or (Entries.find? cmp key [entry]) := by
  by_cases hkey : cmp entry.1 key = .eq
  · have hone : Entries.find? cmp key [entry] = some entry := by simp [Entries.find?, hkey]
    rw [Entries.add, Entries.find?_congr hkey, hone]
    cases hfound : Entries.find? cmp key entries with
    | some found => simp [hfound]
    | none =>
        have hstored := h.find?_store entry.1 entry.2 key
        simp only [hkey, hfound, if_true] at hstored
        simpa using hstored
  · have hnone : Entries.find? cmp key [entry] = none := by simp [Entries.find?, hkey]
    rw [Entries.add, hnone, Option.or_none]
    split
    · rfl
    · rw [h.find?_store, if_neg hkey]

/-- What is found after entries were added: what was there comes first, and then the first of them. -/
theorem find?_addAll (h : Ascending cmp entries) (new : List (K × V)) (key : K) :
    Entries.find? cmp key (Entries.addAll cmp new entries) =
      (Entries.find? cmp key entries).or (Entries.find? cmp key new) := by
  induction new generalizing entries with
  | nil => exact (Option.or_none).symm
  | cons entry new ih =>
      have hsplit : Entries.find? cmp key ([entry] ++ new) =
          (Entries.find? cmp key [entry]).or (Entries.find? cmp key new) := List.find?_append
      have hrest := ih (h.add entry)
      rw [h.find?_add, Option.or_assoc, ← hsplit] at hrest
      exact hrest

/-- What is found among the entries that pass a test. -/
theorem find?_filter (h : Ascending cmp entries) (passes : K × V → Bool) (key : K) :
    Entries.find? cmp key (entries.filter passes) =
      (Entries.find? cmp key entries).filter passes := by
  have hpart {low high : List (K × V)} (hsplit : Splits cmp key low high) :
      Splits cmp key (low.filter passes) (high.filter passes) :=
    ⟨fun entry hentry => hsplit.below entry (List.mem_of_mem_filter hentry),
      fun entry hentry => hsplit.above entry (List.mem_of_mem_filter hentry)⟩
  rcases h.split_cases key with ⟨low, entry, high, rfl, hkey, hsplit⟩ | ⟨low, high, rfl, hsplit⟩
  · rw [hsplit.find?_of_eq hkey, List.filter_append, List.filter_cons, Option.filter_some]
    split
    · exact (hpart hsplit).find?_of_eq hkey
    · exact (hpart hsplit).find?_of_absent
  · rw [hsplit.find?_of_absent, List.filter_append]
    exact (hpart hsplit).find?_of_absent

/-- Removing a key leaves what is found under the others. -/
theorem find?_remove (h : Ascending cmp entries) (hother : cmp other key ≠ .eq) :
    Entries.find? cmp other (Entries.remove cmp key entries) = Entries.find? cmp other entries := by
  rw [Entries.remove, h.find?_filter]
  cases hfound : Entries.find? cmp other entries with
  | none => rfl
  | some entry =>
      obtain ⟨-, hkey⟩ := Entries.find?_eq_some hfound
      have hkept : cmp entry.1 key ≠ .eq := fun heq =>
        hother (Std.TransCmp.eq_trans (Std.OrientedCmp.eq_symm hkey) heq)
      rw [Option.filter_some, if_pos (decide_eq_true hkept)]

/-- Of the entries that another list has too, the one that is found in this list is found. -/
theorem find?_shared (h : Ascending cmp entries) (others : List (K × V)) (key : K) :
    Entries.find? cmp key (Entries.shared cmp others entries) =
      if (Entries.find? cmp key others).isSome then Entries.find? cmp key entries else none := by
  rw [Entries.shared, h.find?_filter]
  cases hfound : Entries.find? cmp key entries with
  | none => simp
  | some entry =>
      obtain ⟨-, hkey⟩ := Entries.find?_eq_some hfound
      rw [Option.filter_some, Entries.find?_congr hkey]

theorem find?_unshared (h : Ascending cmp entries) (others : List (K × V)) (key : K) :
    Entries.find? cmp key (Entries.unshared cmp others entries) =
      if (Entries.find? cmp key others).isSome then none else Entries.find? cmp key entries := by
  rw [Entries.unshared, h.find?_filter]
  cases hfound : Entries.find? cmp key entries with
  | none => simp
  | some entry =>
      obtain ⟨-, hkey⟩ := Entries.find?_eq_some hfound
      rw [Option.filter_some, Entries.find?_congr hkey]
      cases Entries.find? cmp key others <;> rfl

end Ascending

end found

/-! ### What is stored -/

section stored

variable {entries new : List (K × V)}

/-- Only what was taken counts, not in which order. -/
theorem newcomers_congr {taken taken' : List K} (h : ∀ key, key ∈ taken ↔ key ∈ taken')
    (new : List K) : newcomers cmp taken new = newcomers cmp taken' new := by
  induction new generalizing taken taken' with
  | nil => rfl
  | cons key new ih =>
      have hany : (taken.any fun old => cmp old key = .eq) = taken'.any fun old => cmp old key = .eq := by
        rw [Bool.eq_iff_iff]
        simp only [List.any_eq_true, h]
      have hmore (other : K) : other ∈ key :: taken ↔ other ∈ key :: taken' := by
        simp only [List.mem_cons, h]
      rw [newcomers, newcomers, hany, ih h, ih hmore]

/-- Whether an element is taken is whether something is found under it. -/
theorem any_eq_isSome (key : K) (entries : List (K × V)) :
    ((entries.map Prod.fst).any fun old => cmp old key = .eq) =
      (Entries.find? cmp key entries).isSome := by
  rw [Bool.eq_iff_iff, Entries.find?_isSome_iff]
  simp

/-- Adding entries adds the newcomers. -/
theorem Ascending.addAll_perm [Std.TransCmp cmp] (h : Ascending cmp entries) (new : List (K × V)) :
    ((Entries.addAll cmp new entries).map Prod.fst).Perm
      (entries.map Prod.fst ++ newcomers cmp (entries.map Prod.fst) (new.map Prod.fst)) := by
  induction new generalizing entries with
  | nil => simp [Entries.addAll, newcomers]
  | cons entry new ih =>
      have hrest := ih (h.add entry)
      rw [List.map_cons, newcomers, any_eq_isSome]
      show ((Entries.addAll cmp new (Entries.add cmp entry entries)).map Prod.fst).Perm _
      cases hfound : Entries.find? cmp entry.1 entries with
      | some found =>
          have hsame : Entries.add cmp entry entries = entries := by simp [Entries.add, hfound]
          rwa [hsame] at hrest ⊢
      | none =>
          have hstore : Entries.add cmp entry entries =
              Entries.store cmp entry.1 entry.2 entries := by simp [Entries.add, hfound]
          have hperm := (h.store_perm hfound entry.2).map Prod.fst
          rw [List.map_cons] at hperm
          rw [hstore] at hrest ⊢
          -- The new entry stands somewhere in the list, but in front of what was taken.
          rw [newcomers_congr fun key => hperm.mem_iff] at hrest
          exact (hrest.trans (hperm.append_right _)).trans List.perm_middle.symm

end stored

end Multiway
