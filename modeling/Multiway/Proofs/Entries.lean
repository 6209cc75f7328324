import Mathlib.Data.List.Induction
import Multiway.Comparison

/-!
Ascending lists of entries.

What a tree holds is a list of entries in ascending order, and what its operations do to the list
can be said without a tree. The functions of this module say it: looking for a key, storing a value
under it and removing it each read the list from one end to the other and ask of every entry how its
key compares. They are what the trees are measured against, so they are written to be read and not
to be fast.

A key cuts an ascending list in two, the entries below it and those above, with at most one entry in
between whose key is the same. All that is needed of the order is in `Splits`; once a tree has found
such a cut, the lemmas of the second section tell what the functions do to the list.
-/

namespace Multiway

variable {K V : Type} {cmp : K → K → Ordering}

/-- The keys ascend strictly. -/
def Ascending (cmp : K → K → Ordering) (entries : List (K × V)) : Prop :=
  entries.Pairwise fun left right => cmp left.1 right.1 = .lt

/-- All of `low` is below a key and all of `high` above it. -/
structure Splits (cmp : K → K → Ordering) (key : K) (low high : List (K × V)) : Prop where
  below : ∀ entry ∈ low, cmp entry.1 key = .lt
  above : ∀ entry ∈ high, cmp entry.1 key = .gt

namespace Entries

/-- The entry that has a key. -/
def find? (cmp : K → K → Ordering) (key : K) (entries : List (K × V)) : Option (K × V) :=
  entries.find? fun entry => cmp entry.1 key = .eq

/-- The last entry that is not above a key. -/
def findLE? (cmp : K → K → Ordering) (key : K) (entries : List (K × V)) : Option (K × V) :=
  entries.reverse.find? fun entry => cmp entry.1 key ≠ .gt

/-- The first entry that is not below a key. -/
def findGE? (cmp : K → K → Ordering) (key : K) (entries : List (K × V)) : Option (K × V) :=
  entries.find? fun entry => cmp entry.1 key ≠ .lt

/-- Changes the value of the entry that has a key, and keeps the key that is stored. -/
def revise (cmp : K → K → Ordering) (key : K) (change : V → V) (entries : List (K × V)) :
    List (K × V) :=
  entries.map fun entry => if cmp entry.1 key = .eq then (entry.1, change entry.2) else entry

/-- Takes out the entry that has a key. -/
def remove (cmp : K → K → Ordering) (key : K) (entries : List (K × V)) : List (K × V) :=
  entries.filter fun entry => cmp entry.1 key ≠ .eq

/-- Gives a value to the entry that has a key; a key that is not there goes in front of the first
entry above it. -/
def store (cmp : K → K → Ordering) (key : K) (value : V) (entries : List (K × V)) :
    List (K × V) :=
  if (find? cmp key entries).isSome then revise cmp key (fun _ => value) entries
  else
    entries.takeWhile (fun entry => cmp entry.1 key = .lt) ++
      (key, value) :: entries.dropWhile fun entry => cmp entry.1 key = .lt

/-- Stores entries one after the other. -/
def storeAll (cmp : K → K → Ordering) (new : List (K × V)) (entries : List (K × V)) :
    List (K × V) :=
  new.foldl (fun entries entry => store cmp entry.1 entry.2 entries) entries

/-- The first of the keys that are one key, with the last of the values that come with them. -/
def merge? (cmp : K → K → Ordering) (key : K) (entries : List (K × V)) : Option (K × V) :=
  (find? cmp key entries).bind fun first =>
    (find? cmp key entries.reverse).map fun last => (first.1, last.2)

end Entries

/-! ### Cutting at a key -/

namespace Ascending

variable {low high : List (K × V)} {entry : K × V} {key : K}

/-- An entry that has a key cuts the list at this key. -/
theorem splits [Std.TransCmp cmp] (h : Ascending cmp (low ++ entry :: high))
    (hkey : cmp entry.1 key = .eq) : Splits cmp key low high := by
  obtain ⟨-, hhigh, hlow⟩ := List.pairwise_append.mp h
  refine ⟨fun left hleft => ?_, fun right hright => ?_⟩
  · exact Std.TransCmp.lt_of_lt_of_eq (hlow left hleft entry (by simp)) hkey
  · have habove := (List.pairwise_cons.mp hhigh).1 right hright
    exact Std.OrientedCmp.gt_of_lt
      (Std.TransCmp.lt_of_eq_of_lt (Std.OrientedCmp.eq_symm hkey) habove)

/-- Only the key of an entry matters for the order. -/
theorem congr_entry {entry' : K × V} (h : Ascending cmp (low ++ entry :: high))
    (hkey : entry'.1 = entry.1) : Ascending cmp (low ++ entry' :: high) := by
  simp only [Ascending, List.pairwise_append, List.pairwise_cons, List.mem_cons,
    forall_eq_or_imp] at h ⊢
  simpa only [hkey] using h

/-- A key that cuts the list may be put into the cut. -/
theorem insert [Std.TransCmp cmp] (h : Ascending cmp (low ++ high))
    (hsplit : Splits cmp entry.1 low high) : Ascending cmp (low ++ entry :: high) := by
  obtain ⟨hlow, hhigh, hbetween⟩ := List.pairwise_append.mp h
  refine List.pairwise_append.mpr ⟨hlow, List.pairwise_cons.mpr ⟨?_, hhigh⟩, ?_⟩
  · intro right hright
    exact Std.OrientedCmp.lt_of_gt (hsplit.above right hright)
  · intro left hleft right hright
    rcases List.mem_cons.mp hright with rfl | hright
    · exact hsplit.below left hleft
    · exact hbetween left hleft right hright

/-- A key cuts an ascending list, with or without an entry in between. -/
theorem split_cases [Std.TransCmp cmp] {entries : List (K × V)} (h : Ascending cmp entries)
    (key : K) :
    (∃ low entry high, entries = low ++ entry :: high ∧ cmp entry.1 key = .eq ∧
        Splits cmp key low high) ∨
      ∃ low high, entries = low ++ high ∧ Splits cmp key low high := by
  induction entries with
  | nil => exact .inr ⟨[], [], rfl, by simp, by simp⟩
  | cons entry entries ih =>
      have hmem (left : K × V) (low : List (K × V)) (hlow : ∀ entry ∈ low, cmp entry.1 key = .lt)
          (hleft : cmp left.1 key = .lt) : ∀ entry ∈ left :: low, cmp entry.1 key = .lt := by
        intro entry hentry
        rcases List.mem_cons.mp hentry with rfl | hentry
        · exact hleft
        · exact hlow entry hentry
      cases hkey : cmp entry.1 key with
      | lt =>
          rcases ih (List.pairwise_cons.mp h).2 with ⟨low, found, high, rfl, heq, hsplit⟩ |
            ⟨low, high, rfl, hsplit⟩
          · exact .inl ⟨entry :: low, found, high, rfl, heq, hmem entry low hsplit.below hkey,
              hsplit.above⟩
          · exact .inr ⟨entry :: low, high, rfl, hmem entry low hsplit.below hkey, hsplit.above⟩
      | eq => exact .inl ⟨[], entry, entries, rfl, hkey, h.splits hkey⟩
      | gt =>
          refine .inr ⟨[], entry :: entries, rfl, by simp, fun right hright => ?_⟩
          rcases List.mem_cons.mp hright with rfl | hright
          · exact hkey
          · have habove := (List.pairwise_cons.mp h).1 right hright
            exact Std.TransCmp.gt_trans (Std.OrientedCmp.gt_of_lt habove) hkey

/-- No two entries have one key. -/
theorem eq_of_eq [Std.TransCmp cmp] {entries : List (K × V)} (h : Ascending cmp entries)
    {left right : K × V} (hleft : left ∈ entries) (hright : right ∈ entries)
    (heq : cmp left.1 right.1 = .eq) : left = right := by
  obtain ⟨low, high, rfl⟩ := List.append_of_mem hright
  have hsplit := h.splits (Std.ReflCmp.compare_self (a := right.1))
  rcases List.mem_append.mp hleft with hlow | hhigh
  · rw [hsplit.below left hlow] at heq
    contradiction
  · rcases List.mem_cons.mp hhigh with rfl | hhigh
    · rfl
    · rw [hsplit.above left hhigh] at heq
      contradiction

theorem nodup [Std.TransCmp cmp] {entries : List (K × V)} (h : Ascending cmp entries) :
    entries.Nodup := by
  apply h.imp
  intro left right hlt heq
  have hself : cmp right.1 right.1 = .eq := Std.ReflCmp.compare_self
  rw [heq, hself] at hlt
  contradiction

/-- Leaving out an entry keeps the order. -/
theorem erase (h : Ascending cmp (low ++ entry :: high)) : Ascending cmp (low ++ high) :=
  List.Pairwise.sublist (List.Sublist.append_left (List.sublist_cons_self entry high) low) h

end Ascending

namespace Splits

variable {low high : List (K × V)} {entry : K × V} {key : K}

/-- A cut inside a cut. -/
theorem append {low' high' : List (K × V)} (h : Splits cmp key low high)
    (h' : Splits cmp key low' high') : Splits cmp key (low ++ low') (high' ++ high) := by
  refine ⟨fun entry hentry => ?_, fun entry hentry => ?_⟩
  · rcases List.mem_append.mp hentry with hentry | hentry
    · exact h.below entry hentry
    · exact h'.below entry hentry
  · rcases List.mem_append.mp hentry with hentry | hentry
    · exact h'.above entry hentry
    · exact h.above entry hentry

theorem find?_of_eq (h : Splits cmp key low high) (hkey : cmp entry.1 key = .eq) :
    Entries.find? cmp key (low ++ entry :: high) = some entry := by
  have hlow : low.find? (fun entry => cmp entry.1 key = .eq) = none := by
    rw [List.find?_eq_none]
    intro left hleft
    simp [h.below left hleft]
  simp [Entries.find?, List.find?_append, hlow, hkey]

theorem find?_of_absent (h : Splits cmp key low high) :
    Entries.find? cmp key (low ++ high) = none := by
  rw [Entries.find?, List.find?_eq_none]
  intro entry hentry
  rcases List.mem_append.mp hentry with hentry | hentry
  · simp [h.below entry hentry]
  · simp [h.above entry hentry]

/-- What is above a key does not count. -/
theorem findLE?_append (h : Splits cmp key low high) (entries : List (K × V)) :
    Entries.findLE? cmp key (entries ++ high) = Entries.findLE? cmp key entries := by
  have hhigh : high.reverse.find? (fun entry => cmp entry.1 key ≠ .gt) = none := by
    rw [List.find?_eq_none]
    intro entry hentry
    simp [h.above entry (List.mem_reverse.mp hentry)]
  rw [Entries.findLE?, List.reverse_append, List.find?_append, hhigh, Option.none_or]
  rfl

theorem findGE?_append (h : Splits cmp key low high) (entries : List (K × V)) :
    Entries.findGE? cmp key (low ++ entries) = Entries.findGE? cmp key entries := by
  have hlow : low.find? (fun entry => cmp entry.1 key ≠ .lt) = none := by
    rw [List.find?_eq_none]
    intro entry hentry
    simp [h.below entry hentry]
  rw [Entries.findGE?, List.find?_append, hlow, Option.none_or]
  rfl

theorem findLE?_of_absent (h : Splits cmp key low high) :
    Entries.findLE? cmp key (low ++ high) = low.getLast? := by
  rw [h.findLE?_append]
  rcases List.eq_nil_or_concat low with rfl | ⟨rest, entry, rfl⟩
  · rfl
  · have hentry : cmp entry.1 key ≠ .gt := by
      rw [h.below entry (by simp)]
      decide
    rw [List.concat_eq_append, Entries.findLE?, List.reverse_concat,
      List.find?_cons_of_pos (by simpa using hentry), List.getLast?_concat]

theorem findGE?_of_absent (h : Splits cmp key low high) :
    Entries.findGE? cmp key (low ++ high) = high.head? := by
  rw [h.findGE?_append]
  cases high with
  | nil => rfl
  | cons entry high =>
      have hentry : cmp entry.1 key ≠ .lt := by
        rw [h.above entry (by simp)]
        decide
      exact List.find?_cons_of_pos (by simpa using hentry)

theorem findLE?_of_eq (h : Splits cmp key low high) (hkey : cmp entry.1 key = .eq) :
    Entries.findLE? cmp key (low ++ entry :: high) = some entry := by
  rw [List.append_cons, h.findLE?_append, Entries.findLE?, List.reverse_concat]
  exact List.find?_cons_of_pos (by simp [hkey])

theorem findGE?_of_eq (h : Splits cmp key low high) (hkey : cmp entry.1 key = .eq) :
    Entries.findGE? cmp key (low ++ entry :: high) = some entry := by
  rw [h.findGE?_append]
  exact List.find?_cons_of_pos (by simp [hkey])

theorem revise_of_eq (h : Splits cmp key low high) (hkey : cmp entry.1 key = .eq)
    (change : V → V) :
    Entries.revise cmp key change (low ++ entry :: high) =
      low ++ (entry.1, change entry.2) :: high := by
  have hlow : Entries.revise cmp key change low = low := by
    refine (List.map_congr_left fun left hleft => ?_).trans (List.map_id low)
    simp [h.below left hleft]
  have hhigh : Entries.revise cmp key change high = high := by
    refine (List.map_congr_left fun right hright => ?_).trans (List.map_id high)
    simp [h.above right hright]
  rw [Entries.revise] at hlow hhigh ⊢
  rw [List.map_append, List.map_cons, if_pos hkey, hlow, hhigh]

theorem revise_of_absent (h : Splits cmp key low high) (change : V → V) :
    Entries.revise cmp key change (low ++ high) = low ++ high := by
  refine (List.map_congr_left fun entry hentry => ?_).trans (List.map_id _)
  rcases List.mem_append.mp hentry with hentry | hentry
  · simp [h.below entry hentry]
  · simp [h.above entry hentry]

theorem remove_of_absent (h : Splits cmp key low high) :
    Entries.remove cmp key (low ++ high) = low ++ high := by
  rw [Entries.remove, List.filter_eq_self]
  intro entry hentry
  rcases List.mem_append.mp hentry with hentry | hentry
  · simp [h.below entry hentry]
  · simp [h.above entry hentry]

theorem remove_of_eq (h : Splits cmp key low high) (hkey : cmp entry.1 key = .eq) :
    Entries.remove cmp key (low ++ entry :: high) = low ++ high := by
  have habsent := h.remove_of_absent
  rw [Entries.remove, List.filter_append] at habsent ⊢
  rw [List.filter_cons_of_neg (by simp [hkey]), habsent]

theorem store_of_eq (h : Splits cmp key low high) (hkey : cmp entry.1 key = .eq) (value : V) :
    Entries.store cmp key value (low ++ entry :: high) = low ++ (entry.1, value) :: high := by
  rw [Entries.store, h.find?_of_eq hkey, Option.isSome_some, if_pos rfl]
  exact h.revise_of_eq hkey _

theorem store_of_absent (h : Splits cmp key low high) (value : V) :
    Entries.store cmp key value (low ++ high) = low ++ (key, value) :: high := by
  have hlow : ∀ entry ∈ low, decide (cmp entry.1 key = .lt) = true := by
    intro entry hentry
    simp [h.below entry hentry]
  have htake : high.takeWhile (fun entry => cmp entry.1 key = .lt) = [] := by
    cases high with
    | nil => rfl
    | cons entry high => simp [h.above entry (by simp)]
  have hdrop : high.dropWhile (fun entry => cmp entry.1 key = .lt) = high := by
    cases high with
    | nil => rfl
    | cons entry high => simp [h.above entry (by simp)]
  rw [Entries.store, h.find?_of_absent, List.takeWhile_append_of_pos hlow,
    List.dropWhile_append_of_pos hlow, htake, hdrop]
  simp

end Splits

namespace Ascending

variable {entries : List (K × V)}

theorem revise [Std.TransCmp cmp] (h : Ascending cmp entries) (key : K) (change : V → V) :
    Ascending cmp (Entries.revise cmp key change entries) := by
  rcases h.split_cases key with ⟨low, entry, high, rfl, hkey, hsplit⟩ | ⟨low, high, rfl, hsplit⟩
  · rw [hsplit.revise_of_eq hkey]
    exact h.congr_entry rfl
  · rwa [hsplit.revise_of_absent]

theorem store [Std.TransCmp cmp] (h : Ascending cmp entries) (key : K) (value : V) :
    Ascending cmp (Entries.store cmp key value entries) := by
  rcases h.split_cases key with ⟨low, entry, high, rfl, hkey, hsplit⟩ | ⟨low, high, rfl, hsplit⟩
  · rw [hsplit.store_of_eq hkey]
    exact h.congr_entry rfl
  · rw [hsplit.store_of_absent]
    exact h.insert hsplit

theorem storeAll [Std.TransCmp cmp] (h : Ascending cmp entries) (new : List (K × V)) :
    Ascending cmp (Entries.storeAll cmp new entries) := by
  induction new generalizing entries with
  | nil => exact h
  | cons entry new ih => exact ih (h.store entry.1 entry.2)

/-- Entries that all come behind those that are there are stored as they are. -/
theorem storeAll_eq_append {new : List (K × V)} (h : Ascending cmp (entries ++ new)) :
    Entries.storeAll cmp new entries = entries ++ new := by
  induction new generalizing entries with
  | nil => exact (List.append_nil entries).symm
  | cons entry new ih =>
      obtain ⟨-, -, hbefore⟩ := List.pairwise_append.mp h
      have hsplit : Splits cmp entry.1 entries [] :=
        ⟨fun left hleft => hbefore left hleft entry (List.mem_cons_self ..), nofun⟩
      have hstore := hsplit.store_of_absent entry.2
      rw [List.append_nil] at hstore
      rw [List.append_cons] at h ⊢
      rw [← ih h, ← hstore]
      rfl

/-- Storing under a new key puts one more entry among the others. -/
theorem store_perm [Std.TransCmp cmp] (h : Ascending cmp entries) {key : K}
    (hnew : Entries.find? cmp key entries = none) (value : V) :
    (Entries.store cmp key value entries).Perm ((key, value) :: entries) := by
  rcases h.split_cases key with ⟨low, found, high, rfl, hkey, hsplit⟩ | ⟨low, high, rfl, hsplit⟩
  · rw [hsplit.find?_of_eq hkey] at hnew
    contradiction
  · rw [hsplit.store_of_absent]
    exact List.perm_middle

theorem length_store [Std.TransCmp cmp] (h : Ascending cmp entries) (key : K) (value : V) :
    (Entries.store cmp key value entries).length =
      if (Entries.find? cmp key entries).isSome then entries.length else entries.length + 1 := by
  rcases h.split_cases key with ⟨low, entry, high, rfl, hkey, hsplit⟩ | ⟨low, high, rfl, hsplit⟩
  · rw [hsplit.store_of_eq hkey, hsplit.find?_of_eq hkey]
    simp
  · rw [hsplit.store_of_absent, hsplit.find?_of_absent]
    simp only [List.length_append, List.length_cons, Option.isSome_none, Bool.false_eq_true,
      if_false]
    omega

theorem remove (h : Ascending cmp entries) (key : K) :
    Ascending cmp (Entries.remove cmp key entries) :=
  h.sublist List.filter_sublist

end Ascending

/-! ### The nearest entries -/

namespace Entries

variable {entries : List (K × V)} {entry : K × V} {key : K}

theorem findLE?_eq_some_iff : findLE? cmp key entries = some entry ↔
    ∃ low high, entries = low ++ entry :: high ∧ cmp entry.1 key ≠ .gt ∧
      ∀ later ∈ high, cmp later.1 key = .gt := by
  simp only [findLE?, List.find?_eq_some_iff_append, List.reverse_eq_append_iff,
    List.reverse_cons, List.append_assoc, List.singleton_append, decide_eq_true_eq,
    Bool.not_eq_true', decide_eq_false_iff_not, not_not]
  constructor
  · rintro ⟨hentry, front, back, rfl, hfront⟩
    exact ⟨back.reverse, front.reverse, rfl, hentry, fun later hlater =>
      hfront later (List.mem_reverse.mp hlater)⟩
  · rintro ⟨low, high, rfl, hentry, hhigh⟩
    refine ⟨hentry, high.reverse, low.reverse, ?_, fun later hlater =>
      hhigh later (List.mem_reverse.mp hlater)⟩
    rw [List.reverse_reverse, List.reverse_reverse]

theorem findLE?_eq_none_iff :
    findLE? cmp key entries = none ↔ ∀ entry ∈ entries, cmp entry.1 key = .gt := by
  simp [findLE?]

theorem findGE?_eq_some_iff : findGE? cmp key entries = some entry ↔
    ∃ low high, entries = low ++ entry :: high ∧ cmp entry.1 key ≠ .lt ∧
      ∀ earlier ∈ low, cmp earlier.1 key = .lt := by
  simp only [findGE?, List.find?_eq_some_iff_append, decide_eq_true_eq, Bool.not_eq_true',
    decide_eq_false_iff_not, not_not]
  constructor
  · rintro ⟨hentry, low, high, hlist, hlow⟩
    exact ⟨low, high, hlist, hentry, hlow⟩
  · rintro ⟨low, high, hlist, hentry, hlow⟩
    exact ⟨hentry, low, high, hlist, hlow⟩

theorem findGE?_eq_none_iff :
    findGE? cmp key entries = none ↔ ∀ entry ∈ entries, cmp entry.1 key = .lt := by
  simp [findGE?]

end Entries

/-! ### Entries that were stored -/

namespace Splits

variable {low high : List (K × V)} {entry : K × V} {key other : K} [Std.TransCmp cmp]

/-- Keys that are one key cut a list in the same place. -/
theorem congr_key (h : Splits cmp key low high) (hkey : cmp key other = .eq) :
    Splits cmp other low high := by
  refine ⟨fun entry hentry => ?_, fun entry hentry => ?_⟩
  · exact Std.TransCmp.lt_of_lt_of_eq (h.below entry hentry) hkey
  · exact Std.TransCmp.gt_of_gt_of_eq (h.above entry hentry) hkey

omit [Std.TransCmp cmp] in
/-- An entry that has another key is passed over. -/
theorem find?_append_cons (hentry : cmp entry.1 other ≠ .eq) :
    Entries.find? cmp other (low ++ entry :: high) = Entries.find? cmp other (low ++ high) := by
  rw [Entries.find?, Entries.find?, List.find?_append, List.find?_append,
    List.find?_cons_of_neg (by simpa using hentry)]

end Splits

namespace Ascending

variable {entries : List (K × V)} [Std.TransCmp cmp]

/-- What is found after a value was stored. -/
theorem find?_store (h : Ascending cmp entries) (key : K) (value : V) (other : K) :
    Entries.find? cmp other (Entries.store cmp key value entries) =
      if cmp key other = .eq then
        some (((Entries.find? cmp other entries).map Prod.fst).getD key, value)
      else Entries.find? cmp other entries := by
  rcases h.split_cases key with ⟨low, entry, high, rfl, hentry, hsplit⟩ | ⟨low, high, rfl, hsplit⟩
  · rw [hsplit.store_of_eq hentry]
    split
    · rename_i hkey
      have hsplit' := hsplit.congr_key hkey
      have hother : cmp entry.1 other = .eq := Std.TransCmp.eq_trans hentry hkey
      have hrevised : cmp (entry.1, value).1 other = .eq := hother
      rw [hsplit'.find?_of_eq hrevised, hsplit'.find?_of_eq hother]
      rfl
    · rename_i hkey
      have hother : cmp entry.1 other ≠ .eq := fun hother =>
        hkey (Std.TransCmp.eq_trans (Std.OrientedCmp.eq_symm hentry) hother)
      have hrevised : cmp (entry.1, value).1 other ≠ .eq := hother
      rw [Splits.find?_append_cons hrevised, Splits.find?_append_cons hother]
  · rw [hsplit.store_of_absent]
    split
    · rename_i hkey
      rw [(hsplit.congr_key hkey).find?_of_eq hkey, (hsplit.congr_key hkey).find?_of_absent]
      rfl
    · rename_i hkey
      exact Splits.find?_append_cons hkey

/-- An entry of an ascending list is what is found under its key. -/
theorem mem_iff_find? (h : Ascending cmp entries) (entry : K × V) :
    entry ∈ entries ↔ Entries.find? cmp entry.1 entries = some entry := by
  constructor
  · intro hmem
    obtain ⟨low, high, rfl⟩ := List.append_of_mem hmem
    exact (h.splits Std.ReflCmp.compare_self).find?_of_eq Std.ReflCmp.compare_self
  · exact List.mem_of_find?_eq_some

end Ascending

namespace Entries

/-- There is a last entry with a key if and only if there is a first one. -/
theorem find?_reverse_eq_none_iff {key : K} {entries : List (K × V)} :
    find? cmp key entries.reverse = none ↔ find? cmp key entries = none := by
  simp only [find?, List.find?_eq_none, List.mem_reverse]

/-- The value that comes with the first of the keys is the last one. -/
theorem merge?_map_snd (cmp : K → K → Ordering) (key : K) (entries : List (K × V)) :
    (merge? cmp key entries).map Prod.snd = (find? cmp key entries.reverse).map Prod.snd := by
  rw [merge?]
  cases hfirst : find? cmp key entries with
  | none => rw [find?_reverse_eq_none_iff.mpr hfirst, Option.bind_none]
  | some first => rw [Option.bind_some, Option.map_map, Function.comp_def]

/-- Whoever stores entries one after the other is left with the first key and the last value. -/
theorem find?_storeAll (cmp : K → K → Ordering) [Std.TransCmp cmp] (new : List (K × V)) (key : K) :
    find? cmp key (storeAll cmp new []) = merge? cmp key new := by
  induction new using List.reverseRecOn with
  | nil => rfl
  | append_singleton new entry ih =>
      have hascending : Ascending cmp (storeAll cmp new []) := Ascending.storeAll .nil new
      have hlast : storeAll cmp (new ++ [entry]) [] =
          store cmp entry.1 entry.2 (storeAll cmp new []) := List.foldl_append
      rw [hlast, hascending.find?_store, ih]
      have hfront : find? cmp key (new ++ [entry]) =
          (find? cmp key new).or (find? cmp key [entry]) := List.find?_append
      have hback : find? cmp key (new ++ [entry]).reverse =
          (find? cmp key [entry]).or (find? cmp key new.reverse) := by
        rw [List.reverse_append]
        exact List.find?_append
      rw [merge?, merge?, hfront, hback]
      cases hfirst : find? cmp key new with
      | none =>
          rw [find?_reverse_eq_none_iff.mpr hfirst]
          by_cases hkey : cmp entry.1 key = .eq <;> simp [find?, hkey]
      | some first =>
          cases hlast' : find? cmp key new.reverse with
          | none =>
              rw [find?_reverse_eq_none_iff.mp hlast'] at hfirst
              contradiction
          | some last => by_cases hkey : cmp entry.1 key = .eq <;> simp [find?, hkey]

end Entries

end Multiway
