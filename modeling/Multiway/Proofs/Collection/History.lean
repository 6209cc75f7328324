import Multiway.Json.Decode
import Multiway.Json.Document
import Multiway.Proofs.Collection.SetLaws

/-!
Which element a set keeps.

Elements that are one to the comparison need not be the same, and a set holds one of them at most.
Which one that is depends on all that was done before: it is the one that came when none of them was
there, and nothing that comes later takes its place until it is removed. A history is a list of steps,
so this can be said without a tree. An element stays if a step has inserted it, if the steps before
have left nothing that is one with it, and if no step afterwards has removed it.

A set that is made from a list has a history of insertions only. What comes first in the list stays,
and when only the same elements are one, it does not matter in which order they come.
-/

namespace Multiway

variable {T : Type} {cmp : T → T → Ordering}

namespace SortedSet

/-! ### Histories -/

/-- What can be done to a set. -/
inductive Action (T : Type) where
  | insert (element : T)
  | insertMany (elements : List T)
  | erase (element : T)
  | clear

/-- What an action leaves. -/
def perform (s : SortedSet T) : Action T → Except Fault (SortedSet T)
  | .insert element => Prod.snd <$> s.insert element
  | .insertMany elements => s.insertMany elements
  | .erase element => Prod.snd <$> s.erase element
  | .clear => .ok s.clear

/-- What is left after one action after the other. -/
def run (s : SortedSet T) (actions : List (Action T)) : Except Fault (SortedSet T) :=
  actions.foldlM perform s

namespace Action

/-- An action as steps, which insert one element each. -/
def steps : Action T → List (Action T)
  | .insertMany elements => elements.map .insert
  | action => [action]

/-- Whether a step removes whatever is one with an element. -/
def Removes (cmp : T → T → Ordering) (element : T) : Action T → Prop
  | .erase other => cmp other element = .eq
  | .clear => True
  | .insert _ | .insertMany _ => False

end Action

/-- One of the steps has inserted something, and no step afterwards removes what is one with the
element. Of the steps before it and of what it has inserted, something is asked. -/
def Lasts (cmp : T → T → Ordering) (element : T) (asked : List (Action T) → T → Prop)
    (history : List (Action T)) : Prop :=
  ∃ before inserted after, history = before ++ .insert inserted :: after ∧ asked before inserted ∧
    ∀ step ∈ after, ¬ step.Removes cmp element

/-- The set has something that is one with the element. -/
def Present (cmp : T → T → Ordering) (history : List (Action T)) (element : T) : Prop :=
  Lasts cmp element (fun _ inserted => cmp inserted element = .eq) history

/-- The element itself was inserted, and when it was, nothing that is one with it was present. -/
def Stays (cmp : T → T → Ordering) (history : List (Action T)) (element : T) : Prop :=
  Lasts cmp element (fun before inserted => inserted = element ∧ ¬ Present cmp before element)
    history

variable {history : List (Action T)} {element other : T} {step : Action T}

/-- The insertion was the last step, or the last step has removed nothing of it. -/
theorem lasts_concat {asked : List (Action T) → T → Prop} :
    Lasts cmp element asked (history ++ [step]) ↔
      (∃ inserted, step = .insert inserted ∧ asked history inserted) ∨
        Lasts cmp element asked history ∧ ¬ step.Removes cmp element := by
  constructor
  · rintro ⟨before, inserted, after, hsplit, hasked, hafter⟩
    rcases List.eq_nil_or_concat after with rfl | ⟨rest, last, rfl⟩
    · obtain ⟨rfl, hlast⟩ := List.append_inj' hsplit rfl
      exact .inl ⟨inserted, List.singleton_inj.mp hlast, hasked⟩
    · rw [List.concat_eq_append, ← List.cons_append, ← List.append_assoc] at hsplit
      obtain ⟨rfl, hlast⟩ := List.append_inj' hsplit rfl
      obtain rfl := List.singleton_inj.mp hlast
      rw [List.concat_eq_append] at hafter
      have hrest (other : Action T) (hmem : other ∈ rest) : ¬ other.Removes cmp element :=
        hafter other (List.mem_append_left _ hmem)
      exact .inr ⟨⟨before, inserted, rest, rfl, hasked, hrest⟩, hafter step List.mem_concat_self⟩
  · rintro (⟨inserted, rfl, hasked⟩ | ⟨⟨before, inserted, after, rfl, hasked, hafter⟩, hstep⟩)
    · exact ⟨history, inserted, [], rfl, hasked, nofun⟩
    · refine ⟨before, inserted, after ++ [step], by simp, hasked, fun other hmem => ?_⟩
      rcases List.mem_append.mp hmem with hmem | hmem
      · exact hafter other hmem
      · exact List.mem_singleton.mp hmem ▸ hstep

theorem not_lasts_nil {asked : List (Action T) → T → Prop} : ¬ Lasts cmp element asked [] := by
  rintro ⟨before, inserted, after, hsplit, -⟩
  exact List.append_ne_nil_of_right_ne_nil before (List.cons_ne_nil _ after) hsplit.symm

theorem lasts_insert {asked : List (Action T) → T → Prop} :
    Lasts cmp element asked (history ++ [.insert other]) ↔
      asked history other ∨ Lasts cmp element asked history := by
  have hkept : ¬ (Action.insert other).Removes cmp element := id
  simp [lasts_concat, hkept]

theorem lasts_erase {asked : List (Action T) → T → Prop} :
    Lasts cmp element asked (history ++ [.erase other]) ↔
      Lasts cmp element asked history ∧ cmp other element ≠ .eq := by
  simp [lasts_concat, Action.Removes]

theorem not_lasts_clear {asked : List (Action T) → T → Prop} :
    ¬ Lasts cmp element asked (history ++ [.clear]) := by
  simp [lasts_concat, Action.Removes]

/-! ### Entries -/

/-- The entries are those that stay, and something is found under an element when something is present
that is one with it. -/
structure Recalls (cmp : T → T → Ordering) (history : List (Action T)) (entries : List (T × Unit)) :
    Prop where
  ascending : Ascending cmp entries
  found : ∀ element, (Entries.find? cmp element entries).isSome ↔ Present cmp history element
  stays : ∀ element, (element, ()) ∈ entries ↔ Stays cmp history element

variable {entries : List (T × Unit)}

/-- Nothing was inserted that lasts. -/
theorem recalls_of_not_lasts
    (h : ∀ (element : T) (asked : List (Action T) → T → Prop), ¬ Lasts cmp element asked history) :
    Recalls cmp history [] :=
  ⟨.nil, fun element => ⟨nofun, fun hthere => absurd hthere (h element _)⟩,
    fun element => ⟨nofun, fun hthere => absurd hthere (h element _)⟩⟩

namespace Recalls

variable [Std.TransCmp cmp]

theorem insert (h : Recalls cmp history entries) (other : T) :
    Recalls cmp (history ++ [.insert other]) (Entries.add cmp (other, ()) entries) := by
  have hone (element : T) : Entries.find? cmp element [(other, ())] =
      if cmp other element = .eq then some (other, ()) else none := by
    rw [Entries.find?, List.find?_singleton]
    simp
  constructor
  case ascending => exact h.ascending.add _
  case found =>
    intro element
    rw [Present, lasts_insert, ← Present, ← h.found, h.ascending.find?_add, hone, Option.isSome_or,
      Bool.or_eq_true, or_comm]
    simp
  case stays =>
    intro element
    rw [Stays, lasts_insert, ← Stays, ← h.stays, ← h.found, (h.ascending.add _).mem_iff_find?,
      h.ascending.mem_iff_find?, h.ascending.find?_add, hone]
    -- Where something is found already, nothing new can stay.
    cases Entries.find? cmp element entries with
    | some found => simp
    | none =>
        simp only [Option.none_or, Option.isSome_none]
        constructor
        · intro hnew
          split at hnew
          · exact .inl ⟨congrArg Prod.fst (Option.some.inj hnew), Bool.false_ne_true⟩
          · contradiction
        · rintro (⟨rfl, -⟩ | hnone)
          · rw [if_pos Std.ReflCmp.compare_self]
          · contradiction

theorem insertMany (h : Recalls cmp history entries) (elements : List T) :
    Recalls cmp (history ++ (Action.insertMany elements).steps)
      (Entries.addAll cmp (entriesOf elements) entries) := by
  induction elements generalizing history entries with
  | nil => exact (List.append_nil history).symm ▸ h
  | cons element elements ih =>
      have hrest := ih (h.insert element)
      rwa [List.append_assoc] at hrest

theorem erase (h : Recalls cmp history entries) (other : T) :
    Recalls cmp (history ++ [.erase other]) (Entries.remove cmp other entries) := by
  constructor
  case ascending => exact h.ascending.remove other
  case found =>
    intro element
    rw [Present, lasts_erase, ← Present, ← h.found, Entries.find?_isSome_iff,
      Entries.find?_isSome_iff]
    constructor
    · rintro ⟨entry, hentry, hkey⟩
      obtain ⟨hmem, hkept⟩ := Entries.mem_remove.mp hentry
      exact ⟨⟨entry, hmem, hkey⟩, fun hother =>
        hkept (Std.TransCmp.eq_trans hkey (Std.OrientedCmp.eq_symm hother))⟩
    · rintro ⟨⟨entry, hmem, hkey⟩, hother⟩
      exact ⟨entry, Entries.mem_remove.mpr ⟨hmem, fun hremoved =>
        hother (Std.TransCmp.eq_trans (Std.OrientedCmp.eq_symm hremoved) hkey)⟩, hkey⟩
  case stays =>
    intro element
    rw [Stays, lasts_erase, ← Stays, ← h.stays, Entries.mem_remove]
    exact and_congr_right fun _ => not_congr ⟨Std.OrientedCmp.eq_symm, Std.OrientedCmp.eq_symm⟩

end Recalls

/-! ### Sets -/

variable {s : SortedSet T}

namespace Keeps

theorem clear (h : s.Keeps cmp entries) : s.clear.Keeps cmp [] := by
  obtain ⟨t, rfl, h⟩ := h
  exact ⟨t, rfl, h.clear⟩

variable [Std.TransCmp cmp]

theorem contains_eq (h : s.Keeps cmp entries) (element : T) :
    s.contains element = .ok (Entries.find? cmp element entries).isSome := by
  obtain ⟨t, rfl, h⟩ := h
  exact h.contains_eq element

theorem insert_eq (h : s.Keeps cmp entries) (element : T) :
    ∃ u, s.insert element = .ok (!(Entries.find? cmp element entries).isSome, u) ∧
      u.Keeps cmp (Entries.add cmp (element, ()) entries) := by
  obtain ⟨t, rfl, h⟩ := h
  obtain ⟨u, hinsert, hu⟩ := h.insert_eq element
  exact ⟨u, hinsert, t, rfl, hu⟩

theorem insertMany_eq (h : s.Keeps cmp entries) (elements : List T) :
    ∃ u, s.insertMany elements = .ok u ∧
      u.Keeps cmp (Entries.addAll cmp (entriesOf elements) entries) := by
  obtain ⟨t, rfl, h⟩ := h
  obtain ⟨u, hmany, hu⟩ := h.insertMany_eq elements
  exact ⟨u, hmany, t, rfl, hu⟩

theorem erase_eq (h : s.Keeps cmp entries) (element : T) :
    ∃ u, s.erase element = .ok ((Entries.find? cmp element entries).isSome, u) ∧
      u.Keeps cmp (Entries.remove cmp element entries) := by
  obtain ⟨t, rfl, h⟩ := h
  obtain ⟨u, herase, hu⟩ := h.erase_eq element
  exact ⟨u, herase, t, rfl, hu⟩

/-- What an action does to a set adds its steps to the history. -/
theorem perform (h : s.Keeps cmp entries) (hrecalls : Recalls cmp history entries)
    (action : Action T) : ∃ u entries', s.perform action = .ok u ∧ u.Keeps cmp entries' ∧
      Recalls cmp (history ++ action.steps) entries' := by
  cases action with
  | insert element =>
      obtain ⟨u, hinsert, hu⟩ := h.insert_eq element
      refine ⟨u, _, ?_, hu, hrecalls.insert element⟩
      rw [SortedSet.perform, hinsert]
      rfl
  | insertMany elements =>
      obtain ⟨u, hmany, hu⟩ := h.insertMany_eq elements
      exact ⟨u, _, hmany, hu, hrecalls.insertMany elements⟩
  | erase element =>
      obtain ⟨u, herase, hu⟩ := h.erase_eq element
      refine ⟨u, _, ?_, hu, hrecalls.erase element⟩
      rw [SortedSet.perform, herase]
      rfl
  | clear => exact ⟨s.clear, [], rfl, h.clear, recalls_of_not_lasts fun _ _ => not_lasts_clear⟩

theorem run (h : s.Keeps cmp entries) (hrecalls : Recalls cmp history entries)
    (actions : List (Action T)) : ∃ u entries', s.run actions = .ok u ∧ u.Keeps cmp entries' ∧
      Recalls cmp (history ++ actions.flatMap Action.steps) entries' := by
  induction actions generalizing s history entries with
  | nil => exact ⟨s, entries, rfl, h, by rwa [List.flatMap_nil, List.append_nil]⟩
  | cons action actions ih =>
      obtain ⟨v, between, hfirst, hv, hbetween⟩ := h.perform hrecalls action
      obtain ⟨u, entries', hrest, hu, hentries'⟩ := ih hv hbetween
      refine ⟨u, entries', ?_, hu, ?_⟩
      · rw [SortedSet.run, List.foldlM_cons, hfirst]
        exact hrest
      · rwa [List.flatMap_cons, ← List.append_assoc]

end Keeps

/-- What is seen of a set with this history. -/
structure Remembers (cmp : T → T → Ordering) (history : List (Action T)) (s : SortedSet T) :
    Prop where
  /-- The elements ascend strictly, and they are those that stay. What is present is so because an
  element is held that is one with it. -/
  elements : ∃ elements, s.toList = .ok elements ∧ s.size = elements.length ∧
    elements.Pairwise (fun left right => cmp left right = .lt) ∧
    (∀ element, element ∈ elements ↔ Stays cmp history element) ∧
    ∀ element, Present cmp history element ↔ ∃ held ∈ elements, cmp held element = .eq
  contains : ∀ element, ∃ there, s.contains element = .ok there ∧
    (there = true ↔ Present cmp history element)
  /-- An element that is one with a present one leaves the set as it is, in all its parts. -/
  refuse : ∀ element, Present cmp history element → s.insert element = .ok (false, s)
  accept : ∀ element, ¬ Present cmp history element → ∃ u, s.insert element = .ok (true, u) ∧
    u.size = s.size + 1
  erase : ∀ element, ∃ removed u, s.erase element = .ok (removed, u) ∧
    (removed = true ↔ Present cmp history element)

/-- What is seen of a set that was made from a list. -/
structure Gathers (cmp : T → T → Ordering) (list : List T) (s : SortedSet T) : Prop where
  /-- The elements ascend strictly, and of those in the list that are one the first is held. -/
  elements : ∃ elements, s.toList = .ok elements ∧ s.size = elements.length ∧
    elements.Pairwise (fun left right => cmp left right = .lt) ∧
    (∀ element, element ∈ elements ↔
      list.find? (fun first => cmp first element = .eq) = some element) ∧
    ((∀ left right, cmp left right = .eq → left = right) →
      ∀ element, element ∈ elements ↔ element ∈ list)
  json : ∀ [Json.ArrayReader T] (text : String), Json.readElements text = .ok list →
    ofJson cmp text = .ok (.ok s)
  /-- In another order the list makes a set that the comparison cannot tell from this one. -/
  permuted : ∀ list', list.Perm list' → ∃ u, ofList cmp list' = .ok u ∧ s.Matches cmp u

/-- What is written of a set is the array of its elements. As long as these elements are read back from
what is written of them, the text makes the same set. -/
def ReadsBack [Json.ArrayWriter T] [Json.ArrayReader T] (cmp : T → T → Ordering) (s : SortedSet T) :
    Prop :=
  ∃ elements, s.toList = .ok elements ∧
    s.toJson = .ok ((Json.writeElements .compact elements).mapError .undecodable) ∧
    (Json.ElementsReadBack elements → ∀ text, s.toJson = .ok (.ok text) →
      ∃ u, ofJson cmp text = .ok (.ok u) ∧ u.Coincides s)

theorem keeps_of_sound_none {t : Tree T Unit} (h : t.Sound none) :
    (⟨t⟩ : SortedSet T).Keeps t.cmp [] :=
  ⟨t, rfl, .refl t, none, h, rfl⟩

theorem mem_map_fst : element ∈ entries.map Prod.fst ↔ (element, ()) ∈ entries := by
  rw [List.mem_map]
  exact ⟨fun ⟨⟨_, ()⟩, hmem, rfl⟩ => hmem, fun hmem => ⟨_, hmem, rfl⟩⟩

variable [Std.TransCmp cmp]

/-- Making a set of elements is adding all of them. -/
theorem ofList_keeps (cmp : T → T → Ordering) [Std.TransCmp cmp] (list : List T) :
    ∃ s, ofList cmp list = .ok s ∧ s.Keeps cmp (Entries.addAll cmp (entriesOf list) []) := by
  have hempty : (empty cmp).Keeps cmp [] := keeps_of_sound_none Tree.sound_standard
  exact hempty.insertMany_eq list

/-- What is found among the elements of a list is the first one. -/
theorem find?_entriesOf (list : List T) (element : T) :
    Entries.find? cmp element (Entries.addAll cmp (entriesOf list) []) =
      (list.find? fun first => cmp first element = .eq).map fun first => (first, ()) := by
  rw [Ascending.find?_addAll .nil, entriesOf, Entries.find?, Entries.find?, List.find?_nil,
    Option.none_or, List.find?_map]
  rfl

namespace Keeps

theorem remembers (h : s.Keeps cmp entries) (hrecalls : Recalls cmp history entries) :
    s.Remembers cmp history := by
  constructor
  case elements =>
    refine ⟨_, h.toList_eq, h.size_eq.trans (List.length_map _).symm,
      List.pairwise_map.mpr h.ascending, fun element => ?_, fun element => ?_⟩
    · rw [mem_map_fst, hrecalls.stays]
    · rw [← hrecalls.found, Entries.find?_isSome_iff]
      simp
  case contains => exact fun element => ⟨_, h.contains_eq element, hrecalls.found element⟩
  case refuse =>
    intro element hpresent
    rw [insert, h.contains_eq, (hrecalls.found element).mpr hpresent]
    rfl
  case accept =>
    intro element habsent
    obtain ⟨u, hinsert, hu⟩ := h.insert_eq element
    have hnone : (Entries.find? cmp element entries).isSome = false :=
      Bool.eq_false_iff.mpr (mt (hrecalls.found element).mp habsent)
    have hsize := h.ascending.length_store element ()
    rw [hnone] at hinsert
    rw [Entries.add, hnone] at hu
    rw [hnone] at hsize
    exact ⟨u, hinsert, by rw [hu.size_eq, h.size_eq]; exact hsize⟩
  case erase =>
    intro element
    obtain ⟨u, herase, -⟩ := h.erase_eq element
    exact ⟨_, u, herase, hrecalls.found element⟩

theorem gathers {list : List T} (hmake : ofList cmp list = .ok s)
    (h : s.Keeps cmp (Entries.addAll cmp (entriesOf list) [])) : s.Gathers cmp list := by
  have hfirst (element : T) : element ∈ (Entries.addAll cmp (entriesOf list) []).map Prod.fst ↔
      list.find? (fun first => cmp first element = .eq) = some element := by
    rw [mem_map_fst, h.ascending.mem_iff_find?, find?_entriesOf]
    simp
  constructor
  case elements =>
    refine ⟨_, h.toList_eq, h.size_eq.trans (List.length_map _).symm,
      List.pairwise_map.mpr h.ascending, hfirst, fun hone element => ?_⟩
    rw [hfirst]
    refine ⟨List.mem_of_find?_eq_some, fun hmem => ?_⟩
    have hsome : (list.find? fun first => cmp first element = .eq).isSome := by
      rw [List.find?_isSome]
      exact ⟨element, hmem, decide_eq_true Std.ReflCmp.compare_self⟩
    obtain ⟨first, hfound⟩ := Option.isSome_iff_exists.mp hsome
    have hkey := List.find?_some hfound
    rw [hfound, hone first element (of_decide_eq_true hkey)]
  case json =>
    intro _ text hread
    rw [ofJson, hread]
    simp only [hmake]
    rfl
  case permuted =>
    intro list' hperm
    obtain ⟨u, hmake', hu⟩ := ofList_keeps cmp list'
    refine ⟨u, hmake', h.matches_of_forall₂ hu ?_⟩
    refine h.ascending.forall₂_of_isSome hu.ascending fun key => ?_
    rw [find?_entriesOf, find?_entriesOf, Option.isSome_map, Option.isSome_map, Bool.eq_iff_iff,
      List.find?_isSome, List.find?_isSome]
    simp only [hperm.mem_iff]

theorem readsBack [Json.ArrayWriter T] [Json.ArrayReader T] (h : s.Keeps cmp entries) :
    s.ReadsBack cmp := by
  have hwritten : s.toJson =
      .ok ((Json.writeElements .compact (entries.map Prod.fst)).mapError .undecodable) := by
    rw [toJson, h.toList_eq]
    rfl
  refine ⟨_, h.toList_eq, hwritten, fun hreads text htext => ?_⟩
  rw [hwritten, Except.ok.injEq, mapError_eq_ok] at htext
  have hread := hreads text htext
  obtain ⟨u, hmake, hu⟩ := ofList_keeps cmp (entries.map Prod.fst)
  have hagain := (hu.gathers hmake).json _ hread
  rw [entriesOf_map_fst] at hu
  refine ⟨u, hagain, hu.coincides h (hu.ascending.eq_of_find? h.ascending fun key => ?_)⟩
  rw [Ascending.find?_addAll .nil]
  rfl

end Keeps

theorem ofOrder_keeps (cmp : T → T → Ordering) {asked : Nat} (hasked : Fanout.smallest ≤ asked) :
    ∃ s, ofOrder asked cmp = .ok s ∧ s.tree.order = max asked 3 ∧ s.Keeps cmp [] := by
  have hoptions : Fanout.smallest ≤ ({ order := asked } : Options).order := hasked
  have hempty : (Tree.empty ⟨max asked 3, Nat.le_max_right ..⟩ ({} : Options).freeCapacity cmp :
    Tree T Unit).Sound none := Tree.sound_empty ..
  refine ⟨_, ?_, rfl, keeps_of_sound_none hempty⟩
  rw [ofOrder, Tree.ofOrder, Tree.ofOptions_eq hoptions]
  rfl

end SortedSet

/-- Whatever is done to a set, of all elements that are one it holds the one that came first, and it
tells which were new and which were there. A set can be made from a list or from a text, and the order
of the list decides nothing else; and what is written of a set is the set again. Two sets are equal if
and only if they have the same elements. -/
theorem set_keeps_first (hcmp : Consistent cmp) :
    (∀ asked, Fanout.smallest ≤ asked → ∀ actions : List (SortedSet.Action T), ∃ start s,
      SortedSet.ofOrder asked cmp = .ok start ∧ start.tree.order = max asked 3 ∧
      start.run actions = .ok s ∧
      s.Remembers cmp (actions.flatMap SortedSet.Action.steps)) ∧
    (∀ list, ∃ s, SortedSet.ofList cmp list = .ok s ∧ s.Gathers cmp list) ∧
    (∀ s, SortedSet.Reachable cmp s → ∀ [Json.ArrayWriter T] [Json.ArrayReader T],
      s.ReadsBack cmp) ∧
    ∀ s u, SortedSet.Reachable cmp s → SortedSet.Reachable cmp u → s.Compares u := by
  have := hcmp.transCmp
  refine ⟨fun asked hasked actions => ?_, fun list => ?_, fun s hreach _ _ => ?_,
    fun s u hreach hreach' => ?_⟩
  · obtain ⟨start, hmake, horder, hstart⟩ := SortedSet.ofOrder_keeps cmp hasked
    obtain ⟨s, entries, hrun, hs, hrecalls⟩ := hstart.run
      (SortedSet.recalls_of_not_lasts fun _ _ => SortedSet.not_lasts_nil) actions
    exact ⟨start, s, hmake, horder, hrun, hs.remembers hrecalls⟩
  · obtain ⟨s, hmake, hs⟩ := SortedSet.ofList_keeps cmp list
    exact ⟨s, hmake, hs.gathers hmake⟩
  · obtain ⟨entries, hs⟩ := hreach.keeps
    exact hs.readsBack
  · obtain ⟨entries, hs⟩ := hreach.keeps
    obtain ⟨entries', hu⟩ := hreach'.keeps
    exact hs.compares hu

/-- Elements are told apart by their last digits. The first of 12, 22 and 32 stays until 42 removes it,
and then 52 stays. Where only a number itself is the same, it does not matter how often it comes. -/
theorem set_keeps_first_digits :
    Consistent (compareOn fun n : UInt8 => n % 10) ∧
      Consistent (compare : UInt8 → UInt8 → Ordering) ∧
      (∃ start s : SortedSet UInt8, SortedSet.ofOrder 2 (compareOn (· % 10)) = .ok start ∧
        start.run [.insertMany [12, 22, 7, 32], .erase 42, .insert 52, .insert 62] = .ok s ∧
        s.toList = .ok [52, 7] ∧ s.insert 2 = .ok (false, s) ∧
        SortedSet.Stays (compareOn fun n : UInt8 => n % 10) [.insert 12, .insert 22, .insert 7,
          .insert 32, .erase 42, .insert 52, .insert 62] 52) ∧
      (∃ s u : SortedSet UInt8, SortedSet.ofList compare [3, 1, 3, 2] = .ok s ∧
        SortedSet.ofList compare [2, 3, 3, 1] = .ok u ∧ (∃ elements, s.toList = .ok elements ∧
          ∀ n, n ∈ elements ↔ n ∈ [3, 1, 3, 2]) ∧ s.equal u = .ok true) ∧
      ∃ s again : SortedSet UInt8, s.Reachable (compareOn (· % 10)) ∧ s.toList = .ok [52, 7] ∧
        s.toJson = .ok (.ok "[52,7]") ∧ Json.ElementsReadBack ([52, 7] : List UInt8) ∧
        SortedSet.ofJson (compareOn (· % 10)) "[52,7]" = .ok (.ok again) ∧
        again.equal s = .ok true := by
  have hcmp : Consistent (compareOn fun n : UInt8 => n % 10) := Consistent.of_transCmp
  have hnatural : Consistent (compare : UInt8 → UInt8 → Ordering) := Consistent.of_transCmp
  obtain ⟨hruns, -, hreads, -⟩ := set_keeps_first hcmp
  obtain ⟨-, hlists, -, -⟩ := set_keeps_first hnatural
  refine ⟨hcmp, hnatural, ?_, ?_, ?_⟩
  · obtain ⟨start, s, hmake, -, hrun, hs⟩ := hruns 2 (by decide)
      [.insertMany [12, 22, 7, 32], .erase 42, .insert 52, .insert 62]
    have hshown : ((SortedSet.ofOrder 2 (compareOn fun n : UInt8 => n % 10)).toOption.bind
        fun start =>
          (start.run [.insertMany [12, 22, 7, 32], .erase 42, .insert 52, .insert 62]).toOption.bind
            fun s => s.toList.toOption) = some [52, 7] := by decide +kernel
    rw [hmake] at hshown
    change ((start.run _).toOption.bind _) = _ at hshown
    rw [hrun] at hshown
    have hlist : s.toList = .ok [52, 7] := toOption_eq_some.mp hshown
    obtain ⟨elements, helements, -, -, hstays, hpresent⟩ := hs.elements
    obtain rfl := Except.ok.inj (helements.symm.trans hlist)
    exact ⟨start, s, hmake, hrun, hlist, hs.refuse 2 ((hpresent 2).mpr ⟨52, by decide, by decide⟩),
      (hstays 52).mp (by decide)⟩
  · obtain ⟨s, hmake, hs⟩ := hlists [3, 1, 3, 2]
    have hone (left right : UInt8) (heq : compare left right = .eq) : left = right :=
      Std.LawfulEqCmp.eq_of_compare heq
    obtain ⟨elements, hlist, -, -, -, hmem⟩ := hs.elements
    obtain ⟨u, hmake', hmatches⟩ := hs.permuted [2, 3, 3, 1] (by decide)
    exact ⟨s, u, hmake, hmake', ⟨elements, hlist, hmem hone⟩, (hmatches.coincides hone).equal⟩
  · obtain ⟨s, hreach, hlist, htext⟩ : ∃ s : SortedSet UInt8, s.Reachable (compareOn (· % 10)) ∧
        s.toList = .ok [52, 7] ∧ s.toJson = .ok (.ok "[52,7]") :=
      SortedSet.exists_reachable 2 [52, 7, 62] (by decide +kernel)
    have hback : Json.ElementsReadBack ([52, 7] : List UInt8) := by
      have hwrite : Json.writeElements .compact ([52, 7] : List UInt8) = .ok "[52,7]" := by
        decide +kernel
      have hread : (Json.readElements "[52,7]" : Except Json.Failure (List UInt8)) =
          .ok [52, 7] := by decide +kernel
      intro text htext
      obtain rfl := Except.ok.inj (htext.symm.trans hwrite)
      exact hread
    obtain ⟨elements, helements, -, hagain⟩ := hreads s hreach
    obtain rfl := Except.ok.inj (helements.symm.trans hlist)
    obtain ⟨u, hmake, hcoincides⟩ := hagain hback "[52,7]" htext
    exact ⟨s, u, hreach, hlist, htext, hback, hmake, hcoincides.equal⟩

end Multiway
