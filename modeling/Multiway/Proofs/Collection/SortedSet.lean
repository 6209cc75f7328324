import Multiway.Collection.SortedSet
import Multiway.Proofs.Collection.Representatives
import Multiway.Proofs.Run.Copying

/-!
Sorted sets and their elements.

A set does nothing to its tree that cannot be done to any tree: it stores an element that is not there,
takes one out, and starts again from a blank tree. So a set that can be had in any way has a tree that
can be reached, also when it was combined from two sets that are compared in different ways, for only
the elements of the second one come in.

What the operations do to the elements is told on ascending lists. The values of the entries carry
nothing, so the elements of a set are the keys of its tree.
-/

namespace Multiway

variable {T : Type} {cmp other : T → T → Ordering}

namespace SortedSet

/-- The sets that can be had, with the comparison that each of them has. -/
inductive Reachable : (T → T → Ordering) → SortedSet T → Prop
  | empty {cmp : T → T → Ordering} : Reachable cmp (empty cmp)
  | order {cmp : T → T → Ordering} {asked : Nat} {s : SortedSet T}
      (hmake : ofOrder asked cmp = .ok s) : Reachable cmp s
  | list {cmp : T → T → Ordering} {elements : List T} {s : SortedSet T}
      (hmake : ofList cmp elements = .ok s) : Reachable cmp s
  | json [Json.ArrayReader T] {cmp : T → T → Ordering} {text : String} {s : SortedSet T}
      (hmake : ofJson cmp text = .ok (.ok s)) : Reachable cmp s
  | insert {cmp : T → T → Ordering} {s u : SortedSet T} {element : T} {added : Bool}
      (h : Reachable cmp s) (hstep : s.insert element = .ok (added, u)) : Reachable cmp u
  | insertMany {cmp : T → T → Ordering} {s u : SortedSet T} {elements : List T}
      (h : Reachable cmp s) (hstep : s.insertMany elements = .ok u) : Reachable cmp u
  | erase {cmp : T → T → Ordering} {s u : SortedSet T} {element : T} {removed : Bool}
      (h : Reachable cmp s) (hstep : s.erase element = .ok (removed, u)) : Reachable cmp u
  | clear {cmp : T → T → Ordering} {s : SortedSet T} (h : Reachable cmp s) : Reachable cmp s.clear
  | copy {cmp : T → T → Ordering} {s u : SortedSet T} (h : Reachable cmp s)
      (hstep : s.copy = .ok u) : Reachable cmp u
  | union {cmp cmp' : T → T → Ordering} {s s' u : SortedSet T} (h : Reachable cmp s)
      (h' : Reachable cmp' s') (hstep : s.union s' = .ok u) : Reachable cmp u
  | intersection {cmp cmp' : T → T → Ordering} {s s' u : SortedSet T} (h : Reachable cmp s)
      (h' : Reachable cmp' s') (hstep : s.intersection s' = .ok u) : Reachable cmp u
  | difference {cmp cmp' : T → T → Ordering} {s s' u : SortedSet T} (h : Reachable cmp s)
      (h' : Reachable cmp' s') (hstep : s.difference s' = .ok u) : Reachable cmp u

/-! ### Trees of sets -/

/-- What every step of a sequence keeps is kept by the whole of it. -/
theorem foldlM_keeps {σ α : Type} (holds : σ → Prop) {step : σ → α → Except Fault σ}
    (hstep : ∀ state item next, holds state → step state item = .ok next → holds next)
    {items : List α} {state final : σ} (h : holds state)
    (hfold : items.foldlM step state = .ok final) : holds final := by
  induction items generalizing state with
  | nil =>
      obtain rfl := Except.ok.inj hfold
      exact h
  | cons item items ih =>
      rw [List.foldlM_cons] at hfold
      obtain ⟨next, hfirst, hrest⟩ := bind_eq_ok.mp hfold
      exact ih (hstep state item next h hfirst) hrest

theorem reachable_store {t : Tree T Unit} {element : T}
    {change : Change (Tree T Unit) (Option Unit)} (h : t.Reachable cmp)
    (hstep : t.insert element () = .ok change) : change.state.Reachable cmp := by
  have hperform : t.perform (.insert element ()) = .ok (change.answerAs .value) := by
    rw [Tree.perform, hstep]
    rfl
  exact h.perform hperform

theorem reachable_insert {s u : SortedSet T} {element : T} {added : Bool}
    (h : s.tree.Reachable cmp) (hstep : s.insert element = .ok (added, u)) :
    u.tree.Reachable cmp := by
  obtain ⟨there, -, hstep⟩ := bind_eq_ok.mp hstep
  cases there with
  | true =>
      obtain ⟨-, rfl⟩ := Prod.mk.inj (Except.ok.inj hstep)
      exact h
  | false =>
      obtain ⟨change, hstore, hstep⟩ := bind_eq_ok.mp hstep
      obtain ⟨-, rfl⟩ := Prod.mk.inj (Except.ok.inj hstep)
      exact reachable_store h hstore

theorem reachable_insertMany {s u : SortedSet T} {elements : List T} (h : s.tree.Reachable cmp)
    (hstep : s.insertMany elements = .ok u) : u.tree.Reachable cmp := by
  refine foldlM_keeps (fun s => s.tree.Reachable cmp) ?_ h hstep
  intro s element next hs hone
  obtain ⟨⟨added, v⟩, hinsert, hone⟩ := bind_eq_ok.mp hone
  obtain rfl := Except.ok.inj hone
  exact reachable_insert hs hinsert

theorem reachable_copy {s u : SortedSet T} (h : s.tree.Reachable cmp) (hstep : s.copy = .ok u) :
    u.tree.Reachable cmp := by
  obtain ⟨tree, hcopy, hstep⟩ := bind_eq_ok.mp hstep
  obtain rfl := Except.ok.inj hstep
  have hperform : s.tree.perform .copy = .ok ⟨.done, tree, []⟩ := by
    rw [Tree.perform, hcopy]
    rfl
  exact h.perform hperform

theorem reachable_filter {s u : SortedSet T} {test : T → Except Fault Bool}
    (h : s.tree.Reachable cmp) (hstep : s.filter test = .ok u) : u.tree.Reachable cmp := by
  obtain ⟨elements, -, hstep⟩ := bind_eq_ok.mp hstep
  obtain ⟨tree, hfold, hstep⟩ := bind_eq_ok.mp hstep
  obtain rfl := Except.ok.inj hstep
  have hblank : s.tree.perform .blank = .ok ⟨.done, s.tree.blank, []⟩ := rfl
  refine foldlM_keeps (fun t => t.Reachable cmp) ?_ (h.perform hblank) hfold
  intro t element next ht hone
  obtain ⟨passes, -, hone⟩ := bind_eq_ok.mp hone
  cases passes with
  | true =>
      obtain ⟨change, hstore, hone⟩ := bind_eq_ok.mp hone
      obtain rfl := Except.ok.inj hone
      exact reachable_store ht hstore
  | false =>
      obtain rfl := Except.ok.inj hone
      exact ht

theorem reachable_empty (cmp : T → T → Ordering) : (empty cmp).tree.Reachable cmp :=
  ⟨.standard, _, [], [], [], rfl, rfl⟩

/-- The tree of a set that can be had can be reached. -/
theorem Reachable.tree {s : SortedSet T} (h : Reachable cmp s) : s.tree.Reachable cmp := by
  induction h with
  | empty => exact reachable_empty _
  | @order cmp asked s hmake =>
      cases htree : (Tree.ofOrder asked cmp : Except Error (Tree T Unit)) with
      | error refused =>
          rw [ofOrder, htree] at hmake
          contradiction
      | ok tree =>
          rw [ofOrder, htree] at hmake
          obtain rfl := Except.ok.inj hmake
          exact ⟨.order asked, tree, [], [], [], congrArg Except.ok htree, rfl⟩
  | list hmake => exact reachable_insertMany (reachable_empty _) hmake
  | @json _ cmp text s hmake =>
      rw [ofJson] at hmake
      cases hread : (Json.readElements text : Except Json.Failure (List T)) with
      | error failure =>
          rw [hread] at hmake
          exact nomatch Except.ok.inj hmake
      | ok elements =>
          rw [hread] at hmake
          obtain ⟨made, hlist, hmake⟩ := bind_eq_ok.mp hmake
          obtain rfl := Except.ok.inj (Except.ok.inj hmake)
          exact reachable_insertMany (reachable_empty _) hlist
  | insert _ hstep ih => exact reachable_insert ih hstep
  | insertMany _ hstep ih => exact reachable_insertMany ih hstep
  | @erase cmp s u element removed _ hstep ih =>
      obtain ⟨change, herase, hstep⟩ := bind_eq_ok.mp hstep
      obtain ⟨-, rfl⟩ := Prod.mk.inj (Except.ok.inj hstep)
      have hperform : s.tree.perform (.erase element) = .ok (change.answerAs .value) := by
        rw [Tree.perform, herase]
        rfl
      exact ih.perform hperform
  | @clear cmp s _ ih =>
      have hperform : s.tree.perform .clear = .ok (s.tree.clear.answerAs fun _ => .done) := rfl
      exact ih.perform hperform
  | copy _ hstep ih => exact reachable_copy ih hstep
  | union _ _ hstep ih _ =>
      obtain ⟨made, hcopy, hstep⟩ := bind_eq_ok.mp hstep
      obtain ⟨elements, -, hstep⟩ := bind_eq_ok.mp hstep
      exact reachable_insertMany (reachable_copy ih hcopy) hstep
  | intersection _ _ hstep ih _ => exact reachable_filter ih hstep
  | difference _ _ hstep ih _ => exact reachable_filter ih hstep

/-! ### Elements -/

/-- A set whose tree is made like `t` has these entries. -/
structure Has (s : SortedSet T) (t : Tree T Unit) (entries : List (T × Unit)) : Prop where
  alike : t.Alike s.tree
  sound : ∃ l?, s.tree.Sound l? ∧ Shape.contents (l?.map Layout.shape) = entries

/-- Elements as entries of a tree. -/
def entriesOf (elements : List T) : List (T × Unit) := elements.map fun element => (element, ())

@[simp] theorem entriesOf_map_fst (entries : List (T × Unit)) :
    entriesOf (entries.map Prod.fst) = entries := by
  rw [entriesOf, List.map_map]
  exact List.map_id entries

variable {s s' : SortedSet T} {t t' : Tree T Unit} {entries entries' : List (T × Unit)}

theorem Has.ascending (h : s.Has t entries) : Ascending t.cmp entries := by
  obtain ⟨l?, hsound, rfl⟩ := h.sound
  exact h.alike.cmp ▸ hsound.ascending

theorem Has.size_eq (h : s.Has t entries) : s.size = entries.length := by
  obtain ⟨l?, hsound, rfl⟩ := h.sound
  exact hsound.size_eq

theorem Has.copy_eq (h : s.Has t entries) : ∃ u, s.copy = .ok u ∧ u.Has t entries := by
  obtain ⟨l?, hsound, rfl⟩ := h.sound
  obtain ⟨tree, l?', hcopy, htree, hshape, halike, -⟩ := hsound.copy
  refine ⟨⟨tree⟩, ?_, h.alike.trans halike, l?', htree, congrArg Shape.contents hshape⟩
  rw [copy, hcopy]
  rfl

theorem Has.clear (h : s.Has t entries) : s.clear.Has t [] :=
  ⟨h.alike.trans s.tree.alike_clear, none, s.tree.sound_clear, rfl⟩

section lists

variable [Std.TransCmp t.cmp]

theorem Has.toList_eq (h : s.Has t entries) : s.toList = .ok (entries.map Prod.fst) := by
  obtain ⟨l?, hsound, rfl⟩ := h.sound
  have := h.alike.transCmp
  exact hsound.walk_toList Prod.fst

theorem Has.contains_eq (h : s.Has t entries) (element : T) :
    s.contains element = .ok (Entries.find? t.cmp element entries).isSome := by
  obtain ⟨l?, hsound, rfl⟩ := h.sound
  have := h.alike.transCmp
  rw [← h.alike.cmp]
  exact hsound.contains_eq element

/-- Storing an element in the tree of a set. -/
theorem Has.store_eq (h : s.Has t entries) (element : T) :
    ∃ change, s.tree.insert element () = .ok change ∧
      (⟨change.state⟩ : SortedSet T).Has t (Entries.store t.cmp element () entries) := by
  obtain ⟨l?, hsound, rfl⟩ := h.sound
  have := h.alike.transCmp
  obtain ⟨tree, l, hinsert, htree, -, hstored, halike, -⟩ := hsound.insert element ()
  rw [h.alike.cmp] at hstored
  exact ⟨_, hinsert, h.alike.trans halike, some l, htree, hstored⟩

/-- Inserting tells whether the element is new, and adds it if it is. -/
theorem Has.insert_eq (h : s.Has t entries) (element : T) :
    ∃ u, s.insert element = .ok (!(Entries.find? t.cmp element entries).isSome, u) ∧
      u.Has t (Entries.add t.cmp (element, ()) entries) := by
  rw [insert, h.contains_eq, Entries.add]
  cases hfound : (Entries.find? t.cmp element entries).isSome with
  | true => exact ⟨s, rfl, h⟩
  | false =>
      obtain ⟨change, hstore, hchange⟩ := h.store_eq element
      refine ⟨⟨change.state⟩, ?_, hchange⟩
      rw [ok_bind, if_neg Bool.false_ne_true, hstore]
      rfl

theorem Has.insertMany_eq (h : s.Has t entries) (elements : List T) :
    ∃ u, s.insertMany elements = .ok u ∧
      u.Has t (Entries.addAll t.cmp (entriesOf elements) entries) := by
  induction elements generalizing s entries with
  | nil => exact ⟨s, rfl, h⟩
  | cons element elements ih =>
      obtain ⟨v, hinsert, hv⟩ := h.insert_eq element
      obtain ⟨u, hmany, hu⟩ := ih hv
      refine ⟨u, ?_, hu⟩
      rw [insertMany, List.foldlM_cons, hinsert]
      exact hmany

/-- Erasing tells whether the element was there, and takes it out. -/
theorem Has.erase_eq (h : s.Has t entries) (element : T) :
    ∃ u, s.erase element = .ok ((Entries.find? t.cmp element entries).isSome, u) ∧
      u.Has t (Entries.remove t.cmp element entries) := by
  obtain ⟨l?, hsound, rfl⟩ := h.sound
  obtain ⟨tall, hstands⟩ := hsound.stands
  have := h.alike.transCmp
  obtain ⟨tree, l?', ids, herase, htree, hshape, halike, -⟩ := hsound.erase element
  have hlist := (Shape.erase_spec hstands hsound.ascending element).1
  rw [h.alike.cmp] at herase hshape hlist
  refine ⟨⟨tree⟩, ?_, h.alike.trans halike, l?', htree, by rw [hshape, hlist]⟩
  rw [erase, herase, ok_bind, Option.isSome_map]
  rfl

/-- The entries that pass a test come in ascending order, so each of them is stored behind those that
came before it. -/
theorem Has.filter_from {test : T → Except Fault Bool} {passes : T → Bool}
    (htest : ∀ element, test element = .ok (passes element)) {kept rest : List (T × Unit)}
    (h : s.Has t kept) (hascending : Ascending t.cmp (kept ++ rest)) :
    ∃ tree, (rest.map Prod.fst).foldlM (fun (tree : Tree T Unit) element => do
        if ← test element then return (← tree.insert element ()).state
        return tree) s.tree = .ok tree ∧
      (⟨tree⟩ : SortedSet T).Has t (kept ++ rest.filter fun entry => passes entry.1) := by
  induction rest generalizing s kept with
  | nil => exact ⟨s.tree, rfl, by simpa using h⟩
  | cons entry rest ih =>
      rw [List.map_cons, List.foldlM_cons, htest]
      cases hpasses : passes entry.1 with
      | true =>
          obtain ⟨-, -, hbefore⟩ := List.pairwise_append.mp hascending
          have hsplit : Splits t.cmp entry.1 kept [] :=
            ⟨fun left hleft => hbefore left hleft entry (List.mem_cons_self ..), nofun⟩
          have hstored := hsplit.store_of_absent ()
          rw [List.append_nil] at hstored
          obtain ⟨change, hstore, hchange⟩ := h.store_eq entry.1
          rw [hstored] at hchange
          obtain ⟨tree, hfold, htree⟩ := ih hchange (by simpa using hascending)
          refine ⟨tree, ?_, by simpa [List.filter_cons, hpasses] using htree⟩
          simp only [ok_bind, if_true, hstore, pure_eq_ok]
          exact hfold
      | false =>
          obtain ⟨tree, hfold, htree⟩ := ih h hascending.erase
          refine ⟨tree, ?_, by simpa [List.filter_cons, hpasses] using htree⟩
          simp only [ok_bind, Bool.false_eq_true, if_false, pure_eq_ok]
          exact hfold

theorem Has.filter_eq (h : s.Has t entries) {test : T → Except Fault Bool} {passes : T → Bool}
    (htest : ∀ element, test element = .ok (passes element)) :
    ∃ u, s.filter test = .ok u ∧ u.Has t (entries.filter fun entry => passes entry.1) := by
  have hblank : (⟨s.tree.blank⟩ : SortedSet T).Has t [] :=
    ⟨h.alike.trans s.tree.alike_blank, none, Tree.sound_empty .., rfl⟩
  obtain ⟨tree, hfold, htree⟩ := hblank.filter_from htest h.ascending
  refine ⟨⟨tree⟩, ?_, htree⟩
  rw [filter, h.toList_eq, ok_bind, hfold]
  rfl

/-! ### Two sets -/

variable [Std.TransCmp t'.cmp]

theorem Has.union_eq (h : s.Has t entries) (h' : s'.Has t' entries') :
    ∃ u, s.union s' = .ok u ∧ u.Has t (Entries.addAll t.cmp entries' entries) := by
  obtain ⟨v, hcopy, hv⟩ := h.copy_eq
  obtain ⟨u, hmany, hu⟩ := hv.insertMany_eq (entries'.map Prod.fst)
  rw [entriesOf_map_fst] at hu
  refine ⟨u, ?_, hu⟩
  rw [union, hcopy, h'.toList_eq]
  exact hmany

theorem Has.intersection_eq (h : s.Has t entries) (h' : s'.Has t' entries') :
    ∃ u, s.intersection s' = .ok u ∧ u.Has t (Entries.shared t'.cmp entries' entries) :=
  h.filter_eq h'.contains_eq

theorem Has.difference_eq (h : s.Has t entries) (h' : s'.Has t' entries') :
    ∃ u, s.difference s' = .ok u ∧ u.Has t (Entries.unshared t'.cmp entries' entries) := by
  have habsent (element : T) : (! ·) <$> s'.contains element =
      .ok (!(Entries.find? t'.cmp element entries').isSome) := by
    rw [h'.contains_eq]
    rfl
  exact h.filter_eq habsent

end lists

/-- A set that can be had has some entries. -/
theorem Reachable.has [Std.TransCmp cmp] (h : Reachable cmp s) :
    s.tree.cmp = cmp ∧ ∃ entries, s.Has s.tree entries := by
  obtain ⟨l?, hsound, hcmp⟩ := h.tree.sound
  exact ⟨hcmp, _, .refl _, l?, hsound, rfl⟩

/-- The set that an order and some elements leave, unless the order is refused. -/
def leaves? (asked : Nat) (cmp : T → T → Ordering) (elements : List T) : Option (SortedSet T) :=
  (ofOrder asked cmp).toOption.bind fun s => (s.insertMany elements).toOption

/-- What is seen on the set that an order and some elements leave, some set that can be had shows. -/
theorem exists_reachable (asked : Nat) (elements : List T) {holds : SortedSet T → Prop}
    (h : ∃ s ∈ leaves? asked cmp elements, holds s) : ∃ s, Reachable cmp s ∧ holds s := by
  obtain ⟨s, hleaves, hholds⟩ := h
  obtain ⟨start, hstart, hmany⟩ := Option.bind_eq_some_iff.mp hleaves
  exact ⟨s, .insertMany (.order (toOption_eq_some.mp hstart))
    (toOption_eq_some.mp hmany), hholds⟩

end SortedSet

end Multiway
