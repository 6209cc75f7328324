import Multiway.Proofs.Run.Travel

/-!
Taking entries at both ends.

A walk over a tree and a drain of it do the same thing to a list: they take an item at one of its
ends, and whoever takes in any order sees every item once. `Side.takeMany` says this of the list.
What a walk has left is the part of the entries between its two cursors, and what a drain has left is
what its tree holds, so for each of them it is enough to look at one step.
-/

namespace Multiway

variable {K V α β σ : Type}

/-- The end of a list at which an item is taken. -/
inductive Side where
  | front
  | back
deriving DecidableEq, Repr

namespace Side

/-- Takes the item at an end, if there is one. -/
def take (items : List β) : Side → Option β × List β
  | .front => (items.head?, items.tail)
  | .back => (items.getLast?, items.dropLast)

/-- Takes items one after the other. -/
def takeMany : List Side → List β → List (Option β) × List β
  | [], items => ([], items)
  | side :: sides, items =>
    let (item, items) := side.take items
    let (taken, items) := takeMany sides items
    (item :: taken, items)

end Side

/-- Makes one step after the other, each at an end, and collects what they show. -/
def deal (step : Side → σ → Except Fault (Option β × σ)) :
    List Side → σ → Except Fault (List (Option β) × σ)
  | [], state => return ([], state)
  | side :: sides, state => do
    let (item, state) ← step side state
    let (items, state) ← deal step sides state
    return (item :: items, state)

/-- Steps take from the items that a state has left. -/
def Deals (step : Side → σ → Except Fault (Option β × σ)) (left : σ → List β → Prop) : Prop :=
  ∀ side state items, left state items → ∃ state',
    step side state = .ok ((side.take items).1, state') ∧ left state' (side.take items).2

section steps

variable {step : Side → σ → Except Fault (Option β × σ)} {left : σ → List β → Prop} {state : σ}
  {items : List β}

/-- Whatever the ends, the steps show what is taken from the list. -/
theorem Deals.deal_eq (h : Deals step left) (hleft : left state items) (sides : List Side) :
    ∃ state', deal step sides state = .ok ((Side.takeMany sides items).1, state') ∧
      left state' (Side.takeMany sides items).2 := by
  induction sides generalizing state items with
  | nil => exact ⟨state, rfl, hleft⟩
  | cons side sides ih =>
      obtain ⟨next, hstep, hnext⟩ := h side state items hleft
      obtain ⟨final, hrest, hfinal⟩ := ih hnext
      refine ⟨final, ?_, hfinal⟩
      rw [deal, hstep]
      simp only [ok_bind, hrest]
      rfl

/-- Going on at the front shows every item in order. -/
theorem Deals.collect_front (h : Deals step left) (hleft : left state items) :
    ∃ state', collect (step .front) items.length state = .ok (items, state') ∧ left state' [] := by
  induction items generalizing state with
  | nil => exact ⟨state, rfl, hleft⟩
  | cons item items ih =>
      obtain ⟨next, hstep, hnext⟩ := h .front state _ hleft
      obtain ⟨final, hrest, hfinal⟩ := ih hnext
      refine ⟨final, ?_, hfinal⟩
      rw [List.length_cons, collect, hstep]
      simp only [ok_bind, Side.take, List.head?_cons, hrest]
      rfl

end steps

/-! ### Walks -/

namespace Walk

/-- One step of a walk. -/
def step : Side → Walk K V α → Except Fault (Option α × Walk K V α)
  | .front => next
  | .back => nextBack

/-- A walk over these entries of a tree has some of them left, between those that it has shown at the
front and those that it has shown at the back. -/
def Leaves (t : Tree K V) (entries : List (K × V)) (view : K × V → α) (w : Walk K V α)
    (items : List α) : Prop :=
  ∃ low rest high, low ++ rest ++ high = entries ∧ rest.map view = items ∧
    w = ⟨⟨t, Cursor.positionAt (entries.map t.placeOf) low.length⟩,
      ⟨t, Cursor.positionAt (entries.map t.placeOf) (low.length + rest.length + 1)⟩,
      rest.length, view⟩

end Walk

theorem Cursor.entryAt_append (low high : List (K × V)) (entry : K × V) :
    entryAt (low ++ entry :: high) (low.length + 1) = some entry := by
  rw [entryAt, List.getElem?_append_right (Nat.le_refl _), Nat.sub_self]
  rfl

namespace Tree

variable {t : Tree K V} {l? : Option (Layout (K × V))} [Std.TransCmp t.cmp]

/-- A walk takes at both ends of the entries between its cursors. -/
theorem Sound.walk_deals (h : t.Sound l?) (view : K × V → α) :
    Deals Walk.step
      (Walk.Leaves t (Shape.contents (l?.map Layout.shape)) view) := by
  generalize hentries : Shape.contents (l?.map Layout.shape) = entries
  have hplaces := h.places
  rw [hentries] at hplaces
  rintro side w items ⟨low, rest, high, hsplit, rfl, rfl⟩
  have hlength : low.length + rest.length + high.length = entries.length := by
    rw [← hsplit, List.length_append, List.length_append]
  cases side with
  | front =>
      cases rest with
      | nil => exact ⟨_, rfl, low, [], high, hsplit, rfl, rfl⟩
      | cons entry rest =>
          rw [List.length_cons] at hlength
          have hle : low.length ≤ entries.length + 1 := by omega
          have hafter : Move.after entries.length low.length = low.length + 1 :=
            Nat.min_eq_left (by omega)
          have hnext := h.next_eq hentries hle hafter
          have hentry : Cursor.entryAt entries (low.length + 1) = some entry := by
            rw [← hsplit, List.append_assoc]
            exact Cursor.entryAt_append ..
          have hback : low.length + (rest.length + 1) = low.length + 1 + rest.length := by omega
          refine ⟨_, ?_, low ++ [entry], rest, high, by simpa using hsplit, rfl, rfl⟩
          rw [Walk.step, Walk.next, List.length_cons, hback, List.length_append]
          simp only [hnext, ok_bind, Cursor.entry_positionAt hplaces, hentry]
          rfl
  | back =>
      rcases List.eq_nil_or_concat rest with rfl | ⟨rest, entry, rfl⟩
      · exact ⟨_, rfl, low, [], high, hsplit, rfl, rfl⟩
      · rw [List.concat_eq_append] at hsplit hlength ⊢
        rw [List.length_append, List.length_singleton] at hlength ⊢
        have hle : low.length + (rest.length + 1) + 1 ≤ entries.length + 1 := by omega
        have hbefore : Move.before (low.length + (rest.length + 1) + 1) =
            low.length + rest.length + 1 := rfl
        have hprev := h.prev_eq hentries hle hbefore
        have hentry : Cursor.entryAt entries (low.length + rest.length + 1) = some entry := by
          rw [← hsplit, ← List.length_append, ← List.append_assoc, List.append_assoc]
          exact Cursor.entryAt_append ..
        refine ⟨_, ?_, low, rest, entry :: high, by simpa using hsplit, ?_, rfl⟩
        · rw [Walk.step, Walk.nextBack]
          simp only [hprev, ok_bind, Cursor.entry_positionAt hplaces, hentry, Side.take]
          rw [List.map_append, List.map_singleton, List.getLast?_concat]
          rfl
        · rw [Side.take, List.map_append, List.map_singleton, List.dropLast_concat]

omit [Std.TransCmp t.cmp] in
/-- A new walk has everything left. -/
theorem Sound.walk_leaves (h : t.Sound l?) (view : K × V → α) :
    Walk.Leaves t (Shape.contents (l?.map Layout.shape)) view (t.walk view)
      ((Shape.contents (l?.map Layout.shape)).map view) := by
  refine ⟨[], _, [], by rw [List.nil_append, List.append_nil], rfl, ?_⟩
  rw [List.length_nil, Nat.zero_add, positionAt_end, ← h.size_eq]
  rfl

omit [Std.TransCmp t.cmp] in
/-- A walk counts what it has left. -/
theorem length_of_leaves {entries : List (K × V)} {view : K × V → α} {w : Walk K V α}
    {items : List α} (h : Walk.Leaves t entries view w items) : w.remaining = items.length := by
  obtain ⟨low, rest, high, -, rfl, rfl⟩ := h
  exact (List.length_map _).symm

theorem Sound.toList_of_leaves (h : t.Sound l?) {view : K × V → α} {w : Walk K V α} {items : List α}
    (hleft : Walk.Leaves t (Shape.contents (l?.map Layout.shape)) view w items) :
    w.toList = .ok items := by
  obtain ⟨v, hcollect, -⟩ := (h.walk_deals view).collect_front hleft
  rw [← length_of_leaves hleft] at hcollect
  rw [Walk.toList, Walk.takeAll]
  exact congrArg (· >>= fun shown => pure shown.1) hcollect

theorem Sound.walk_toList (h : t.Sound l?) (view : K × V → α) :
    (t.walk view).toList = .ok ((Shape.contents (l?.map Layout.shape)).map view) :=
  h.toList_of_leaves (h.walk_leaves view)

theorem Sound.toList_eq (h : t.Sound l?) :
    t.toList = .ok (Shape.contents (l?.map Layout.shape)) :=
  (h.walk_toList id).trans (congrArg Except.ok (List.map_id _))

/-- Comparing two trees is comparing their lists, also where their orders differ. -/
theorem Sound.equal_eq [BEq K] [BEq V] {u : Tree K V} [Std.TransCmp u.cmp]
    {l?' : Option (Layout (K × V))} (h : t.Sound l?) (h' : u.Sound l?') :
    t.equal u = .ok (Shape.contents (l?.map Layout.shape) ==
      Shape.contents (l?'.map Layout.shape)) := by
  rw [Tree.equal, h.toList_eq, h'.toList_eq, h.size_eq, h'.size_eq]
  split
  · rename_i hlength
    exact congrArg Except.ok
      (Bool.eq_false_iff.mpr fun hequal => hlength (List.length_eq_of_beq hequal)).symm
  · rfl

end Tree

/-! ### Drains -/

namespace Drain

/-- One step of a drain. -/
def step : Side → Drain K V → Except Fault (Option (K × V) × Drain K V)
  | .front => next
  | .back => nextBack

/-- A drain has the entries left that are still in its tree, and the tree is sound. -/
def Leaves (t : Tree K V) (d : Drain K V) (items : List (K × V)) : Prop :=
  ∃ l?, d.tree.Sound l? ∧ Shape.contents (l?.map Layout.shape) = items ∧ t.Alike d.tree

end Drain

namespace Tree

variable {t : Tree K V} {l? : Option (Layout (K × V))}

/-- A drain takes at both ends of what its tree holds. -/
theorem drain_deals (t : Tree K V) : Deals Drain.step (Drain.Leaves t) := by
  rintro side ⟨u, events⟩ items ⟨l?, hsound, rfl, halike⟩
  obtain ⟨tall, hstands⟩ := hsound.stands
  cases side with
  | front =>
      obtain ⟨v, l?', more, hstep, hv, -, hlist, halike'⟩ :=
        hsound.extractMin.leads (Shape.popFirst_spec hstands).1
      refine ⟨⟨v, events ++ more⟩, ?_, l?', hv, hlist, halike.trans halike'⟩
      rw [Drain.step, Drain.next, hstep]
      rfl
  | back =>
      obtain ⟨v, l?', more, hstep, hv, -, hlist, halike'⟩ :=
        hsound.extractMax.leads (Shape.popLast_spec hstands).1
      refine ⟨⟨v, events ++ more⟩, ?_, l?', hv, hlist, halike.trans halike'⟩
      rw [Drain.step, Drain.nextBack, hstep]
      rfl

end Tree

end Multiway
