import Multiway.Proofs.Run.Copying
import Multiway.Proofs.Run.Deque

/-!
Giving entries away.

A drain has no cursors. It takes the first or the last entry out of its tree, and the tree mends itself
after each of them: nodes at one edge borrow from their neighbours or are merged with them, up to the
root. A walk over the same tree leaves it alone and climbs. Whoever asks the two for the same things
cannot tell them apart, because each of them is a deque of the entries.

What can be told apart is what is left behind. The tree of a drain holds what has not been given away,
and it is as good as any other tree between two steps.
-/

namespace Multiway

variable {K V α β σ : Type} {cmp : K → K → Ordering}

/-! ### One iterator -/

namespace DoubleEnded

/-- The drains of trees. The copies that are asked of one below are let go at once, so it stands for them
itself. -/
def drain : DoubleEnded (Drain K V) (K × V) where
  take := Drain.step
  length := Drain.length
  sizeHint := Drain.sizeHint
  copy := id

/-- One iterator grants one wish after the other. A copy that is made of it is let go. -/
def attend (iterator : DoubleEnded σ β) :
    List Wish → σ → Except Fault (List (Reply β) × σ)
  | [], state => return ([], state)
  | wish :: wishes, state => do
    let (reply, state, _) ← iterator.grant state wish
    let (replies, state) ← iterator.attend wishes state
    return (reply :: replies, state)

theorem attend_cons {iterator : DoubleEnded σ β} {state next final : σ} {wish : Wish}
    {wishes : List Wish} {reply : Reply β} {replies : List (Reply β)} {copies : List σ}
    (hgrant : iterator.grant state wish = .ok (reply, next, copies))
    (hrest : iterator.attend wishes next = .ok (replies, final)) :
    iterator.attend (wish :: wishes) state = .ok (reply :: replies, final) := by
  rw [attend, hgrant]
  simp only [ok_bind, hrest]
  rfl

/-- Whatever is wished for, the answers are those of a deque. -/
theorem Mimics.attend {iterator : DoubleEnded σ β} {left : σ → List β → Prop}
    (h : iterator.Mimics left) {state : σ} {items : List β} (hleft : left state items)
    (wishes : List Wish) :
    ∃ replies final rest, iterator.attend wishes state = .ok (replies, final) ∧
      deque.attend wishes items = .ok (replies, rest) ∧ left final rest := by
  induction wishes generalizing state items with
  | nil => exact ⟨[], state, items, rfl, rfl, hleft⟩
  | cons wish wishes ih =>
      obtain ⟨reply, next, items', copies, copies', hgrant, hgrant', hnext, -⟩ := h.grant hleft wish
      obtain ⟨replies, final, rest, hrest, hrest', hfinal⟩ := ih hnext
      exact ⟨reply :: replies, final, rest, attend_cons hgrant hrest, attend_cons hgrant' hrest',
        hfinal⟩

end DoubleEnded

namespace Wish

/-- The item that an answer shows, if the wish was for the item at this end. -/
def shows (side : Side) : Wish → Reply β → Option β
  | .take place, .item item => if place = side then item else none
  | _, _ => none

/-- What was shown at one end, in the order in which it was shown. -/
def shown (side : Side) (wishes : List Wish) (replies : List (Reply β)) : List β :=
  (wishes.zip replies).filterMap fun (wish, reply) => wish.shows side reply

theorem toList_shows_take (side place : Side) (item : Option β) :
    (shows side (.take place) (.item item)).toList = if place = side then item.toList else [] := by
  rw [shows]
  split <;> rfl

theorem shown_cons (side : Side) (wish : Wish) (wishes : List Wish) (reply : Reply β)
    (replies : List (Reply β)) :
    shown side (wish :: wishes) (reply :: replies) =
      (wish.shows side reply).toList ++ shown side wishes replies := by
  rw [shown, List.zip_cons_cons, List.filterMap_cons]
  dsimp only
  cases hshows : wish.shows side reply <;> simp [shown]

end Wish

/-- A wish that takes nothing shows nothing, and a deque stays as it is. -/
theorem DoubleEnded.grant_conserves (items : List β) (wish : Wish) :
    ∃ reply rest copies, deque.grant items wish = .ok (reply, rest, copies) ∧
      (wish.shows .front reply).toList ++ rest ++ (wish.shows .back reply).toList = items := by
  cases wish with
  | take side =>
      refine ⟨_, _, _, rfl, ?_⟩
      rw [Wish.toList_shows_take, Wish.toList_shows_take]
      exact side.take_conserves items
  | length => exact ⟨_, _, _, rfl, by simp [Wish.shows]⟩
  | sizeHint => exact ⟨_, _, _, rfl, by simp [Wish.shows]⟩
  | copy => exact ⟨_, _, _, rfl, by simp [Wish.shows]⟩

/-- What was shown at the front, what is left, and what was shown at the back, the last first, are the
items in order. -/
theorem DoubleEnded.attend_conserves (wishes : List Wish) (items : List β) :
    ∃ replies rest, deque.attend wishes items = .ok (replies, rest) ∧
      Wish.shown .front wishes replies ++ rest ++ (Wish.shown .back wishes replies).reverse =
        items := by
  induction wishes generalizing items with
  | nil => exact ⟨[], items, rfl, by simp [Wish.shown]⟩
  | cons wish wishes ih =>
      obtain ⟨reply, middle, copies, hgrant, hitems⟩ := grant_conserves items wish
      obtain ⟨replies, rest, hrest, hmiddle⟩ := ih middle
      refine ⟨reply :: replies, rest, attend_cons hgrant hrest, ?_⟩
      calc Wish.shown .front (wish :: wishes) (reply :: replies) ++ rest ++
            (Wish.shown .back (wish :: wishes) (reply :: replies)).reverse
          = (wish.shows .front reply).toList ++ (Wish.shown .front wishes replies ++ rest ++
              (Wish.shown .back wishes replies).reverse) ++ (wish.shows .back reply).toList := by
            rw [Wish.shown_cons, Wish.shown_cons]
            cases wish.shows .back reply <;> simp
        _ = items := by rw [hmiddle, hitems]

/-! ### Drains -/

namespace Drain

/-- What a drain `d` and a walk `w` over the tree `t` agree on when each of them has shown all entries
but `rest`. -/
structure Accords (cmp : K → K → Ordering) (t : Tree K V) (d : Drain K V) (w : Walk K V (K × V))
    (rest : List (K × V)) : Prop where
  /-- What the tree of the drain still holds is what the walk has still to show. -/
  inOrder : d.tree.inOrder = .ok rest
  toList : w.toList = .ok rest
  length : d.length = rest.length ∧ w.length = rest.length
  /-- The tree of the drain has mended itself. -/
  intact : d.tree.Intact cmp
  order : d.tree.order = t.order
  exhausted : rest = [] → d.tree.root = none ∧ d.tree.arena.live = .ok 0

/-- A drain has some entries left in a tree that can be reached. -/
def Gives (cmp : K → K → Ordering) (t : Tree K V) (d : Drain K V) (items : List (K × V)) : Prop :=
  Leaves t d items ∧ d.tree.Reachable cmp

end Drain

namespace Tree

variable {t : Tree K V} {l? : Option (Layout (K × V))}

/-- Giving an entry away is taking it out of the tree. -/
theorem Reachable.step {side : Side} {d d' : Drain K V} {item : Option (K × V)}
    (h : d.tree.Reachable cmp) (hstep : d.step side = .ok (item, d')) : d'.tree.Reachable cmp := by
  have htaken (operation : Operation K V)
      {taken : Except Fault (Change (Tree K V) (Option (K × V)))}
      (hperform : d.tree.perform operation =
        taken >>= fun change => pure (change.answerAs Answer.entry))
      (hgiven : (taken >>= fun change => pure
        (change.answer, (⟨change.state, d.events ++ change.events⟩ : Drain K V))) =
          .ok (item, d')) : d'.tree.Reachable cmp := by
    obtain ⟨change, rfl, hgiven⟩ := bind_eq_ok.mp hgiven
    obtain ⟨-, rfl⟩ := Prod.mk.inj (Except.ok.inj hgiven)
    exact h.perform hperform
  cases side with
  | front => exact htaken .extractMin rfl hstep
  | back => exact htaken .extractMax rfl hstep

/-- A drain is a deque of what its tree holds. -/
theorem drain_mimics (cmp : K → K → Ordering) (t : Tree K V) :
    DoubleEnded.drain.Mimics (Drain.Gives cmp t) where
  take := by
    rintro side d items ⟨hleaves, hreach⟩
    obtain ⟨d', hstep, hleaves'⟩ := t.drain_deals side d items hleaves
    exact ⟨d', hstep, hleaves', hreach.step hstep⟩
  length := by
    rintro d items ⟨⟨l?, hsound, rfl, -⟩, -⟩
    exact hsound.size_eq
  sizeHint := by
    rintro d items ⟨⟨l?, hsound, rfl, -⟩, -⟩
    show (d.tree.size, some d.tree.size) = _
    rw [hsound.size_eq]
  copy _ _ hgives := hgives

/-- What a drain and a walk have left is the same, and a drain that has nothing left has no nodes. -/
theorem Sound.accords [Std.TransCmp t.cmp] (h : t.Sound l?) {d : Drain K V}
    {w : Walk K V (K × V)} {rest : List (K × V)} (hgives : Drain.Gives t.cmp t d rest)
    (hleaves : Walk.Leaves t (Shape.contents (l?.map Layout.shape)) id w rest) :
    d.Accords t.cmp t w rest := by
  obtain ⟨⟨m?, hsound, rfl, halike⟩, hreach⟩ := hgives
  have hintact := hreach.intact
  constructor
  case inOrder => exact hsound.inOrder_eq
  case toList => exact h.toList_of_leaves hleaves
  case length => exact ⟨hsound.size_eq, length_of_leaves hleaves⟩
  case intact => exact hintact
  case order => exact congrArg Fanout.order halike.fanout
  case exhausted =>
    intro hrest
    have hsize : d.tree.size = 0 := by rw [hsound.size_eq, hrest, List.length_nil]
    exact ⟨hintact.valid.root_none.mpr hsize, hsound.live_of_size hsize⟩

end Tree

/-- A drain of a tree that can be reached answers every interleaving of wishes as a walk over the tree
does. What was shown at the front, what the tree of the drain still holds and what was shown at the
back are the entries of the tree, each once, and the drain's tree stays intact down to the last entry,
with which its last node goes. -/
theorem drain_accords_walk (hcmp : Consistent cmp) {t : Tree K V} (hreach : t.Reachable cmp) :
    ∃ entries, t.inOrder = .ok entries ∧ ∀ wishes : List Wish, ∃ replies d w rest,
      DoubleEnded.drain.attend wishes t.drain = .ok (replies, d) ∧
      DoubleEnded.walk.attend wishes t.iter = .ok (replies, w) ∧
      DoubleEnded.deque.attend wishes entries = .ok (replies, rest) ∧
      Wish.shown .front wishes replies ++ rest ++ (Wish.shown .back wishes replies).reverse =
        entries ∧
      d.Accords cmp t w rest := by
  have := hcmp.transCmp
  obtain ⟨l?, hsound, rfl⟩ := hreach.sound
  refine ⟨_, hsound.inOrder_eq, fun wishes => ?_⟩
  generalize hentries : Shape.contents (l?.map Layout.shape) = entries
  have hgives : Drain.Gives t.cmp t t.drain entries := ⟨⟨l?, hsound, hentries, .refl t⟩, hreach⟩
  have hleaves := hsound.walk_leaves id
  rw [List.map_id, hentries] at hleaves
  obtain ⟨replies, d, rest, hdrain, hdeque, hd⟩ :=
    (t.drain_mimics t.cmp).attend hgives wishes
  obtain ⟨replies', w, rest', hwalk, hdeque', hw⟩ :=
    (hentries ▸ hsound.walk_mimics id).attend hleaves wishes
  obtain ⟨rfl, rfl⟩ := Prod.mk.inj (Except.ok.inj (hdeque.symm.trans hdeque'))
  obtain ⟨shown, left, hconserved, hall⟩ := DoubleEnded.attend_conserves wishes entries
  obtain ⟨rfl, rfl⟩ := Prod.mk.inj (Except.ok.inj (hdeque.symm.trans hconserved))
  exact ⟨replies, d, w, rest, hdrain, hwalk, hdeque, hall, hsound.accords hd (hentries ▸ hw)⟩

/-- A tree of three levels gives entries away at both ends, and then all of them, the last entry
first. Nothing is left of its seven nodes. -/
theorem drain_accords_walk_three_levels :
    Consistent (compare : Nat → Nat → Ordering) ∧
      ∃ t : Tree Nat Nat, t.Reachable compare ∧ t.height = .ok 3 ∧ t.arena.live = .ok 7 ∧
        (∃ d w, DoubleEnded.drain.attend [.take .front, .take .back, .length, .take .front, .sizeHint]
            t.drain = .ok ([.item (some (1, 10)), .item (some (7, 70)), .length 5,
              .item (some (2, 20)), .sizeHint 4 (some 4)], d) ∧
          DoubleEnded.walk.attend [.take .front, .take .back, .length, .take .front, .sizeHint]
            t.iter = .ok ([.item (some (1, 10)), .item (some (7, 70)), .length 5,
              .item (some (2, 20)), .sizeHint 4 (some 4)], w) ∧
          d.Accords compare t w [(3, 30), (4, 40), (5, 50), (6, 60)]) ∧
        ∃ replies d, DoubleEnded.drain.attend (List.replicate 8 (.take .back)) t.drain =
            .ok (replies, d) ∧
          replies[6]? = some (.item (some (1, 10))) ∧ replies[7]? = some (.item none) ∧
          d.tree.root = none ∧ d.tree.arena.live = .ok 0 := by
  have hcmp : Consistent (compare : Nat → Nat → Ordering) := Consistent.of_transCmp
  obtain ⟨t, hreach, hheight, hlive, hlist⟩ : ∃ t : Tree Nat Nat, t.Reachable compare ∧
      t.height = .ok 3 ∧ t.arena.live = .ok 7 ∧ t.inOrder =
        .ok [(1, 10), (2, 20), (3, 30), (4, 40), (5, 50), (6, 60), (7, 70)] :=
    Tree.exists_reachable (.order 2) [.insert 1 10, .insert 2 20, .insert 3 30, .insert 4 40,
      .insert 5 50, .insert 6 60, .insert 7 70] (by decide +kernel)
  obtain ⟨entries, hentries, hattend⟩ := drain_accords_walk hcmp hreach
  obtain rfl := Except.ok.inj (hentries.symm.trans hlist)
  refine ⟨hcmp, t, hreach, hheight, hlive, ?_, ?_⟩
  · obtain ⟨replies, d, w, rest, hdrain, hwalk, hdeque, -, haccords⟩ :=
      hattend [.take .front, .take .back, .length, .take .front, .sizeHint]
    cases hdeque
    exact ⟨d, w, hdrain, hwalk, haccords⟩
  · obtain ⟨replies, d, w, rest, hdrain, -, hdeque, -, haccords⟩ :=
      hattend (List.replicate 8 (.take .back))
    cases hdeque
    obtain ⟨hroot, hnone⟩ := haccords.exhausted rfl
    exact ⟨_, d, hdrain, rfl, rfl, hroot, hnone⟩

end Multiway
