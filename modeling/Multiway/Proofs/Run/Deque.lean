import Multiway.Proofs.Collection.BijectionLaws

/-!
Iterators as deques.

A walk has two cursors that know nothing of each other, and a number that tells how many entries lie
between them. To whoever holds it, it is a deque: what it shows is what is taken at the two ends of a
list, and the number of entries left is known all the time. Copies of it go their own ways from there.

A session is whatever may be done with some iterators, in any order. They are told apart by their
numbers, and a copy takes the next number. The same session is held with deques, which are lists, and
the replies have to be the same. One step is shown for one iterator, and the iterators of a session are
compared with the deques one by one.
-/

namespace Multiway

variable {K V α β σ : Type}

/-! ### Sessions -/

/-- What may be asked of an iterator. -/
inductive Wish where
  | take (side : Side)
  | length
  | sizeHint
  | copy
deriving DecidableEq, Repr

/-- What is asked of the iterator with a number. -/
structure Request where
  number : Nat
  wish : Wish
deriving DecidableEq, Repr

/-- What is answered. -/
inductive Reply (β : Type) where
  | item (item : Option β)
  | length (count : Nat)
  | sizeHint (least : Nat) (greatest : Option Nat)
  | copied
  /-- There is no iterator with this number. -/
  | missing
deriving DecidableEq, Repr

/-- How iterators with two ends work. -/
structure DoubleEnded (σ β : Type) where
  take : Side → σ → Except Fault (Option β × σ)
  length : σ → Nat
  sizeHint : σ → Nat × Option Nat
  copy : σ → σ

namespace DoubleEnded

/-- The items of a list, taken at its ends. A list is never changed, so it is its own copy. -/
def deque : DoubleEnded (List β) β where
  take side items := .ok (side.take items)
  length := List.length
  sizeHint items := (items.length, some items.length)
  copy := id

/-- The walks over trees. -/
def walk : DoubleEnded (Walk K V α) α where
  take := Walk.step
  length := Walk.length
  sizeHint := Walk.sizeHint
  copy := Walk.copy

/-- What one iterator answers, what becomes of it, and the copies that are made of it. -/
def grant (iterator : DoubleEnded σ β) (state : σ) : Wish → Except Fault (Reply β × σ × List σ)
  | .take side => do
    let (item, state) ← iterator.take side state
    return (.item item, state, [])
  | .length => return (.length (iterator.length state), state, [])
  | .sizeHint =>
    let (least, greatest) := iterator.sizeHint state
    return (.sizeHint least greatest, state, [])
  | .copy => return (.copied, state, [iterator.copy state])

/-- What one of several iterators answers, and what becomes of them all. -/
def answer (iterator : DoubleEnded σ β) (states : List σ) (request : Request) :
    Except Fault (Reply β × List σ) :=
  match states[request.number]? with
  | none => return (.missing, states)
  | some state => do
    let (reply, state, copies) ← iterator.grant state request.wish
    return (reply, states.set request.number state ++ copies)

/-- A session answers one request after the other. -/
def session (iterator : DoubleEnded σ β) :
    List Request → List σ → Except Fault (List (Reply β) × List σ)
  | [], states => return ([], states)
  | request :: requests, states => do
    let (reply, states) ← iterator.answer states request
    let (replies, states) ← iterator.session requests states
    return (reply :: replies, states)

/-- An iterator that has some items left does what a deque of these items does. -/
structure Mimics (iterator : DoubleEnded σ β) (left : σ → List β → Prop) : Prop where
  take : Deals iterator.take left
  length : ∀ state items, left state items → iterator.length state = items.length
  sizeHint : ∀ state items, left state items →
    iterator.sizeHint state = (items.length, some items.length)
  copy : ∀ state items, left state items → left (iterator.copy state) items

end DoubleEnded

/-! ### Lists that match -/

theorem getElem?_forall₂ {left : σ → List β → Prop} {states : List σ} {deques : List (List β)}
    (h : List.Forall₂ left states deques) (number : Nat) :
    (states[number]? = none ∧ deques[number]? = none) ∨
      ∃ state items, states[number]? = some state ∧ deques[number]? = some items ∧
        left state items := by
  induction h generalizing number with
  | nil => exact .inl ⟨rfl, rfl⟩
  | cons hhead htail ih =>
      cases number with
      | zero => exact .inr ⟨_, _, rfl, rfl, hhead⟩
      | succ number => exact ih number

theorem set_forall₂ {left : σ → List β → Prop} {states : List σ} {deques : List (List β)}
    (h : List.Forall₂ left states deques) {state : σ} {items : List β} (hleft : left state items)
    (number : Nat) : List.Forall₂ left (states.set number state) (deques.set number items) := by
  induction h generalizing number with
  | nil => exact .nil
  | cons hhead htail ih =>
      cases number with
      | zero => exact .cons hleft htail
      | succ number => exact .cons hhead (ih number)

namespace DoubleEnded

variable {iterator : DoubleEnded σ β} {left : σ → List β → Prop}

/-- What one iterator answers, and a copy of it has the same items left. -/
theorem Mimics.grant (h : iterator.Mimics left) {state : σ} {items : List β}
    (hleft : left state items) (wish : Wish) :
    ∃ reply state' items' copies copies',
      iterator.grant state wish = .ok (reply, state', copies) ∧
      deque.grant items wish = .ok (reply, items', copies') ∧ left state' items' ∧
      List.Forall₂ left copies copies' := by
  cases wish with
  | take side =>
      obtain ⟨state', hstep, hleft'⟩ := h.take side state items hleft
      refine ⟨_, state', _, [], [], ?_, rfl, hleft', .nil⟩
      rw [DoubleEnded.grant, hstep]
      rfl
  | length =>
      refine ⟨_, state, items, [], [], rfl, ?_, hleft, .nil⟩
      rw [h.length state items hleft]
      rfl
  | sizeHint =>
      refine ⟨_, state, items, [], [], ?_, rfl, hleft, .nil⟩
      rw [DoubleEnded.grant, h.sizeHint state items hleft]
      rfl
  | copy =>
      exact ⟨_, state, items, _, _, rfl, rfl, hleft, .cons (h.copy state items hleft) .nil⟩

/-- Only the iterator that is asked changes, and so does only its deque. -/
theorem Mimics.answer (h : iterator.Mimics left) {states : List σ} {deques : List (List β)}
    (hleft : List.Forall₂ left states deques) (request : Request) :
    ∃ reply states' deques', iterator.answer states request = .ok (reply, states') ∧
      deque.answer deques request = .ok (reply, deques') ∧ List.Forall₂ left states' deques' := by
  rw [DoubleEnded.answer, DoubleEnded.answer]
  rcases getElem?_forall₂ hleft request.number with
    ⟨hstate, hdeque⟩ | ⟨state, items, hstate, hdeque, hone⟩
  · rw [hstate, hdeque]
    exact ⟨_, _, _, rfl, rfl, hleft⟩
  · obtain ⟨reply, state', items', copies, copies', hgrant, hgrant', hone', hcopies⟩ :=
      h.grant hone request.wish
    rw [hstate, hdeque]
    dsimp only
    rw [hgrant, hgrant']
    exact ⟨_, _, _, rfl, rfl, List.rel_append (set_forall₂ hleft hone' request.number) hcopies⟩

/-- Whatever is asked of the iterators, deques answer the same. -/
theorem Mimics.session (h : iterator.Mimics left) {states : List σ} {deques : List (List β)}
    (hleft : List.Forall₂ left states deques) (requests : List Request) :
    ∃ replies states' deques', iterator.session requests states = .ok (replies, states') ∧
      deque.session requests deques = .ok (replies, deques') ∧
      List.Forall₂ left states' deques' := by
  induction requests generalizing states deques with
  | nil => exact ⟨[], states, deques, rfl, rfl, hleft⟩
  | cons request requests ih =>
      obtain ⟨reply, states', deques', hanswer, hanswer', hnext⟩ := h.answer hleft request
      obtain ⟨replies, states'', deques'', hrest, hrest', hfinal⟩ := ih hnext
      refine ⟨reply :: replies, states'', deques'', ?_, ?_, hfinal⟩
      · rw [DoubleEnded.session, hanswer]
        simp only [ok_bind, hrest]
        rfl
      · rw [DoubleEnded.session, hanswer']
        simp only [ok_bind, hrest']
        rfl

end DoubleEnded

/-! ### What is taken -/

namespace Side

/-- What was shown at one end, in the order in which it was shown. -/
def shown (side : Side) (sides : List Side) (taken : List (Option β)) : List β :=
  (sides.zip taken).filterMap fun (place, item) => if place = side then item else none

theorem shown_cons (side place : Side) (sides : List Side) (item : Option β)
    (taken : List (Option β)) :
    shown side (place :: sides) (item :: taken) =
      (if place = side then item.toList else []) ++ shown side sides taken := by
  rw [shown, List.zip_cons_cons, List.filterMap_cons]
  split <;> cases item <;> simp_all [shown]

/-- What is taken and what is left are the items. -/
theorem take_conserves (side : Side) (items : List β) :
    (if side = front then (side.take items).1.toList else []) ++ (side.take items).2 ++
      (if side = back then (side.take items).1.toList else []) = items := by
  cases side with
  | front => cases items <;> simp [take]
  | back =>
      rcases List.eq_nil_or_concat items with rfl | ⟨rest, item, rfl⟩
      · rfl
      · simp [take]

/-- What was shown at the front, what is left, and what was shown at the back, the last first, are the
items in order. So none is shown twice and none is left out. -/
theorem takeMany_conserves (sides : List Side) (items : List β) :
    shown .front sides (takeMany sides items).1 ++ (takeMany sides items).2 ++
      (shown .back sides (takeMany sides items).1).reverse = items := by
  induction sides generalizing items with
  | nil => simp [takeMany, shown]
  | cons side sides ih =>
      rw [takeMany]
      dsimp only
      calc shown .front (side :: sides) _ ++ (takeMany sides (side.take items).2).2 ++
            (shown .back (side :: sides) _).reverse
          = (if side = front then (side.take items).1.toList else []) ++
              (shown .front sides (takeMany sides (side.take items).2).1 ++
                (takeMany sides (side.take items).2).2 ++
                (shown .back sides (takeMany sides (side.take items).2).1).reverse) ++
              (if side = back then (side.take items).1.toList else []) := by
            rw [shown_cons, shown_cons]
            generalize (side.take items).1 = item
            cases side <;> cases item <;> simp
        _ = items := by rw [ih, side.take_conserves]

/-- Every step takes an item as long as there is one. -/
theorem length_takeMany (sides : List Side) (items : List β) :
    (takeMany sides items).2.length = items.length - sides.length := by
  induction sides generalizing items with
  | nil => rfl
  | cons side sides ih =>
      rw [takeMany, List.length_cons]
      dsimp only
      rw [ih]
      cases side <;> simp only [take, List.length_tail, List.length_dropLast] <;> omega

/-- Where nothing is left, nothing is shown any more. -/
theorem takeMany_nil (sides : List Side) :
    takeMany sides ([] : List β) = (List.replicate sides.length none, []) := by
  induction sides with
  | nil => rfl
  | cons side sides ih =>
      cases side <;> simp only [takeMany, take, List.head?_nil, List.tail_nil, List.getLast?_nil,
        List.dropLast_nil, ih] <;> rfl

end Side

/-! ### Walks -/

/-- A walk is a deque of some items to whoever holds it. -/
structure Walk.ActsAs (w : Walk K V α) (items : List α) : Prop where
  /-- In every session the replies are those of a deque, and each walk that there is at the end still
  shows what is left in its own deque. -/
  session : ∀ requests, ∃ replies walks deques,
    DoubleEnded.walk.session requests [w] = .ok (replies, walks) ∧
    DoubleEnded.deque.session requests [items] = .ok (replies, deques) ∧
    List.Forall₂ (fun v rest => v.toList = .ok rest) walks deques
  /-- Every item is shown once, at one of the ends, or it is left; how many are left is known. -/
  once : ∀ sides, ∃ taken v rest, deal Walk.step sides w = .ok (taken, v) ∧
    Side.shown .front sides taken ++ rest ++ (Side.shown .back sides taken).reverse = items ∧
    rest.length = items.length - sides.length ∧ v.toList = .ok rest ∧ v.length = rest.length ∧
    v.sizeHint = (rest.length, some rest.length)
  /-- When there were as many steps as items, nothing is shown at either end any more. -/
  exhausted : ∀ sides more, items.length ≤ sides.length → ∃ taken v v',
    deal Walk.step sides w = .ok (taken, v) ∧
    deal Walk.step more v = .ok (List.replicate more.length none, v')

namespace Tree

variable {t : Tree K V} {l? : Option (Layout (K × V))} [Std.TransCmp t.cmp]

theorem Sound.walk_mimics (h : t.Sound l?) (view : K × V → α) :
    DoubleEnded.walk.Mimics (Walk.Leaves t (Shape.contents (l?.map Layout.shape)) view) where
  take := h.walk_deals view
  length _ _ hleft := length_of_leaves hleft
  sizeHint _ _ hleft := by
    show (Walk.remaining _, some (Walk.remaining _)) = _
    rw [length_of_leaves hleft]
  copy w _ hleft := by
    show Walk.Leaves t _ view w.copy _
    rwa [Walk.copy_eq]

/-- A new walk over a sound tree is a deque of all that can be shown. -/
theorem Sound.walk_actsAs (h : t.Sound l?) (view : K × V → α) :
    (t.walk view).ActsAs ((Shape.contents (l?.map Layout.shape)).map view) := by
  have hmimics := h.walk_mimics view
  have hstart := h.walk_leaves view
  generalize (Shape.contents (l?.map Layout.shape)).map view = items at hstart ⊢
  constructor
  case session =>
    intro requests
    obtain ⟨replies, walks, deques, hwalk, hdeque, hleft⟩ :=
      hmimics.session (.cons hstart .nil) requests
    exact ⟨replies, walks, deques, hwalk, hdeque, hleft.imp fun _ _ => h.toList_of_leaves⟩
  case once =>
    intro sides
    obtain ⟨v, hdeal, hleft⟩ := hmimics.take.deal_eq hstart sides
    exact ⟨_, v, _, hdeal, Side.takeMany_conserves sides items, Side.length_takeMany sides items,
      h.toList_of_leaves hleft, hmimics.length _ _ hleft, hmimics.sizeHint _ _ hleft⟩
  case exhausted =>
    intro sides more henough
    obtain ⟨v, hdeal, hleft⟩ := hmimics.take.deal_eq hstart sides
    have hnone : (Side.takeMany sides items).2 = [] := by
      rw [← List.length_eq_zero_iff, Side.length_takeMany]
      omega
    rw [hnone] at hleft
    obtain ⟨v', hmore, -⟩ := hmimics.take.deal_eq hleft more
    rw [Side.takeMany_nil] at hmore
    exact ⟨_, v, v', hdeal, hmore⟩

omit [Std.TransCmp t.cmp] in
/-- A walk over all of its entries, over a tree of which only these are known. -/
theorem Keeps.iter_actsAs {f : Fanout} {cmp : K → K → Ordering} [Std.TransCmp cmp]
    {entries : List (K × V)} (h : t.Keeps f cmp entries) :
    t.inOrder = .ok entries ∧ t.iter.ActsAs entries := by
  obtain ⟨-, rfl, l?, hsound, rfl⟩ := h
  have hiter := hsound.walk_actsAs id
  rw [List.map_id] at hiter
  exact ⟨hsound.inOrder_eq, hiter⟩

end Tree

/-- To whoever iterates over a tree that can be reached, or over a bijection from either side, there is a
deque of what is shown of the entries. Two trees are equal if and only if they have the same entries,
whatever their orders, their shapes and the comparisons of their keys. -/
theorem walk_actsAs_deque {cmp other : K → K → Ordering} {valueOrder : V → V → Ordering}
    (hcmp : Consistent cmp) (hother : Consistent other) (hvalue : Consistent valueOrder) :
    (∀ t : Tree K V, t.Reachable cmp → ∃ entries, t.inOrder = .ok entries ∧
      t.iter.ActsAs entries ∧ t.keys.ActsAs (entries.map Prod.fst) ∧
      t.values.ActsAs (entries.map Prod.snd)) ∧
    (∀ [BEq K] (b : Bijection K V), b.Reachable cmp valueOrder → ∃ pairs turned,
      b.forward.inOrder = .ok pairs ∧ b.inverse.inOrder = .ok turned ∧
      b.iter.ActsAs pairs ∧ b.iterByValue.ActsAs turned) ∧
    ∀ t u : Tree K V, t.Reachable cmp → u.Reachable other → ∃ entries entries',
      t.inOrder = .ok entries ∧ u.inOrder = .ok entries' ∧
      (∀ [BEq K] [BEq V], t.equal u = .ok (entries == entries')) ∧
      ∀ [BEq K] [LawfulBEq K] [BEq V] [LawfulBEq V], t.equal u = .ok true ↔ entries = entries' := by
  have := hcmp.transCmp
  have := hother.transCmp
  have := hvalue.transCmp
  refine ⟨fun t ht => ?_, fun b hb => ?_, fun t u ht hu => ?_⟩
  · obtain ⟨l?, hsound, rfl⟩ := ht.sound
    have hkeeps : t.Keeps t.fanout t.cmp (Shape.contents (l?.map Layout.shape)) :=
      ⟨rfl, rfl, l?, hsound, rfl⟩
    exact ⟨_, hsound.inOrder_eq, hkeeps.iter_actsAs.2, hsound.walk_actsAs Prod.fst,
      hsound.walk_actsAs Prod.snd⟩
  · obtain ⟨f, pairs, turned, hkeeps⟩ := hb.keeps
    obtain ⟨hforward, hiter⟩ := hkeeps.forward.iter_actsAs
    obtain ⟨hinverse, hiter'⟩ := hkeeps.inverse.iter_actsAs
    exact ⟨pairs, turned, hforward, hinverse, hiter, hiter'⟩
  · obtain ⟨l?, hsound, rfl⟩ := ht.sound
    obtain ⟨l?', hsound', rfl⟩ := hu.sound
    refine ⟨_, _, hsound.inOrder_eq, hsound'.inOrder_eq, hsound.equal_eq hsound', ?_⟩
    intros
    rw [hsound.equal_eq hsound', Except.ok.injEq, beq_iff_eq]

/-- The session has a copy made after the first entry was shown, which then goes its own way and meets
its end while the walk itself stays where it is. The tree of two levels is equal to one of a larger order
that needs one level only. -/
theorem walk_actsAs_deque_copied :
    Consistent (compare : Nat → Nat → Ordering) ∧
      ∃ (t u : Tree Nat Nat) (b : Bijection Nat Nat), t.Reachable compare ∧ u.Reachable compare ∧
        b.Reachable compare compare ∧ t.height = .ok 2 ∧ u.height = .ok 1 ∧
        (∃ walks, DoubleEnded.walk.session [⟨0, .take .front⟩, ⟨0, .copy⟩, ⟨1, .take .back⟩,
            ⟨1, .take .front⟩, ⟨1, .take .back⟩, ⟨1, .take .front⟩, ⟨0, .sizeHint⟩, ⟨0, .length⟩,
            ⟨0, .take .back⟩] [t.keys] =
          .ok ([.item (some 1), .copied, .item (some 3), .item (some 2), .item none, .item none,
            .sizeHint 2 (some 2), .length 2, .item (some 3)], walks)) ∧
        b.iter.ActsAs [(1, 20), (2, 10)] ∧ b.iterByValue.ActsAs [(10, 2), (20, 1)] ∧
        t.equal u = .ok true := by
  have hcmp : Consistent (compare : Nat → Nat → Ordering) := Consistent.of_transCmp
  obtain ⟨t, ht, hheight, hentries⟩ : ∃ t : Tree Nat Nat, t.Reachable compare ∧
      t.height = .ok 2 ∧ t.inOrder = .ok [(1, 10), (2, 20), (3, 30)] :=
    ⟨_, ⟨.order 2, _, [.insert 2 20, .insert 1 10, .insert 3 30], _, _, rfl, rfl⟩, rfl,
      by decide +kernel⟩
  obtain ⟨u, hu, hheight', hentries'⟩ : ∃ u : Tree Nat Nat, u.Reachable compare ∧
      u.height = .ok 1 ∧ u.inOrder = .ok [(1, 10), (2, 20), (3, 30)] :=
    ⟨_, ⟨.order 5, _, [.insert 3 30, .insert 1 10, .insert 2 20], _, _, rfl, rfl⟩, rfl,
      by decide +kernel⟩
  obtain ⟨b, hb, hpairs, hturned⟩ : ∃ b : Bijection Nat Nat, b.Reachable compare compare ∧
      b.forward.inOrder = .ok [(1, 20), (2, 10)] ∧ b.inverse.inOrder = .ok [(10, 2), (20, 1)] :=
    ⟨_, ⟨.order 2, _, [.insert 1 20, .insert 2 10], rfl, rfl⟩, by decide +kernel, by decide +kernel⟩
  obtain ⟨htrees, hbijections, hequal⟩ := walk_actsAs_deque (V := Nat) hcmp hcmp hcmp
  obtain ⟨entries, hlist, -, hkeys, -⟩ := htrees t ht
  obtain ⟨pairs, turned, hforward, hinverse, hiter, hiter'⟩ := hbijections b hb
  obtain ⟨left, right, hleft, hright, -, hsame⟩ := hequal t u ht hu
  obtain rfl := Except.ok.inj (hlist.symm.trans hentries)
  obtain rfl := Except.ok.inj (hforward.symm.trans hpairs)
  obtain rfl := Except.ok.inj (hinverse.symm.trans hturned)
  obtain rfl := Except.ok.inj (hleft.symm.trans hentries)
  obtain rfl := Except.ok.inj (hright.symm.trans hentries')
  obtain ⟨replies, walks, deques, hwalk, hdeque, -⟩ := hkeys.session [⟨0, .take .front⟩, ⟨0, .copy⟩,
    ⟨1, .take .back⟩, ⟨1, .take .front⟩, ⟨1, .take .back⟩, ⟨1, .take .front⟩, ⟨0, .sizeHint⟩,
    ⟨0, .length⟩, ⟨0, .take .back⟩]
  cases hdeque
  exact ⟨hcmp, t, u, b, ht, hu, hb, hheight, hheight', ⟨walks, hwalk⟩, hiter, hiter', hsame.mpr rfl⟩

end Multiway
