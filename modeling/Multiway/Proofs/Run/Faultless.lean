import Multiway.Proofs.Run.Laws
import Multiway.Proofs.Run.Seeking
import Multiway.Proofs.Run.Walking

/-!
What cannot fail.

Every step of the code may fail: a slot number may lead nowhere, a position may lie outside its list,
a slot that waits for reuse may have entries, a count may drop below zero, a chain of nodes may not end.
On a tree that can be reached none of this happens, whatever is done to it and with whatever arguments,
and what comes out can be reached again.
The only failure left is the one that a caller asks for, the entry of a cursor that stands on none.

A cursor is a number as long as it is moved, and searching with it is moving until a test is passed;
so all cursors over a tree are among finitely many, and it is enough that these cannot fail.
-/

namespace Multiway

variable {K V : Type} {cmp : K → K → Ordering}

namespace Cursor

/-- The cursors to which moving and searching lead from the start. -/
inductive Reached (t : Tree K V) : Cursor K V → Prop
  | start : Reached t t.cursor
  | move {c d : Cursor K V} {move : Move} {answer : Option Bool} (h : Reached t c)
      (hmove : c.move move = .ok (answer, d)) : Reached t d
  | findNext {σ : Type} {c d : Cursor K V} {test : K → V → StateM σ Bool} {state state' : σ}
      {found : Bool} (h : Reached t c) (hfind : c.findNext test state = .ok ((found, d), state')) :
      Reached t d
  | findPrev {σ : Type} {c d : Cursor K V} {test : K → V → StateM σ Bool} {state state' : σ}
      {found : Bool} (h : Reached t c) (hfind : c.findPrev test state = .ok ((found, d), state')) :
      Reached t d

/-- What cannot fail with a cursor, and what has to. -/
structure Faultless (c : Cursor K V) : Prop where
  move : ∀ move : Move, ∃ moved, c.move move = .ok moved
  findNext : ∀ {σ : Type} (test : K → V → StateM σ Bool) (state : σ),
    ∃ found, c.findNext test state = .ok found
  findPrev : ∀ {σ : Type} (test : K → V → StateM σ Bool) (state : σ),
    ∃ found, c.findPrev test state = .ok found
  /-- On an entry everything that may be asked is answered. -/
  on : ∀ id index, c.position = .on id index → ∃ entry, c.entry? = .ok (some entry) ∧
    c.entry = .ok entry ∧ c.key = .ok entry.1 ∧ c.value = .ok entry.2
  /-- Beyond the ends there is no entry, and asking for one nevertheless fails. -/
  beyond : ∀ boundary, c.position = .beyond boundary → c.entry? = .ok none ∧
    c.entry = .error (.offEntry boundary) ∧ c.key = .error (.offEntry boundary) ∧
    c.value = .error (.offEntry boundary)

end Cursor

namespace Tree

/-- What cannot fail with a tree. -/
structure Faultless (cmp : K → K → Ordering) (t : Tree K V) : Prop where
  /-- Every operation has a result, and the tree that it leaves is as good as the one before. -/
  perform : ∀ operation : Operation K V, ∃ change, t.perform operation = .ok change ∧
    change.state.Reachable cmp ∧ change.state.order = t.order
  cursor : ∀ c, Cursor.Reached t c → Cursor.Faultless c
  /-- A walk goes on at both of its ends, and so does a drain. -/
  walk : ∀ {α : Type} (view : K × V → α) (sides : List Side),
    ∃ shown, deal Walk.step sides (t.walk view) = .ok shown
  drain : ∀ sides : List Side, ∃ given, deal Drain.step sides t.drain = .ok given
  equal : ∀ [BEq K] [BEq V] (u : Tree K V), u.Reachable cmp → ∃ same, t.equal u = .ok same
  written : ∀ [Json.ObjectWriter K V] (style : Json.Style), ∃ text, t.written style = .ok text
  literal : ∀ [Text.Printable K] [Text.Printable V], ∃ literal, t.literal = .ok literal
  plain : ∀ [Text.Printable K] [Text.Printable V], ∃ text, t.plain = .ok text
  render : ∀ [Text.Printable K], ∃ text, t.render = .ok text
  audit : t.audit = .ok (.ok ())
  height : ∃ levels, t.height = .ok levels
  live : ∃ nodes, t.arena.live = .ok nodes
  /-- The numbers that are made from the order are not cut off at zero. -/
  fanout : t.fanout.mostEntries + 1 = t.order ∧ t.fanout.fewestEntries + 1 = (t.order + 1) / 2

end Tree

/-! ### Cursors -/

namespace Cursor

variable {t : Tree K V}

/-- A scan leaves the cursor behind the entries or at one of its stops. -/
theorem arrive_scan {σ : Type} (stops : Nat → Cursor K V) (final : Cursor K V)
    (test : K → V → StateM σ Bool) (ahead : List (K × V)) (state : σ) :
    (arrive stops final (scan test ahead state)).1.2 = final ∨
      ∃ i ≤ ahead.length, (arrive stops final (scan test ahead state)).1.2 = stops i := by
  cases hscan : (scan test ahead state).1 with
  | none => exact .inl (by rw [← Prod.mk.eta (p := scan test ahead state), hscan]; rfl)
  | some passed =>
      exact .inr ⟨passed + 1, scan_lt hscan,
        by rw [← Prod.mk.eta (p := scan test ahead state), hscan]; rfl⟩

variable [Std.TransCmp t.cmp] {l? : Option (Layout (K × V))} {entries : List (K × V)}

/-- A cursor that is moved and searched with stays a number. -/
theorem Reached.exists_number (h : t.Sound l?)
    (hentries : Shape.contents (l?.map Layout.shape) = entries) {c : Cursor K V}
    (hreached : Reached t c) :
    ∃ number ≤ entries.length + 1, c = ⟨t, positionAt (entries.map t.placeOf) number⟩ := by
  induction hreached with
  | start => exact ⟨0, Nat.zero_le _, rfl⟩
  | move hreached hmove ih =>
      obtain ⟨number, hnumber, rfl⟩ := ih
      rw [h.move_eq hentries hnumber] at hmove
      obtain ⟨-, rfl⟩ := Prod.mk.inj (Except.ok.inj hmove)
      exact ⟨_, Move.target_le hnumber _, rfl⟩
  | @findNext σ c d test state state' found hreached hfind ih =>
      obtain ⟨number, hnumber, rfl⟩ := ih
      rw [h.findNext_eq hentries hnumber] at hfind
      obtain rfl := congrArg (fun found => found.1.2) (Except.ok.inj hfind)
      rcases arrive_scan (fun i => ⟨t, positionAt (entries.map t.placeOf) (number + i)⟩)
        ⟨t, positionAt (entries.map t.placeOf) (entries.length + 1)⟩ test (entries.drop number)
        state with heq | ⟨i, hi, heq⟩
      · exact ⟨_, Nat.le_refl _, heq⟩
      · rw [List.length_drop] at hi
        exact ⟨number + i, by omega, heq⟩
  | @findPrev σ c d test state state' found hreached hfind ih =>
      obtain ⟨number, hnumber, rfl⟩ := ih
      rw [h.findPrev_eq hentries hnumber] at hfind
      obtain rfl := congrArg (fun found => found.1.2) (Except.ok.inj hfind)
      rcases arrive_scan (fun i => ⟨t, positionAt (entries.map t.placeOf) (number - i)⟩)
        ⟨t, positionAt (entries.map t.placeOf) 0⟩ test (entries.take (number - 1)).reverse
        state with heq | ⟨i, -, heq⟩
      · exact ⟨_, Nat.zero_le _, heq⟩
      · exact ⟨number - i, by omega, heq⟩

/-- Nothing fails with a cursor but asking for an entry where there is none. -/
theorem Reached.faultless (h : t.Sound l?) {c : Cursor K V} (hreached : Reached t c) :
    Faultless c := by
  obtain ⟨number, hnumber, rfl⟩ := hreached.exists_number h rfl
  have hplaces := h.places
  constructor
  case move => exact fun move => ⟨_, h.move_eq rfl hnumber move⟩
  case findNext => exact fun test state => ⟨_, h.findNext_eq rfl hnumber test state⟩
  case findPrev => exact fun test state => ⟨_, h.findPrev_eq rfl hnumber test state⟩
  case on =>
    intro id index hposition
    have hasked := entry_positionAt hplaces number
    cases number with
    | zero => contradiction
    | succ number =>
        cases hentry : entryAt (Shape.contents (l?.map Layout.shape)) (number + 1) with
        | none =>
            rw [entryAt] at hentry
            rw [positionAt, List.getElem?_map, hentry] at hposition
            contradiction
        | some entry =>
            have hfound := entry_of_positionAt hplaces hentry
            rw [hentry] at hasked
            refine ⟨entry, hasked, hfound, ?_, ?_⟩
            · rw [key, hfound]
              rfl
            · rw [value, hfound]
              rfl
  case beyond =>
    intro boundary hposition
    rw [key, value, entry, entry?, hposition]
    exact ⟨rfl, rfl, rfl, rfl⟩

end Cursor

/-! ### Trees -/

namespace Tree

variable {t u : Tree K V}

/-- A run goes on where another one has ended. -/
theorem run_append (operations more : List (Operation K V)) :
    t.run (operations ++ more) = t.run operations >>= fun first =>
      first.state.run more >>= fun second => pure
        ⟨first.answer ++ second.answer, second.state, first.events ++ second.events⟩ := by
  induction operations generalizing t with
  | nil =>
      rw [List.nil_append, run, pure_bind]
      exact (bind_pure _).symm
  | cons operation operations ih =>
      rw [List.cons_append, run, run]
      simp only [ih, bind_assoc, pure_bind, List.cons_append, List.append_assoc]

/-- One more operation makes a run longer. -/
theorem Reachable.perform (h : t.Reachable cmp) {operation : Operation K V}
    {change : Change (Tree K V) (Answer K V)} (hstep : t.perform operation = .ok change) :
    change.state.Reachable cmp := by
  obtain ⟨origin, start, operations, answers, events, hmake, hrun⟩ := h
  have hone : t.run [operation] = .ok ⟨[change.answer], change.state, change.events ++ []⟩ := by
    rw [run, hstep]
    rfl
  refine ⟨origin, start, operations ++ [operation], answers ++ [change.answer],
    events ++ (change.events ++ []), hmake, ?_⟩
  rw [run_append, hrun, ok_bind, hone]
  rfl

theorem Reachable.faultless (hcmp : Consistent cmp) (h : t.Reachable cmp) : t.Faultless cmp := by
  have := hcmp.transCmp
  obtain ⟨l?, hsound, rfl⟩ := h.sound
  obtain ⟨tall, hstands⟩ := hsound.stands
  have hlist := hsound.toList_eq
  have hshape := hsound.holds.shape_eq hstands
  constructor
  case perform =>
    intro operation
    obtain ⟨u, l?', events, hstep, -, -, -, halike⟩ := hsound.perform operation
    exact ⟨_, hstep, h.perform hstep, congrArg Fanout.order halike.fanout⟩
  case cursor => exact fun c hreached => hreached.faultless hsound
  case walk =>
    intro α view sides
    obtain ⟨w, hdeal, -⟩ := (hsound.walk_deals view).deal_eq (hsound.walk_leaves view) sides
    exact ⟨_, hdeal⟩
  case drain =>
    intro sides
    have hleaves : Drain.Leaves t t.drain (Shape.contents (l?.map Layout.shape)) :=
      ⟨l?, hsound, rfl, .refl t⟩
    obtain ⟨d, hdeal, -⟩ := t.drain_deals.deal_eq hleaves sides
    exact ⟨_, hdeal⟩
  case equal =>
    intro _ _ u hother
    obtain ⟨l?', hsound', hcmp'⟩ := hother.sound
    have : Std.TransCmp u.cmp := hcmp' ▸ ‹Std.TransCmp t.cmp›
    exact ⟨_, hsound.equal_eq hsound'⟩
  case written =>
    intro _ style
    rw [Tree.written, hlist]
    exact ⟨_, rfl⟩
  case literal =>
    intro _ _
    rw [Tree.literal, hlist]
    exact ⟨_, rfl⟩
  case plain =>
    intro _ _
    rw [Tree.plain, hlist]
    exact ⟨_, rfl⟩
  case render =>
    intro _
    obtain ⟨text, hrender, -⟩ := exists_render hshape hshape
    exact ⟨text, hrender⟩
  case audit => exact hsound.audit_eq
  case height => exact ⟨tall, hsound.holds.height_eq hstands⟩
  case live => exact ⟨_, hsound.holds.stores.live_eq⟩
  case fanout => exact ⟨t.fanout.mostEntries_add_one, t.fanout.fewestEntries_add_one⟩

end Tree

namespace Origin

/-- An origin makes a tree or is refused. -/
theorem exists_made (cmp : K → K → Ordering) [Std.TransCmp cmp] (origin : Origin K V) :
    ∃ made, origin.make cmp = .ok made := by
  cases origin with
  | options chosen => exact ⟨_, rfl⟩
  | order asked => exact ⟨_, rfl⟩
  | standard => exact ⟨_, rfl⟩
  | list stored =>
      obtain ⟨start, l?, hmake, -⟩ := ofList_made cmp stored
      rw [make, hmake]
      exact ⟨_, rfl⟩
  | json text =>
      rw [make, Tree.ofJson_eq]
      cases (Json.readMembers text : Except Json.Failure (List (K × V))) with
      | error failure => exact ⟨_, rfl⟩
      | ok members =>
          obtain ⟨start, l?, hmake, -⟩ := ofList_made cmp members
          simp only [hmake]
          exact ⟨_, rfl⟩

end Origin

/-- Nothing fails on a tree that can be reached. An origin makes such a tree or is refused. -/
theorem reachable_faultless (hcmp : Consistent cmp) :
    (∀ origin : Origin K V, ∃ made, origin.make cmp = .ok made ∧
      ∀ start, made = .ok start → start.Reachable cmp ∧ start.order = max origin.requested 3) ∧
    ∀ t : Tree K V, t.Reachable cmp → t.Faultless cmp := by
  have := hcmp.transCmp
  refine ⟨fun origin => ?_, fun t => Tree.Reachable.faultless hcmp⟩
  obtain ⟨made, hmake⟩ := origin.exists_made cmp
  refine ⟨made, hmake, ?_⟩
  rintro start rfl
  obtain ⟨hasked, stored, hstored⟩ := Origin.accepted_of_make hmake
  obtain ⟨start', l?, hmake', -, -, horder, -⟩ := Origin.make_eq cmp hasked hstored
  obtain rfl := Except.ok.inj (Except.ok.inj (hmake'.symm.trans hmake))
  exact ⟨⟨origin, start', [], [], [], hmake, rfl⟩, horder⟩

/-- Two levels of order 3, the largest order that a word of 64 bits can hold, and an order that is
too small. -/
theorem reachable_faultless_orders :
    Consistent (compare : Nat → Nat → Ordering) ∧
      (∃ t : Tree Nat Nat, t.Reachable compare ∧ t.height = .ok 2 ∧ t.Faultless compare) ∧
      (∃ start : Tree Nat Nat,
        (Origin.order (2 ^ 64 - 1) : Origin Nat Nat).make compare = .ok (.ok start) ∧
        start.Reachable compare ∧ start.order = 2 ^ 64 - 1 ∧ start.Faultless compare) ∧
      ∃ made, (Origin.order 1 : Origin Nat Nat).make compare = .ok made := by
  have hcmp : Consistent (compare : Nat → Nat → Ordering) := Consistent.of_transCmp
  obtain ⟨hmade, hfaultless⟩ := reachable_faultless (V := Nat) hcmp
  obtain ⟨t, hreach, hheight⟩ : ∃ t : Tree Nat Nat, t.Reachable compare ∧ t.height = .ok 2 :=
    ⟨_, ⟨.order 2, _, [.insert 2 20, .insert 1 10, .insert 3 30], _, _, rfl, rfl⟩, rfl⟩
  obtain ⟨made, hmake, hstart⟩ := hmade (.order (2 ^ 64 - 1))
  obtain ⟨refused, hrefused, -⟩ := hmade (.order 1)
  cases hmake
  obtain ⟨hreach', horder⟩ := hstart _ rfl
  exact ⟨hcmp, ⟨t, hreach, hheight, hfaultless t hreach⟩,
    ⟨_, rfl, hreach', horder, hfaultless _ hreach'⟩, refused, hrefused⟩

end Multiway
