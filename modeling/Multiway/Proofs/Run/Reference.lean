import Multiway.Proofs.Run.Operation
import Multiway.Proofs.Tree.Copy
import Multiway.Proofs.Tree.Making
import Multiway.Proofs.Tree.Nearest
import Multiway.Proofs.Tree.Removal

/-!
What runs lead to.

Every operation is described twice without an arena. `onList` says from the ascending list of the
entries alone what an operation answers and which entries it leaves. `onShape` says which shape it
leaves, and for that it needs the fan-out as well. `Sound.perform` is the step: done to a sound tree,
an operation succeeds, gives the answer of the list, and leaves a sound tree with the entries and the
shape that the two functions say. The run follows by induction.

Neither function is told anything about slots. What a run answers thus depends on the order of the
keys and on the operations only, and the shapes that it goes through on the fan-out besides.
-/

namespace Multiway

variable {K V α β : Type}

namespace Operation

/-- What an operation answers where these are the entries, and the entries that it leaves. -/
def onList (cmp : K → K → Ordering) (entries : List (K × V)) :
    Operation K V → Answer K V × List (K × V)
  | .insert key value =>
    (.value ((Entries.find? cmp key entries).map Prod.snd), Entries.store cmp key value entries)
  | .insertMany new => (.done, Entries.storeAll cmp new entries)
  | .modify key change =>
    (.value ((Entries.find? cmp key entries).map Prod.snd), Entries.revise cmp key change entries)
  | .erase key =>
    (.value ((Entries.find? cmp key entries).map Prod.snd), Entries.remove cmp key entries)
  | .extractMin => (.entry entries.head?, entries.tail)
  | .extractMax => (.entry entries.getLast?, entries.dropLast)
  | .clear => (.done, [])
  | @replaceFromJson _ _ _ text =>
    match Json.readMembers text with
    | .error failure => (.outcome (.error (.undecodable failure)), entries)
    | .ok new => (.outcome (.ok ()), Entries.storeAll cmp new [])
  | .copy => (.done, entries)
  | .blank => (.done, [])
  | .get key => (.value ((Entries.find? cmp key entries).map Prod.snd), entries)
  | .getEntry key => (.entry (Entries.find? cmp key entries), entries)
  | .contains key => (.flag (Entries.find? cmp key entries).isSome, entries)
  | .getEntryLE key => (.entry (Entries.findLE? cmp key entries), entries)
  | .getEntryGE key => (.entry (Entries.findGE? cmp key entries), entries)
  | .minEntry => (.entry entries.head?, entries)
  | .maxEntry => (.entry entries.getLast?, entries)
  | .size => (.count entries.length, entries)
  | .isEmpty => (.flag entries.isEmpty, entries)

/-- The shape that an operation leaves. -/
def onShape (f : Fanout) (cmp : K → K → Ordering) (s? : Option (Shape (K × V))) :
    Operation K V → Option (Shape (K × V))
  | .insert key value => some (Shape.put f cmp key value s?).1
  | .insertMany new => (Shape.putAll f cmp new s?).1
  | .modify key change => s?.map (Shape.revise cmp key change)
  | .erase key => (Shape.erase f cmp key s?).1
  | .extractMin => (Shape.popFirst f s?).1
  | .extractMax => (Shape.popLast f s?).1
  | .clear | .blank => none
  | @replaceFromJson _ _ _ text =>
    match Json.readMembers text with
    | .error _ => s?
    | .ok new => (Shape.putAll f cmp new none).1
  | .copy | .get _ | .getEntry _ | .contains _ | .getEntryLE _ | .getEntryGE _ | .minEntry
  | .maxEntry | .size | .isEmpty => s?

/-- The answers to operations done one after the other, and the entries that they leave. -/
def runList (cmp : K → K → Ordering) :
    List (Operation K V) → List (K × V) → List (Answer K V) × List (K × V)
  | [], entries => ([], entries)
  | operation :: operations, entries =>
    let (answer, entries) := operation.onList cmp entries
    let (answers, entries) := runList cmp operations entries
    (answer :: answers, entries)

/-- The shape that operations leave when they are done one after the other. -/
def runShape (f : Fanout) (cmp : K → K → Ordering) (operations : List (Operation K V))
    (s? : Option (Shape (K × V))) : Option (Shape (K × V)) :=
  operations.foldl (onShape f cmp) s?

end Operation

/-! ### One operation -/

namespace Tree

variable {t : Tree K V} {l? : Option (Layout (K × V))} {answer : α}
  {s? : Option (Shape (K × V))} {entries : List (K × V)} {step : Except Fault (Change (Tree K V) α)}

/-- A step on a tree succeeds with this answer and leaves a sound tree of this shape. -/
def Leads (t : Tree K V) (answer : α) (s? : Option (Shape (K × V))) (entries : List (K × V))
    (step : Except Fault (Change (Tree K V) α)) : Prop :=
  ∃ u l?' events, step = .ok ⟨answer, u, events⟩ ∧ u.Sound l?' ∧ l?'.map Layout.shape = s? ∧
    Shape.contents (l?'.map Layout.shape) = entries ∧ Alike t u

theorem Leads.answerAs (h : t.Leads answer s? entries step) (wrap : α → β) :
    t.Leads (wrap answer) s? entries (step >>= fun change => pure (change.answerAs wrap)) := by
  obtain ⟨u, l?', events, rfl, hrest⟩ := h
  exact ⟨u, l?', events, rfl, hrest⟩

/-- A question leaves the tree alone. -/
theorem Sound.leads_self (h : t.Sound l?) {question : Except Fault α}
    (hanswer : question = .ok answer) (wrap : α → β) :
    t.Leads (wrap answer) (l?.map Layout.shape) (Shape.contents (l?.map Layout.shape))
      (question >>= fun answer => pure { answer := wrap answer, state := t }) := by
  subst hanswer
  exact ⟨t, l?, [], rfl, h, rfl, rfl, .refl t⟩

theorem Removes.leads {pure : Option (Shape (K × V)) × List Event}
    (h : t.Removes answer pure step) (hlist : Shape.contents pure.1 = entries) :
    t.Leads answer pure.1 entries step := by
  obtain ⟨u, l?', ids, rfl, hsound, hshape, halike, -⟩ := h
  exact ⟨u, l?', _, rfl, hsound, hshape, hshape ▸ hlist, halike⟩

theorem Sound.isEmpty_eq (h : t.Sound l?) :
    t.isEmpty = (Shape.contents (l?.map Layout.shape)).isEmpty := by
  rw [Tree.isEmpty, h.size_eq]
  cases Shape.contents (l?.map Layout.shape) <;> rfl

/-- Every operation on a sound tree does what its description on lists says, and leaves the shape
that its description on shapes says. -/
theorem Sound.perform [Std.TransCmp t.cmp] (h : t.Sound l?) (operation : Operation K V) :
    t.Leads (operation.onList t.cmp (Shape.contents (l?.map Layout.shape))).1
      (operation.onShape t.fanout t.cmp (l?.map Layout.shape))
      (operation.onList t.cmp (Shape.contents (l?.map Layout.shape))).2 (t.perform operation) := by
  obtain ⟨tall, hstands⟩ := h.stands
  have hlist := h.ascending
  cases operation with
  | insert key value =>
      obtain ⟨u, l, hinsert, hu, hshape, hstored, halike, -, -⟩ := h.insert key value
      exact Leads.answerAs ⟨u, some l, _, hinsert, hu, congrArg some hshape, hstored, halike⟩ _
  | insertMany new =>
      obtain ⟨u, l?', hfill, hu, hshape, hstored, halike⟩ := h.insertMany new
      exact Leads.answerAs ⟨u, l?', _, hfill, hu, hshape, hstored, halike⟩ _
  | modify key change =>
      obtain ⟨u, l?', hmodify, hu, hshape, hrevised, halike, -⟩ := h.modify key change
      exact Leads.answerAs ⟨u, l?', _, hmodify, hu, hshape, hrevised, halike⟩ _
  | erase key => exact ((h.erase key).leads (Shape.erase_spec hstands hlist key).1).answerAs _
  | extractMin => exact (h.extractMin.leads (Shape.popFirst_spec hstands).1).answerAs _
  | extractMax => exact (h.extractMax.leads (Shape.popLast_spec hstands).1).answerAs _
  | clear => exact ⟨t.clear.state, none, _, rfl, t.sound_clear, rfl, rfl, t.alike_clear⟩
  | replaceFromJson text =>
      have hreplace := t.replaceFromJson_eq text
      simp only [Operation.onList, Operation.onShape]
      cases hread : (Json.readMembers text : Except Json.Failure (List (K × V))) with
      | error failure =>
          rw [hread] at hreplace
          exact Leads.answerAs ⟨t, l?, _, hreplace, h, rfl, rfl, .refl t⟩ _
      | ok new =>
          rw [hread] at hreplace
          obtain ⟨u, l?', hfill, hu, hshape, hstored, halike⟩ := hreplace
          exact Leads.answerAs ⟨u, l?', _, hfill, hu, hshape, hstored, halike⟩ _
  | copy =>
      obtain ⟨u, l?', hcopy, hu, hshape, halike, -⟩ := h.copy
      refine ⟨u, l?', [], ?_, hu, hshape, congrArg Shape.contents hshape, halike⟩
      rw [Tree.perform, hcopy]
      rfl
  | blank => exact ⟨t.blank, none, _, rfl, sound_empty .., rfl, rfl, t.alike_blank⟩
  | get key => exact h.leads_self (h.get?_eq key) _
  | getEntry key => exact h.leads_self (h.getEntry_eq key) _
  | contains key => exact h.leads_self (h.contains_eq key) _
  | getEntryLE key => exact h.leads_self (h.nearest_eq key).1 _
  | getEntryGE key => exact h.leads_self (h.nearest_eq key).2 _
  | minEntry => exact h.leads_self (h.holds.minEntry_eq hstands) _
  | maxEntry => exact h.leads_self (h.holds.maxEntry_eq hstands) _
  | size =>
      have hsize : (pure t.size : Except Fault Nat) = .ok _ := congrArg Except.ok h.size_eq
      exact h.leads_self hsize _
  | isEmpty =>
      have hempty : (pure t.isEmpty : Except Fault Bool) = .ok _ := congrArg Except.ok h.isEmpty_eq
      exact h.leads_self hempty _

/-! ### Runs -/

/-- A run on a sound tree does what its description on lists says, and leaves the shape that its
description on shapes says. -/
theorem Sound.run [Std.TransCmp t.cmp] (h : t.Sound l?) (operations : List (Operation K V)) :
    t.Leads (Operation.runList t.cmp operations (Shape.contents (l?.map Layout.shape))).1
      (Operation.runShape t.fanout t.cmp operations (l?.map Layout.shape))
      (Operation.runList t.cmp operations (Shape.contents (l?.map Layout.shape))).2
      (t.run operations) := by
  -- The order and the fan-out stay the same on the way, so the rest is described by the same ones.
  induction operations generalizing t l? with
  | nil => exact ⟨t, l?, [], rfl, h, rfl, rfl, .refl t⟩
  | cons operation operations ih =>
      obtain ⟨u, l?', events, hstep, hu, hshape, hentries, halike⟩ := h.perform operation
      have := halike.transCmp
      obtain ⟨v, l?'', more, hrest, hv, hshape', hentries', halike'⟩ := ih hu
      rw [halike.cmp, hentries] at hrest hentries'
      rw [halike.cmp, halike.fanout, hshape] at hshape'
      refine ⟨v, l?'', events ++ more, ?_, hv, hshape', hentries', halike.trans halike'⟩
      rw [Tree.run, hstep]
      simp only [ok_bind, hrest]
      rfl

theorem Sound.inOrder_eq (h : t.Sound l?) :
    t.inOrder = .ok (Shape.contents (l?.map Layout.shape)) := by
  rw [inOrder, h.shape_eq]
  rfl

end Tree

/-! ### Origins -/

namespace Origin

variable {cmp : K → K → Ordering} {origin : Origin K V} {stored : List (K × V)}

/-- A tree made from a list is what any origin with these entries makes, of the usual order. -/
theorem ofList_made (cmp : K → K → Ordering) [Std.TransCmp cmp] (stored : List (K × V)) :
    ∃ start l?, Tree.ofList cmp stored = .ok start ∧ start.Sound l? ∧ start.cmp = cmp ∧
      start.order = max Fanout.usual 3 ∧
      l?.map Layout.shape = (Shape.putAll start.fanout cmp stored none).1 ∧
      Shape.contents (l?.map Layout.shape) = Entries.storeAll cmp stored [] := by
  obtain ⟨start, l?, hmake, hsound, hshape, hlist, halike⟩ := Tree.ofList_eq cmp stored
  refine ⟨start, l?, hmake, hsound, halike.cmp, ?_, ?_, hlist⟩
  · rw [Tree.order, halike.fanout]
    rfl
  · rw [hshape, halike.fanout]
    rfl

/-- An origin that asks for a possible order and has entries makes a sound tree with them. -/
theorem make_eq (cmp : K → K → Ordering) [Std.TransCmp cmp]
    (hasked : Fanout.smallest ≤ origin.requested)
    (hstored : origin.entries = .ok stored) :
    ∃ start l?, origin.make cmp = .ok (.ok start) ∧ start.Sound l? ∧ start.cmp = cmp ∧
      start.order = max origin.requested 3 ∧
      l?.map Layout.shape = (Shape.putAll start.fanout cmp stored none).1 ∧
      Shape.contents (l?.map Layout.shape) = Entries.storeAll cmp stored [] := by
  cases origin with
  | options chosen =>
      obtain rfl : [] = stored := Except.ok.inj hstored
      exact ⟨_, none, congrArg Except.ok (Tree.ofOptions_eq hasked cmp), Tree.sound_empty .., rfl,
        rfl, rfl, rfl⟩
  | order asked =>
      obtain rfl : [] = stored := Except.ok.inj hstored
      have hoptions : Fanout.smallest ≤ ({ order := asked } : Options).order := hasked
      exact ⟨_, none, congrArg Except.ok (Tree.ofOptions_eq hoptions cmp), Tree.sound_empty .., rfl,
        rfl, rfl, rfl⟩
  | standard =>
      obtain rfl : [] = stored := Except.ok.inj hstored
      exact ⟨_, none, rfl, Tree.sound_standard, rfl, rfl, rfl, rfl⟩
  | list given =>
      obtain rfl : given = stored := Except.ok.inj hstored
      obtain ⟨start, l?, hmake, hrest⟩ := ofList_made cmp given
      refine ⟨start, l?, ?_, hrest⟩
      rw [make, hmake]
      rfl
  | json text =>
      rw [entries] at hstored
      cases hread : (Json.readMembers text : Except Json.Failure (List (K × V))) with
      | error failure =>
          rw [hread] at hstored
          contradiction
      | ok members =>
          rw [hread] at hstored
          obtain rfl : members = stored := Except.ok.inj hstored
          obtain ⟨start, l?, hmake, hrest⟩ := ofList_made cmp members
          refine ⟨start, l?, ?_, hrest⟩
          rw [make, Tree.ofJson_eq, hread]
          simp only [hmake]
          rfl

theorem smallest_le_usual : Fanout.smallest ≤ Fanout.usual := by decide

/-- Whatever makes a tree asks for a possible order and has entries. -/
theorem accepted_of_make {start : Tree K V} (h : origin.make cmp = .ok (.ok start)) :
    Fanout.smallest ≤ origin.requested ∧ ∃ stored, origin.entries = .ok stored := by
  cases origin with
  | options chosen =>
      refine ⟨Nat.le_of_not_lt fun hlt => ?_, _, rfl⟩
      have hmake := Except.ok.inj h
      rw [Tree.ofOptions_of_lt hlt] at hmake
      contradiction
  | order asked =>
      refine ⟨Nat.le_of_not_lt fun hlt => ?_, _, rfl⟩
      have hoptions : ({ order := asked } : Options).order < Fanout.smallest := hlt
      have hmake := Except.ok.inj h
      rw [Tree.ofOrder, Tree.ofOptions_of_lt hoptions] at hmake
      contradiction
  | standard => exact ⟨smallest_le_usual, _, rfl⟩
  | list given => exact ⟨smallest_le_usual, _, rfl⟩
  | json text =>
      refine ⟨smallest_le_usual, ?_⟩
      rw [make, Tree.ofJson_eq] at h
      rw [entries]
      cases hread : (Json.readMembers text : Except Json.Failure (List (K × V))) with
      | error failure =>
          rw [hread] at h
          have := Except.ok.inj h
          contradiction
      | ok members => exact ⟨members, rfl⟩

end Origin

/-- Every tree that can be reached is sound. -/
theorem Tree.Reachable.sound {cmp : K → K → Ordering} [Std.TransCmp cmp] {t : Tree K V}
    (h : t.Reachable cmp) : ∃ l?, t.Sound l? ∧ t.cmp = cmp := by
  obtain ⟨origin, start, operations, answers, events, hmake, hrun⟩ := h
  obtain ⟨hasked, stored, hstored⟩ := Origin.accepted_of_make hmake
  obtain ⟨start', l?, hmake', hstart, hcmp, -⟩ := Origin.make_eq cmp hasked hstored
  obtain rfl : start' = start := Except.ok.inj (Except.ok.inj (hmake'.symm.trans hmake))
  have : Std.TransCmp start'.cmp := hcmp ▸ ‹Std.TransCmp cmp›
  obtain ⟨u, l?', events', hrun', hu, -, -, halike⟩ := hstart.run operations
  obtain rfl : u = t := congrArg Change.state (Except.ok.inj (hrun'.symm.trans hrun))
  exact ⟨l?', hu, halike.cmp.trans hcmp⟩

end Multiway
