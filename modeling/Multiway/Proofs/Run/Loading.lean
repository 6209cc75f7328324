import Multiway.Json.Decode
import Multiway.Proofs.Run.Faultless

/-!
Loading a text.

A text is decoded before the tree is touched, so it takes effect as a whole or not at all. When it
takes effect, the tree that is there counts for nothing but its order, its comparison and the length
that its free list may have: the entries and the shape are those that a new tree gets when the entries
of the text are inserted one after the other. Of the keys that are one key to the tree the first one
stays, with the value that came last. What a text is read as is left to the codec.
-/

namespace Multiway

variable {K V : Type} {cmp : K → K → Ordering}

/-- Inserting entries one after the other. -/
def Operation.inserts (entries : List (K × V)) : List (Operation K V) :=
  entries.map fun entry => .insert entry.1 entry.2

theorem Operation.runShape_inserts (f : Fanout) (cmp : K → K → Ordering) (entries : List (K × V))
    (s? : Option (Shape (K × V))) :
    runShape f cmp (inserts entries) s? = (Shape.putAll f cmp entries s?).1 := by
  induction entries generalizing s? with
  | nil => rfl
  | cons entry entries ih => exact ih _

namespace Tree

/-- A tree looks like a new one of some order into which entries were inserted one after the other,
however many nodes the new one keeps for reuse. -/
def LikeFresh (cmp : K → K → Ordering) (order : Nat) (entries : List (K × V)) (t : Tree K V) :
    Prop :=
  ∀ capacity, ∃ start fresh answers events s?, Tree.ofOptions ⟨order, capacity⟩ cmp = .ok start ∧
    start.run (Operation.inserts entries) = .ok ⟨answers, fresh, events⟩ ∧
    t.shape = .ok s? ∧ fresh.shape = .ok s? ∧
    ∀ [Text.Printable K], ∃ text, t.render = .ok text ∧ fresh.render = .ok text

/-- A tree into which entries were loaded in place of its own. -/
structure LoadedFrom (cmp : K → K → Ordering) (t : Tree K V) (entries : List (K × V))
    (u : Tree K V) : Prop where
  reachable : u.Reachable cmp
  order : u.order = t.order
  comparison : u.cmp = cmp
  capacity : u.arena.capacity = t.arena.capacity
  /-- The entries ascend, and there is one for all keys that are one key: the first of these keys with
  the last of their values. -/
  contents : ∃ final, u.inOrder = .ok final ∧ u.toList = .ok final ∧ u.size = final.length ∧
    Ascending cmp final ∧ (∀ key, Entries.find? cmp key final = Entries.merge? cmp key entries) ∧
    ∀ entry, entry ∈ final ↔ Entries.merge? cmp entry.1 entries = some entry
  fresh : u.LikeFresh cmp t.order entries

variable {t : Tree K V} {l? : Option (Layout (K × V))} {entries : List (K × V)}

/-- A sound tree with the shape of stored entries looks like a new tree in which they are stored. -/
theorem Sound.likeFresh [Std.TransCmp t.cmp] (h : t.Sound l?)
    (hshape : l?.map Layout.shape = (Shape.putAll t.fanout t.cmp entries none).1) :
    t.LikeFresh t.cmp t.order entries := by
  intro capacity
  have hthree : 3 ≤ t.order := t.fanout.three_le
  have hasked : Fanout.smallest ≤ (Options.mk t.order capacity).order := Nat.le_of_succ_le hthree
  have hmake := ofOptions_eq (V := V) hasked t.cmp
  have hfanout : (⟨max t.order 3, Nat.le_max_right ..⟩ : Fanout) = t.fanout :=
    Fanout.eq_of_order (Nat.max_eq_left hthree)
  rw [hfanout] at hmake
  have hstart : (empty t.fanout capacity t.cmp : Tree K V).Sound none := sound_empty ..
  have : Std.TransCmp (empty t.fanout capacity t.cmp : Tree K V).cmp := ‹Std.TransCmp t.cmp›
  obtain ⟨fresh, l?', events, hrun, hfresh, hleft, -⟩ := hstart.run (Operation.inserts entries)
  have hsame : l?'.map Layout.shape = l?.map Layout.shape :=
    hleft.trans ((Operation.runShape_inserts ..).trans hshape.symm)
  have hlook := h.shape_eq
  have hlook' := hfresh.shape_eq
  rw [hsame] at hlook'
  exact ⟨_, fresh, _, events, _, hmake, hrun, hlook, hlook', exists_render hlook hlook'⟩

/-- What a sound tree holds whose entries were stored one after the other. -/
theorem Sound.loaded_contents [Std.TransCmp t.cmp] (h : t.Sound l?)
    (hlist : Shape.contents (l?.map Layout.shape) = Entries.storeAll t.cmp entries []) :
    ∃ final, t.inOrder = .ok final ∧ t.toList = .ok final ∧ t.size = final.length ∧
      Ascending t.cmp final ∧
      (∀ key, Entries.find? t.cmp key final = Entries.merge? t.cmp key entries) ∧
      ∀ entry, entry ∈ final ↔ Entries.merge? t.cmp entry.1 entries = some entry := by
  have hfind (key : K) : Entries.find? t.cmp key (Shape.contents (l?.map Layout.shape)) =
      Entries.merge? t.cmp key entries := by
    rw [hlist, Entries.find?_storeAll]
  refine ⟨_, h.inOrder_eq, h.toList_eq, h.size_eq, h.ascending, hfind, fun entry => ?_⟩
  rw [h.ascending.mem_iff_find?, hfind]

end Tree

/-- A text that cannot be decoded leaves a tree that can be reached as it is, in all its parts. Any
other text replaces what the tree holds, and the result does not depend on what the tree held. -/
theorem replaceFromJson_spec [Json.ObjectReader K V] (hcmp : Consistent cmp)
    {t : Tree K V} (hreach : t.Reachable cmp) (text : String) :
    (∀ failure, (Json.readMembers text : Except Json.Failure (List (K × V))) = .error failure →
      t.replaceFromJson text = .ok ⟨.error (.undecodable failure), t, []⟩) ∧
    ∀ entries : List (K × V), Json.readMembers text = .ok entries →
      ∃ u events, t.replaceFromJson text = .ok ⟨.ok (), u, events⟩ ∧
        t.LoadedFrom cmp entries u := by
  have := hcmp.transCmp
  obtain ⟨l?, hsound, rfl⟩ := hreach.sound
  have hreplace := t.replaceFromJson_eq (K := K) (V := V) text
  refine ⟨fun failure hread => ?_, fun entries hread => ?_⟩
  · rw [hread] at hreplace
    exact hreplace
  · rw [hread] at hreplace
    obtain ⟨u, l?', hstep, hu, hshape, hlist, halike⟩ := hreplace
    obtain ⟨events, hperform⟩ : ∃ events,
        t.perform (.replaceFromJson text) = .ok ⟨.outcome (.ok ()), u, events⟩ := by
      rw [Tree.perform, hstep]
      exact ⟨_, rfl⟩
    have := halike.transCmp
    rw [← halike.fanout, ← halike.cmp] at hshape
    rw [← halike.cmp] at hlist
    refine ⟨u, _, hstep, ?_⟩
    constructor
    case reachable => exact hreach.perform hperform
    case order => exact congrArg Fanout.order halike.fanout
    case comparison => exact halike.cmp
    case capacity => exact halike.capacity
    case contents =>
      have hcontents := hu.loaded_contents hlist
      rwa [halike.cmp] at hcontents
    case fresh =>
      have hfresh := hu.likeFresh hshape
      rwa [halike.cmp, Tree.order, halike.fanout] at hfresh

/-- Keys are told apart by their last digits. Key 21 gives its value to key 1, which was there before
it; the old entry of key 3 is gone. A text that ends too early changes nothing, and the refusal tells
where it ends. -/
theorem replaceFromJson_spec_digits :
    Consistent (compareOn fun key : UInt8 => key % 10) ∧
      ∃ t : Tree UInt8 UInt8, t.Reachable (compareOn (· % 10)) ∧ t.inOrder = .ok [(3, 0)] ∧
        t.replaceFromJson "\x7b\"1\":10,\"12\":" =
          .ok ⟨.error (.undecodable ⟨.endsBeforeValue, some ⟨1, 13⟩⟩), t, []⟩ ∧
        ∃ u events final, t.replaceFromJson "\x7b\"1\":10,\"12\":20,\"21\":30\x7d" =
            .ok ⟨.ok (), u, events⟩ ∧
          t.LoadedFrom (compareOn (· % 10)) [(1, 10), (12, 20), (21, 30)] u ∧
          u.inOrder = .ok final ∧ (1, 30) ∈ final ∧ (12, 20) ∈ final ∧ (21, 30) ∉ final ∧
          (3, 0) ∉ final := by
  have hcmp : Consistent (compareOn fun key : UInt8 => key % 10) := Consistent.of_transCmp
  obtain ⟨t, hreach, hentries⟩ : ∃ t : Tree UInt8 UInt8, t.Reachable (compareOn (· % 10)) ∧
      t.inOrder = .ok [(3, 0)] := ⟨_, ⟨.order 2, _, [.insert 3 0], _, _, rfl, rfl⟩, rfl⟩
  refine ⟨hcmp, t, hreach, hentries, ?_, ?_⟩
  · have hbroken : (Json.readMembers "\x7b\"1\":10,\"12\":" :
        Except Json.Failure (List (UInt8 × UInt8))) = .error ⟨.endsBeforeValue, some ⟨1, 13⟩⟩ := by
      decide +kernel
    exact (replaceFromJson_spec hcmp hreach _).1 _ hbroken
  · have hwhole : (Json.readMembers "\x7b\"1\":10,\"12\":20,\"21\":30\x7d" :
        Except Json.Failure (List (UInt8 × UInt8))) = .ok [(1, 10), (12, 20), (21, 30)] := by
      decide +kernel
    obtain ⟨u, events, hstep, hloaded⟩ := (replaceFromJson_spec hcmp hreach _).2 _ hwhole
    obtain ⟨final, hfinal, -, -, -, -, hmem⟩ := hloaded.contents
    exact ⟨u, events, final, hstep, hloaded, hfinal, (hmem _).mpr (by decide),
      (hmem _).mpr (by decide), mt (hmem _).mp (by decide), mt (hmem _).mp (by decide)⟩

end Multiway
