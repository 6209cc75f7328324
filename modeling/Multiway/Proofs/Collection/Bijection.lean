import Multiway.Collection.Bijection
import Multiway.Proofs.Collection.Mirrored
import Multiway.Proofs.Run.Laws
import Multiway.Proofs.Run.Walking

/-!
Bijections in two trees.

The two trees of a bijection have the same pairs, turned round in the second one. Every action changes
both trees, and neither tree knows of the other, so what has to be shown is that the changes fit: the
value that the first tree gives up with a key is the one that is taken out of the second, and only what
is new on both sides is stored. On ascending lists this was shown for `Mirrored`; here each action is
led back to it, one tree after the other. Taking out a value is taking out a key when the bijection is
turned round.
-/

namespace Multiway

variable {K V : Type}

/-! ### One tree and its list -/

/-- A tree of this fan-out and this order of keys is sound and has these entries. -/
structure Tree.Keeps (t : Tree K V) (f : Fanout) (cmp : K → K → Ordering)
    (entries : List (K × V)) : Prop where
  fanout : t.fanout = f
  comparison : t.cmp = cmp
  sound : ∃ l?, t.Sound l? ∧ Shape.contents (l?.map Layout.shape) = entries

namespace Tree

variable {t : Tree K V} {f : Fanout} {cmp : K → K → Ordering} {entries : List (K × V)}

theorem Keeps.of_leads {α : Type} {answer : α} {s? : Option (Shape (K × V))}
    {old : List (K × V)} {step : Except Fault (Change (Tree K V) α)} (h : t.Keeps f cmp old)
    (hleads : t.Leads answer s? entries step) :
    ∃ u events, step = .ok ⟨answer, u, events⟩ ∧ u.Keeps f cmp entries := by
  obtain ⟨u, l?, events, hstep, hu, -, hentries, halike⟩ := hleads
  exact ⟨u, events, hstep, halike.fanout.trans h.fanout, halike.cmp.trans h.comparison, l?, hu,
    hentries⟩

theorem keeps_empty (f : Fanout) (capacity : Nat) (cmp : K → K → Ordering) :
    (empty f capacity cmp : Tree K V).Keeps f cmp [] :=
  ⟨rfl, rfl, none, sound_empty .., rfl⟩

theorem Keeps.clear (h : t.Keeps f cmp entries) : t.clear.state.Keeps f cmp [] :=
  ⟨h.fanout, h.comparison, none, t.sound_clear, rfl⟩

theorem Keeps.copy (h : t.Keeps f cmp entries) :
    ∃ u, t.copy = .ok u ∧ u.Keeps f cmp entries := by
  obtain ⟨l?, hsound, rfl⟩ := h.sound
  obtain ⟨u, l?', hcopy, hu, hshape, halike, -⟩ := hsound.copy
  exact ⟨u, hcopy, halike.fanout.trans h.fanout, halike.cmp.trans h.comparison, l?', hu,
    congrArg Shape.contents hshape⟩

theorem Keeps.toList_eq [Std.TransCmp cmp] (h : t.Keeps f cmp entries) :
    t.toList = .ok entries := by
  obtain ⟨-, rfl, l?, hsound, rfl⟩ := h
  exact hsound.toList_eq

theorem Keeps.valid [Std.TransCmp cmp] (h : t.Keeps f cmp entries) :
    t.Valid ∧ t.audit = .ok (.ok ()) := by
  obtain ⟨-, rfl, l?, hsound, -⟩ := h
  exact ⟨hsound.valid, hsound.audit_eq⟩

theorem Keeps.size_eq (h : t.Keeps f cmp entries) : t.size = entries.length := by
  obtain ⟨l?, hsound, rfl⟩ := h.sound
  exact hsound.size_eq

theorem Keeps.get?_eq [Std.TransCmp cmp] (h : t.Keeps f cmp entries) (key : K) :
    t.get? key = .ok ((Entries.find? cmp key entries).map Prod.snd) := by
  obtain ⟨-, rfl, l?, hsound, rfl⟩ := h
  exact hsound.get?_eq key

theorem Keeps.erase_eq [Std.TransCmp cmp] (h : t.Keeps f cmp entries) (key : K) :
    ∃ u events, t.erase key =
        .ok ⟨(Entries.find? cmp key entries).map Prod.snd, u, events⟩ ∧
      u.Keeps f cmp (Entries.remove cmp key entries) := by
  obtain ⟨rfl, rfl, l?, hsound, rfl⟩ := id h
  obtain ⟨tall, hstands⟩ := hsound.stands
  exact h.of_leads ((hsound.erase key).leads (Shape.erase_spec hstands hsound.ascending key).1)

theorem Keeps.insert_eq [Std.TransCmp cmp] (h : t.Keeps f cmp entries) (key : K) (value : V) :
    ∃ u events, t.insert key value =
        .ok ⟨(Entries.find? cmp key entries).map Prod.snd, u, events⟩ ∧
      u.Keeps f cmp (Entries.store cmp key value entries) := by
  obtain ⟨rfl, rfl, l?, hsound, rfl⟩ := h
  obtain ⟨u, l, hinsert, hu, -, hstored, halike, -⟩ := hsound.insert key value
  exact ⟨u, _, hinsert, halike.fanout, halike.cmp, some l, hu, hstored⟩

theorem Keeps.equal_eq [Std.TransCmp cmp] [BEq K] [BEq V] {g : Fanout} {u : Tree K V}
    {entries' : List (K × V)} (h : t.Keeps f cmp entries) (h' : u.Keeps g cmp entries') :
    t.equal u = .ok (entries == entries') := by
  obtain ⟨-, rfl, l?, hsound, rfl⟩ := h
  obtain ⟨-, hcmp, l?', hsound', rfl⟩ := h'
  have : Std.TransCmp u.cmp := hcmp ▸ ‹Std.TransCmp t.cmp›
  exact hsound.equal_eq hsound'

end Tree

/-! ### Both trees -/

namespace Bijection

variable {keyOrder : K → K → Ordering} {valueOrder : V → V → Ordering} {f : Fanout}
  {b : Bijection K V} {pairs : List (K × V)} {turned : List (V × K)}

/-- The two trees of a bijection have these pairs. -/
structure Keeps (b : Bijection K V) (f : Fanout) (keyOrder : K → K → Ordering)
    (valueOrder : V → V → Ordering) (pairs : List (K × V)) (turned : List (V × K)) : Prop where
  forward : b.forward.Keeps f keyOrder pairs
  inverse : b.inverse.Keeps f valueOrder turned
  mirrored : Mirrored keyOrder valueOrder pairs turned

/-- The same pairs, seen from the values. -/
def turn (b : Bijection K V) : Bijection V K := ⟨b.inverse, b.forward⟩

theorem eraseValue_eq_erase (b : Bijection K V) (value : V) :
    b.eraseValue value = b.turn.erase value >>= fun removed => pure (removed.1, removed.2.turn) := by
  rw [eraseValue, erase, turn]
  cases b.inverse.erase value with
  | error fault => rfl
  | ok removed =>
      cases hanswer : removed.answer with
      | none =>
          simp only [ok_bind, hanswer]
          rfl
      | some key =>
          simp only [ok_bind, hanswer]
          cases b.forward.erase key <;> rfl

theorem Keeps.turn (h : b.Keeps f keyOrder valueOrder pairs turned) :
    b.turn.Keeps f valueOrder keyOrder turned pairs :=
  ⟨h.inverse, h.forward, h.mirrored.symm⟩

theorem Keeps.clear (h : b.Keeps f keyOrder valueOrder pairs turned) :
    b.clear.Keeps f keyOrder valueOrder [] [] :=
  ⟨h.forward.clear, h.inverse.clear, .nil⟩

theorem Keeps.copy (h : b.Keeps f keyOrder valueOrder pairs turned) :
    ∃ c, b.copy = .ok c ∧ c.Keeps f keyOrder valueOrder pairs turned := by
  obtain ⟨u, hcopy, hu⟩ := h.forward.copy
  obtain ⟨v, hcopy', hv⟩ := h.inverse.copy
  refine ⟨⟨u, v⟩, ?_, hu, hv, h.mirrored⟩
  rw [Bijection.copy, hcopy, hcopy']
  rfl

section actions

variable [Std.TransCmp keyOrder] [Std.TransCmp valueOrder]

/-- Taking out a key takes out its pair on both sides. -/
theorem Keeps.erase_eq (h : b.Keeps f keyOrder valueOrder pairs turned) (key : K) :
    ∃ c turned', b.erase key = .ok ((Entries.find? keyOrder key pairs).map Prod.snd, c) ∧
      c.Keeps f keyOrder valueOrder (Entries.remove keyOrder key pairs) turned' := by
  obtain ⟨u, events, herase, hu⟩ := h.forward.erase_eq key
  cases hfound : Entries.find? keyOrder key pairs with
  | none =>
      rw [hfound] at herase
      refine ⟨b, turned, ?_, ?_⟩
      · rw [erase, herase]
        rfl
      · rwa [Entries.remove_of_find?_eq_none hfound]
  | some found =>
      obtain ⟨v, events', herase', hv⟩ := h.inverse.erase_eq found.2
      rw [hfound] at herase
      refine ⟨⟨u, v⟩, _, ?_, hu, hv, h.mirrored.remove hfound⟩
      rw [erase, herase]
      simp only [ok_bind, Option.map_some, herase']
      rfl

theorem Keeps.eraseValue_eq (h : b.Keeps f keyOrder valueOrder pairs turned) (value : V) :
    ∃ c pairs', b.eraseValue value =
        .ok ((Entries.find? valueOrder value turned).map Prod.snd, c) ∧
      c.Keeps f keyOrder valueOrder pairs' (Entries.remove valueOrder value turned) := by
  obtain ⟨c, pairs', herase, hc⟩ := h.turn.erase_eq value
  refine ⟨c.turn, pairs', ?_, hc.turn⟩
  rw [eraseValue_eq_erase, herase]
  rfl

/-- Pairing a key with a value takes out what they were paired with and stores the new pair. -/
theorem Keeps.insert_eq (h : b.Keeps f keyOrder valueOrder pairs turned) (key : K) (value : V) :
    ∃ c rest turned', b.insert key value = .ok ((Entries.find? keyOrder key pairs).map Prod.snd, c) ∧
      c.Keeps f keyOrder valueOrder (Entries.store keyOrder key value rest) turned' ∧
      Ascending keyOrder rest ∧ Entries.find? keyOrder key rest = none ∧
      (∀ pair, pair ∈ rest ↔
        pair ∈ pairs ∧ keyOrder pair.1 key ≠ .eq ∧ valueOrder pair.2 value ≠ .eq) ∧
      ∃ displaced ≤ 2, rest.length + displaced = pairs.length := by
  obtain ⟨c, turned', herase, hc⟩ := h.erase_eq key
  obtain ⟨d, rest, herase', hd⟩ := hc.eraseValue_eq value
  have hmem (pair : K × V) : pair ∈ rest ↔
      pair ∈ pairs ∧ keyOrder pair.1 key ≠ .eq ∧ valueOrder pair.2 value ≠ .eq := by
    rw [hd.mirrored.mem_swap, Entries.mem_remove, ← hc.mirrored.mem_swap, Entries.mem_remove,
      and_assoc]
    rfl
  have hkey : Entries.find? keyOrder key rest = none :=
    Entries.find?_eq_none.mpr fun pair hpair => ((hmem pair).mp hpair).2.1
  have hvalue : Entries.find? valueOrder value (Entries.remove valueOrder value turned') = none :=
    Entries.find?_eq_none.mpr fun pair hpair => (Entries.mem_remove.mp hpair).2
  obtain ⟨u, events, hinsert, hu⟩ := hd.forward.insert_eq key value
  obtain ⟨v, events', hinsert', hv⟩ := hd.inverse.insert_eq value key
  refine ⟨⟨u, v⟩, rest, _, ?_, ⟨hu, hv, hd.mirrored.store hkey hvalue⟩, hd.mirrored.ascending, hkey,
    hmem, ?_⟩
  · rw [insert, herase]
    simp only [ok_bind, herase', hinsert, hinsert']
    rfl
  · -- One pair may go with the key, and another one with the value.
    have hfirst := Entries.length_remove h.mirrored.ascending key
    have hsecond := Entries.length_remove hc.mirrored.turned_ascending value
    have hone {α : Type} (found : Option α) : found.toList.length ≤ 1 := by
      cases found <;> simp
    have hfirst' := hone (Entries.find? keyOrder key pairs)
    have hsecond' := hone (Entries.find? valueOrder value turned')
    have hlength := hc.mirrored.length_eq
    have hlength' := hd.mirrored.length_eq
    exact ⟨(Entries.find? keyOrder key pairs).toList.length +
      (Entries.find? valueOrder value turned').toList.length, by omega, by omega⟩

omit [Std.TransCmp keyOrder] in
theorem Keeps.getKey?_eq (h : b.Keeps f keyOrder valueOrder pairs turned) (value : V) :
    b.getKey? value =
      .ok ((pairs.find? fun pair => valueOrder pair.2 value = .eq).map Prod.fst) := by
  rw [getKey?, h.inverse.get?_eq, ← h.mirrored.find?_value, Option.map_map]
  rfl

omit [Std.TransCmp keyOrder] in
/-- The key of a pair is found under its value. -/
theorem Keeps.getKey?_of_mem (h : b.Keeps f keyOrder valueOrder pairs turned) {pair : K × V}
    (hmem : pair ∈ pairs) {value : V} (hvalue : valueOrder pair.2 value = .eq) :
    b.getKey? value = .ok (some pair.1) := by
  rw [h.getKey?_eq]
  cases hfound : pairs.find? fun pair => valueOrder pair.2 value = .eq with
  | none => exact absurd (decide_eq_true hvalue) (List.find?_eq_none.mp hfound pair hmem)
  | some found =>
      have hfound' : valueOrder found.2 value = .eq := by simpa using List.find?_some hfound
      have hsame : valueOrder found.2 pair.2 = .eq :=
        Std.TransCmp.eq_trans hfound' (Std.OrientedCmp.eq_symm hvalue)
      rw [h.mirrored.eq_of_value (List.mem_of_find?_eq_some hfound) hmem hsame]
      rfl

end actions

end Bijection

end Multiway
