import Multiway.Proofs.Run.Travel

/-!
Moving a cursor to an entry that passes a test.

A test may remember what it was asked, so it matters which entries it is asked about and in which
order. `scan` asks about the entries of a list from the front until one passes. A cursor that looks
forward scans the entries behind it, and one that looks backward scans those in front of it, the
nearest first; the entry that it stands on is not among them.
-/

namespace Multiway

variable {K V σ : Type}

/-- Asks about entries in order until one passes. The number of those that did not pass before is
answered, if there is one that passes, with what the test has come to. -/
def scan (test : K → V → StateM σ Bool) : List (K × V) → σ → Option Nat × σ
  | [], state => (none, state)
  | (key, value) :: entries, state =>
    match (test key value).run state with
    | (true, state) => (some 0, state)
    | (false, state) => ((scan test entries state).1.map Nat.succ, (scan test entries state).2)

theorem scan_lt {test : K → V → StateM σ Bool} {entries : List (K × V)} {state : σ} {passed : Nat}
    (h : (scan test entries state).1 = some passed) : passed < entries.length := by
  induction entries generalizing state passed with
  | nil => contradiction
  | cons entry entries ih =>
      obtain ⟨key, value⟩ := entry
      rw [scan] at h
      split at h
      · obtain rfl := Option.some.inj h
        exact Nat.succ_pos _
      · obtain ⟨before, hbefore, rfl⟩ := Option.map_eq_some_iff.mp h
        exact Nat.succ_lt_succ (ih hbefore)

namespace Cursor

variable {move : Cursor K V → Except Fault (Bool × Cursor K V)} {final : Cursor K V}
  {ahead : List (K × V)}

/-- Where a scan leaves a cursor that stops at an entry after each move and at last beyond them. -/
def arrive (stops : Nat → Cursor K V) (final : Cursor K V) :
    Option Nat × σ → (Bool × Cursor K V) × σ
  | (some passed, state) => ((true, stops (passed + 1)), state)
  | (none, state) => ((false, final), state)

/-- Moving until an entry passes is scanning the entries at which the moves stop. -/
theorem seek_eq (stops : Nat → Cursor K V) (hstop : ∀ i entry, ahead[i]? = some entry →
      move (stops i) = .ok (true, stops (i + 1)) ∧ (stops (i + 1)).entry = .ok entry)
    (hend : move (stops ahead.length) = .ok (false, final)) (test : K → V → StateM σ Bool)
    {fuel : Nat} (hfuel : ahead.length < fuel) (state : σ) :
    seek move test fuel (stops 0) state = .ok (arrive stops final (scan test ahead state)) := by
  -- After one move the rest of the way is a way with one stop less.
  induction ahead generalizing stops fuel state with
  | nil =>
      obtain ⟨fuel, rfl⟩ : ∃ rest, fuel = rest + 1 := ⟨fuel - 1, by omega⟩
      rw [seek, show move (stops 0) = _ from hend]
      rfl
  | cons entry ahead ih =>
      obtain ⟨key, value⟩ := entry
      rw [List.length_cons] at hfuel
      obtain ⟨fuel, rfl⟩ : ∃ rest, fuel = rest + 1 := ⟨fuel - 1, by omega⟩
      obtain ⟨hmove, hentry⟩ := hstop 0 (key, value) rfl
      have hrest := ih (fun i => stops (i + 1)) (fun i => hstop (i + 1)) hend
        (by omega : ahead.length < fuel)
      rw [seek, hmove]
      simp only [ok_bind, hentry, scan]
      cases (test key value).run state with
      | mk passes asked =>
          cases passes with
          | true => rfl
          | false =>
              refine (hrest asked).trans (congrArg Except.ok ?_)
              simp only []
              cases scan test ahead asked with
              | mk passed? told => cases passed? <;> rfl

/-- A cursor stands on the entry with its number. -/
theorem entry_of_positionAt {t : Tree K V} {entries : List (K × V)} {places : List (NodeId × Nat)}
    (h : t.Places entries places) {number : Nat} {entry : K × V}
    (hentry : entryAt entries number = some entry) :
    (⟨t, positionAt places number⟩ : Cursor K V).entry = .ok entry := by
  cases number with
  | zero => contradiction
  | succ number =>
      rw [entryAt] at hentry
      obtain ⟨hlt, -⟩ := List.getElem?_eq_some_iff.mp hentry
      rw [← h.length] at hlt
      obtain ⟨⟨id, index⟩, hplace⟩ : ∃ place, places[number]? = some place :=
        ⟨_, List.getElem?_eq_getElem hlt⟩
      obtain ⟨node, hnode, hstored⟩ := h.entry number id index hplace
      rw [hentry] at hstored
      rw [positionAt, hplace]
      show (t.arena.node id >>= fun node => itemAt node.entries index) = _
      rw [hnode, ok_bind, itemAt, hstored]

/-- Backward from a number the entries come with the numbers below it. -/
theorem entryAt_of_reverse {entries : List (K × V)} {number i : Nat} {entry : K × V}
    (hnumber : number ≤ entries.length + 1)
    (h : (entries.take (number - 1)).reverse[i]? = some entry) :
    entryAt entries (number - (i + 1)) = some entry := by
  have hlength : (entries.take (number - 1)).length = number - 1 :=
    List.length_take_of_le (by omega)
  obtain ⟨hlt, -⟩ := List.getElem?_eq_some_iff.mp h
  rw [List.length_reverse, hlength] at hlt
  obtain ⟨below, rfl⟩ : ∃ below, number = below + 1 + (i + 1) := ⟨number - (i + 1) - 1, by omega⟩
  rw [List.getElem?_reverse (by omega), hlength, List.getElem?_take_of_lt (by omega)] at h
  rw [Nat.add_sub_cancel, entryAt, ← h]
  congr 1
  omega

end Cursor

namespace Tree

variable {t : Tree K V} {l? : Option (Layout (K × V))} {entries : List (K × V)} {number : Nat}
  [Std.TransCmp t.cmp]

/-- Looking forward scans the entries behind the cursor. -/
theorem Sound.findNext_eq (h : t.Sound l?)
    (hentries : Shape.contents (l?.map Layout.shape) = entries)
    (hnumber : number ≤ entries.length + 1) (test : K → V → StateM σ Bool) (state : σ) :
    (⟨t, Cursor.positionAt (entries.map t.placeOf) number⟩ : Cursor K V).findNext test state =
      .ok (Cursor.arrive
        (fun i => ⟨t, Cursor.positionAt (entries.map t.placeOf) (number + i)⟩)
        ⟨t, Cursor.positionAt (entries.map t.placeOf) (entries.length + 1)⟩
        (scan test (entries.drop number) state)) := by
  have hplaces := h.places
  rw [hentries] at hplaces
  have hlength : (entries.drop number).length = entries.length - number := List.length_drop ..
  rw [Cursor.findNext, h.size_eq, hentries]
  refine Cursor.seek_eq (fun i => ⟨t, Cursor.positionAt (entries.map t.placeOf) (number + i)⟩)
    (fun i entry hentry => ?_) ?_ test (by omega) state
  · rw [List.getElem?_drop] at hentry
    obtain ⟨hlt, -⟩ := List.getElem?_eq_some_iff.mp hentry
    have hle : number + i ≤ entries.length + 1 := by omega
    have hafter : Move.after entries.length (number + i) = number + i + 1 :=
      Nat.min_eq_left (by omega)
    have hnext := h.next_eq hentries hle hafter
    rw [decide_eq_true (by omega)] at hnext
    exact ⟨hnext, Cursor.entry_of_positionAt hplaces hentry⟩
  · have hle : number + (entries.drop number).length ≤ entries.length + 1 := by omega
    have hafter : Move.after entries.length (number + (entries.drop number).length) =
        entries.length + 1 := Nat.min_eq_right (by omega)
    have hnext := h.next_eq hentries hle hafter
    rwa [decide_eq_false (by omega)] at hnext

/-- Looking backward scans the entries in front of the cursor, the nearest first. -/
theorem Sound.findPrev_eq (h : t.Sound l?)
    (hentries : Shape.contents (l?.map Layout.shape) = entries)
    (hnumber : number ≤ entries.length + 1) (test : K → V → StateM σ Bool) (state : σ) :
    (⟨t, Cursor.positionAt (entries.map t.placeOf) number⟩ : Cursor K V).findPrev test state =
      .ok (Cursor.arrive
        (fun i => ⟨t, Cursor.positionAt (entries.map t.placeOf) (number - i)⟩)
        ⟨t, Cursor.positionAt (entries.map t.placeOf) 0⟩
        (scan test (entries.take (number - 1)).reverse state)) := by
  have hplaces := h.places
  rw [hentries] at hplaces
  have hlength : (entries.take (number - 1)).length = min (number - 1) entries.length :=
    List.length_take ..
  have hreverse : (entries.take (number - 1)).reverse.length = (entries.take (number - 1)).length :=
    List.length_reverse
  rw [Cursor.findPrev, h.size_eq, hentries]
  refine Cursor.seek_eq (fun i => ⟨t, Cursor.positionAt (entries.map t.placeOf) (number - i)⟩)
    (fun i entry hentry => ?_) ?_ test (by omega) state
  · obtain ⟨hlt, -⟩ := List.getElem?_eq_some_iff.mp hentry
    have hle : number - i ≤ entries.length + 1 := by omega
    have hprev := h.prev_eq hentries hle (Nat.sub_sub number i 1)
    rw [decide_eq_true (by omega)] at hprev
    exact ⟨hprev, Cursor.entry_of_positionAt hplaces (Cursor.entryAt_of_reverse hnumber hentry)⟩
  · have hle : number - (entries.take (number - 1)).reverse.length ≤ entries.length + 1 := by omega
    have hbefore : Move.before (number - (entries.take (number - 1)).reverse.length) = 0 := by
      rw [Move.before]
      omega
    have hprev := h.prev_eq hentries hle hbefore
    rwa [decide_eq_false (by omega)] at hprev

end Tree

end Multiway
