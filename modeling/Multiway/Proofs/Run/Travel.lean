import Multiway.Proofs.Run.Reference
import Multiway.Proofs.Tree.Cursor

/-!
Runs of a cursor.

A cursor over `n` entries is a number from zero to `n + 1`: zero in front of the first entry, `n + 1`
behind the last one, and any other number on the entry that it counts to. The numbers move without a
tree. That the cursor moves with them needs one step from each kind of position; the rest is an
induction on the moves.
-/

namespace Multiway

variable {K V : Type} {cmp : K → K → Ordering}

/-- What can be done with a cursor. -/
inductive Move where
  | next
  | prev
  | toStart
  | toEnd
  | first
  | last
deriving DecidableEq, Repr

namespace Move

/-- The number after a number, among so many entries. -/
def after (size number : Nat) : Nat := min (number + 1) (size + 1)

/-- The number before a number. -/
def before (number : Nat) : Nat := number - 1

/-- Where a move leads. The first entry is the one after the start, the last one is the one before
the end. -/
def target (size number : Nat) : Move → Nat
  | .next => after size number
  | .prev => before number
  | .toStart => 0
  | .toEnd => size + 1
  | .first => after size 0
  | .last => before (size + 1)

/-- A move that looks for an entry tells whether it has come to one. -/
def answer (size number : Nat) : Move → Option Bool
  | .toStart | .toEnd => none
  | .next | .prev | .first | .last => some (decide (1 ≤ number ∧ number ≤ size))

/-- The answers to some moves, and where they lead. -/
def travel (size : Nat) : List Move → Nat → List (Option Bool) × Nat
  | [], number => ([], number)
  | move :: moves, number =>
    let number := move.target size number
    let (answers, final) := travel size moves number
    (move.answer size number :: answers, final)

theorem target_le {size number : Nat} (h : number ≤ size + 1) (move : Move) :
    move.target size number ≤ size + 1 := by
  cases move <;> simp only [target, after, before] <;> omega

end Move

namespace Cursor

/-- Makes one move. -/
def move (c : Cursor K V) : Move → Except Fault (Option Bool × Cursor K V)
  | .next => do return (← c.next).map some id
  | .prev => do return (← c.prev).map some id
  | .toStart => return (none, c.toStart)
  | .toEnd => return (none, c.toEnd)
  | .first => do return (← c.first).map some id
  | .last => do return (← c.last).map some id

/-- Makes one move after the other, and collects the answers. -/
def travel (c : Cursor K V) : List Move → Except Fault (List (Option Bool) × Cursor K V)
  | [] => return ([], c)
  | move :: moves => do
    let (answer, c) ← c.move move
    let (answers, c) ← c.travel moves
    return (answer :: answers, c)

/-- The position with a number, where these are the places of the entries. -/
def positionAt (places : List (NodeId × Nat)) : Nat → Position
  | 0 => .beyond .beforeFirst
  | number + 1 =>
    match places[number]? with
    | some (id, index) => .on id index
    | none => .beyond .afterLast

/-- The entry with a number. -/
def entryAt (entries : List (K × V)) : Nat → Option (K × V)
  | 0 => none
  | number + 1 => entries[number]?

variable {t : Tree K V} {entries : List (K × V)} {places : List (NodeId × Nat)} {number : Nat}

theorem isEntry_positionAt (places : List (NodeId × Nat)) (number : Nat) :
    (positionAt places number).isEntry = decide (1 ≤ number ∧ number ≤ places.length) := by
  cases number with
  | zero => rfl
  | succ number =>
      rw [positionAt]
      by_cases hlt : number < places.length
      · rw [List.getElem?_eq_getElem hlt]
        exact (decide_eq_true ⟨Nat.succ_pos number, hlt⟩).symm
      · rw [List.getElem?_eq_none (Nat.le_of_not_lt hlt)]
        exact (decide_eq_false fun hboth => hlt hboth.2).symm

/-- The entry under a cursor is the one with the number of its position. -/
theorem entry_positionAt (h : t.Places entries places) (number : Nat) :
    entry? (⟨t, positionAt places number⟩ : Cursor K V) = .ok (entryAt entries number) := by
  cases number with
  | zero => rfl
  | succ number =>
      cases hplace : places[number]? with
      | none =>
          have hle := List.getElem?_eq_none_iff.mp hplace
          rw [h.length] at hle
          simp only [positionAt, entry?, hplace, entryAt, List.getElem?_eq_none hle]
          rfl
      | some place =>
          obtain ⟨id, index⟩ := place
          obtain ⟨node, hnode, hentry⟩ := h.entry number id index hplace
          obtain ⟨hlt, -⟩ := List.getElem?_eq_some_iff.mp hplace
          rw [h.length] at hlt
          rw [List.getElem?_eq_getElem hlt] at hentry
          simp only [positionAt, entry?, hplace, entryAt, hnode, ok_bind, itemAt, hentry,
            List.getElem?_eq_getElem hlt]
          rfl

end Cursor

/-! ### One move -/

namespace Tree

variable {t : Tree K V} {entries : List (K × V)}

theorem positionAt_after (cut : Nat) :
    Cursor.positionAt (entries.map t.placeOf) (cut + 1) =
      t.stand .afterLast (entries.drop cut).head? := by
  rw [Cursor.positionAt, List.getElem?_map, List.head?_drop]
  cases entries[cut]? <;> rfl

theorem positionAt_before {cut : Nat} (h : cut ≤ entries.length) :
    Cursor.positionAt (entries.map t.placeOf) cut =
      t.stand .beforeFirst (entries.take cut).getLast? := by
  cases cut with
  | zero => rfl
  | succ cut =>
      have hlt : cut < entries.length := h
      rw [Cursor.positionAt, List.getElem?_map, List.getElem?_eq_getElem hlt,
        List.take_succ_eq_append_getElem hlt, List.getLast?_concat]
      rfl

variable [Std.TransCmp t.cmp] {l? : Option (Layout (K × V))} {number : Nat}

theorem Sound.positionAfter_at (h : t.Sound l?)
    (hentries : Shape.contents (l?.map Layout.shape) = entries)
    (hnumber : number ≤ entries.length + 1) :
    t.positionAfter (Cursor.positionAt (entries.map t.placeOf) number) =
      .ok (Cursor.positionAt (entries.map t.placeOf) (Move.after entries.length number)) := by
  -- A cursor behind the last entry stays; any other stands in front of a cut of the list.
  rcases Nat.lt_or_ge entries.length number with hend | hle
  · obtain rfl : number = entries.length + 1 := by omega
    have hafter : Move.after entries.length (entries.length + 1) = entries.length + 1 :=
      Nat.min_eq_right (Nat.le_succ _)
    rw [hafter, positionAt_after, List.drop_length]
    rfl
  · have hafter : Move.after entries.length number = number + 1 :=
      Nat.min_eq_left (Nat.succ_le_succ hle)
    rw [hafter, positionAt_after, positionAt_before hle]
    exact h.positionAfter_eq (hentries.trans (List.take_append_drop number entries).symm)

theorem Sound.positionBefore_at (h : t.Sound l?)
    (hentries : Shape.contents (l?.map Layout.shape) = entries)
    (hnumber : number ≤ entries.length + 1) :
    t.positionBefore (Cursor.positionAt (entries.map t.placeOf) number) =
      .ok (Cursor.positionAt (entries.map t.placeOf) (Move.before number)) := by
  cases number with
  | zero => rfl
  | succ cut =>
      have hle : cut ≤ entries.length := Nat.le_of_succ_le_succ hnumber
      rw [Move.before, Nat.add_sub_cancel, positionAt_after, positionAt_before hle]
      exact h.positionBefore_eq (hentries.trans (List.take_append_drop cut entries).symm)

theorem Sound.next_eq (h : t.Sound l?)
    (hentries : Shape.contents (l?.map Layout.shape) = entries)
    (hnumber : number ≤ entries.length + 1) {target : Nat}
    (htarget : Move.after entries.length number = target) :
    (⟨t, Cursor.positionAt (entries.map t.placeOf) number⟩ : Cursor K V).next =
      .ok (decide (1 ≤ target ∧ target ≤ entries.length),
        ⟨t, Cursor.positionAt (entries.map t.placeOf) target⟩) := by
  have hentry := Cursor.isEntry_positionAt (entries.map t.placeOf) target
  rw [List.length_map] at hentry
  rw [Cursor.next, h.positionAfter_at hentries hnumber, htarget, ok_bind, Cursor.moveTo, hentry]
  rfl

theorem Sound.prev_eq (h : t.Sound l?)
    (hentries : Shape.contents (l?.map Layout.shape) = entries)
    (hnumber : number ≤ entries.length + 1) {target : Nat} (htarget : Move.before number = target) :
    (⟨t, Cursor.positionAt (entries.map t.placeOf) number⟩ : Cursor K V).prev =
      .ok (decide (1 ≤ target ∧ target ≤ entries.length),
        ⟨t, Cursor.positionAt (entries.map t.placeOf) target⟩) := by
  have hentry := Cursor.isEntry_positionAt (entries.map t.placeOf) target
  rw [List.length_map] at hentry
  rw [Cursor.prev, h.positionBefore_at hentries hnumber, htarget, ok_bind, Cursor.moveTo, hentry]
  rfl

theorem positionAt_end (t : Tree K V) (entries : List (K × V)) :
    Cursor.positionAt (entries.map t.placeOf) (entries.length + 1) = .beyond .afterLast := by
  rw [positionAt_after, List.drop_length]
  rfl

/-- Every move succeeds and does with the cursor what it does with the number. -/
theorem Sound.move_eq (h : t.Sound l?)
    (hentries : Shape.contents (l?.map Layout.shape) = entries)
    (hnumber : number ≤ entries.length + 1) (move : Move) :
    (⟨t, Cursor.positionAt (entries.map t.placeOf) number⟩ : Cursor K V).move move =
      .ok (move.answer entries.length (move.target entries.length number),
        ⟨t, Cursor.positionAt (entries.map t.placeOf) (move.target entries.length number)⟩) := by
  cases move with
  | next =>
      rw [Cursor.move, h.next_eq hentries hnumber rfl]
      rfl
  | prev =>
      rw [Cursor.move, h.prev_eq hentries hnumber rfl]
      rfl
  | toStart => rfl
  | toEnd =>
      rw [Move.target, positionAt_end]
      rfl
  | first =>
      have hnext := h.next_eq hentries (Nat.zero_le _) rfl
      rw [Cursor.move, Cursor.first]
      show ((⟨t, Cursor.positionAt (entries.map t.placeOf) 0⟩ : Cursor K V).next >>= _) = _
      rw [hnext]
      rfl
  | last =>
      have hprev := h.prev_eq hentries (Nat.le_refl _) rfl
      rw [positionAt_end] at hprev
      rw [Cursor.move, Cursor.last]
      show ((⟨t, .beyond .afterLast⟩ : Cursor K V).prev >>= _) = _
      rw [hprev]
      rfl

/-- Moves made one after the other do with the cursor what they do with the number. -/
theorem Sound.travel_eq (h : t.Sound l?)
    (hentries : Shape.contents (l?.map Layout.shape) = entries)
    (hnumber : number ≤ entries.length + 1) (moves : List Move) :
    (⟨t, Cursor.positionAt (entries.map t.placeOf) number⟩ : Cursor K V).travel moves =
        .ok ((Move.travel entries.length moves number).1,
          ⟨t, Cursor.positionAt (entries.map t.placeOf)
            (Move.travel entries.length moves number).2⟩) ∧
      (Move.travel entries.length moves number).2 ≤ entries.length + 1 := by
  induction moves generalizing number with
  | nil => exact ⟨rfl, hnumber⟩
  | cons move moves ih =>
      obtain ⟨hrest, hle⟩ := ih (Move.target_le hnumber move)
      refine ⟨?_, hle⟩
      rw [Cursor.travel, h.move_eq hentries hnumber move]
      simp only [ok_bind, hrest]
      rfl

end Tree

/-- Every run of a cursor over a tree that can be reached is a run of a number. The places that the
numbers name are those of the entries in their order, and what is found under the cursor is the
entry with its number. -/
theorem cursor_travel (hcmp : Consistent cmp) {t : Tree K V} (hreach : t.Reachable cmp) :
    ∃ entries places, t.inOrder = .ok entries ∧ t.Places entries places ∧
      ∀ moves : List Move, ∃ answers number, Move.travel entries.length moves 0 = (answers, number) ∧
        number ≤ entries.length + 1 ∧
        t.cursor.travel moves = .ok (answers, ⟨t, Cursor.positionAt places number⟩) ∧
        Cursor.entry? (⟨t, Cursor.positionAt places number⟩ : Cursor K V) =
          .ok (Cursor.entryAt entries number) := by
  have := hcmp.transCmp
  obtain ⟨l?, hsound, rfl⟩ := hreach.sound
  refine ⟨_, _, hsound.inOrder_eq, hsound.places, fun moves => ?_⟩
  obtain ⟨htravel, hle⟩ := hsound.travel_eq rfl (Nat.zero_le _) moves
  exact ⟨_, _, rfl, hle, htravel, Cursor.entry_positionAt hsound.places _⟩

/-- Three keys make two levels of order 3; the cursor goes up and down between them. -/
theorem cursor_travel_two_levels :
    Consistent (compare : Nat → Nat → Ordering) ∧ ∃ t : Tree Nat Nat, t.Reachable compare ∧
      t.height = .ok 2 ∧ ∃ entries places, t.inOrder = .ok entries ∧ t.Places entries places ∧
        ∃ answers number,
          Move.travel entries.length [.next, .next, .prev, .last, .next] 0 = (answers, number) ∧
          number ≤ entries.length + 1 ∧
          t.cursor.travel [.next, .next, .prev, .last, .next] =
            .ok (answers, ⟨t, Cursor.positionAt places number⟩) ∧
          Cursor.entry? (⟨t, Cursor.positionAt places number⟩ : Cursor Nat Nat) =
            .ok (Cursor.entryAt entries number) := by
  have hcmp : Consistent (compare : Nat → Nat → Ordering) := Consistent.of_transCmp
  obtain ⟨t, hreach, hheight⟩ : ∃ t : Tree Nat Nat, t.Reachable compare ∧ t.height = .ok 2 :=
    ⟨_, ⟨.order 3, _, [.insert 2 20, .insert 1 10, .insert 3 30], _, _, rfl, rfl⟩, rfl⟩
  obtain ⟨entries, places, hentries, hplaces, htravel⟩ := cursor_travel hcmp hreach
  exact ⟨hcmp, t, hreach, hheight, entries, places, hentries, hplaces, htravel _⟩

end Multiway
