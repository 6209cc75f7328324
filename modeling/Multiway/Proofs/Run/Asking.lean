import Multiway.Proofs.Run.Faultless

/-!
What a search asks.

The test of a search is an action on a state, so whoever holds the state can tell how often the test
was asked, about which entries and in which order. `ask` is the record of such calls: the test runs on
the entries of a list one after the other, and its answers are collected. A search has asked about a
list of entries when it leaves the state and has met the answers that this record has.

A search forward asks about the entries behind the cursor, a search backward about those in front of
it, the nearest first, and neither asks about the entry under it. Every answer but the last one is no.
-/

namespace Multiway

variable {K V σ : Type} {cmp : K → K → Ordering}

/-- Asks about entries in their order, about each of them once, and collects the answers. -/
def ask (test : K → V → StateM σ Bool) (entries : List (K × V)) : StateM σ (List Bool) :=
  entries.mapM fun entry => test entry.1 entry.2

section ask

variable {test : K → V → StateM σ Bool} {key : K} {value : V} {entries : List (K × V)}

/-- Asking goes on with the state that the first answer has left. -/
theorem ask_cons {state asked told : σ} {answer : Bool} {answers : List Bool}
    (hfirst : (test key value).run state = (answer, asked))
    (hrest : (ask test entries).run asked = (answers, told)) :
    (ask test ((key, value) :: entries)).run state = (answer :: answers, told) := by
  rw [ask, List.mapM_cons, StateT.run_bind, hfirst]
  show (ask test entries >>= fun answers => pure (answer :: answers)).run asked = _
  rw [StateT.run_bind, hrest]
  rfl

/-- A scan has asked about the entries up to the first one that passes, or about all of them. -/
theorem scan_cases (test : K → V → StateM σ Bool) (entries : List (K × V)) (state : σ) :
    (∃ passed entry rest told, entries = passed ++ entry :: rest ∧
        scan test entries state = (some passed.length, told) ∧
        (ask test (passed ++ [entry])).run state =
          (List.replicate passed.length false ++ [true], told)) ∨
      ∃ told, scan test entries state = (none, told) ∧
        (ask test entries).run state = (List.replicate entries.length false, told) := by
  induction entries generalizing state with
  | nil => exact .inr ⟨state, rfl, rfl⟩
  | cons entry entries ih =>
      obtain ⟨key, value⟩ := entry
      cases hfirst : (test key value).run state with
      | mk passes asked =>
          cases passes with
          | true =>
              refine .inl ⟨[], (key, value), entries, asked, rfl, ?_, ask_cons hfirst rfl⟩
              simp only [scan, hfirst, List.length_nil]
          | false =>
              have hscan : scan test ((key, value) :: entries) state =
                  ((scan test entries asked).1.map Nat.succ, (scan test entries asked).2) := by
                simp only [scan, hfirst]
              rw [hscan]
              rcases ih asked with ⟨passed, entry, rest, told, rfl, hrest, hasked⟩ |
                ⟨told, hrest, hasked⟩
              · refine .inl ⟨(key, value) :: passed, entry, rest, told, rfl, ?_,
                  ask_cons hfirst hasked⟩
                rw [hrest]
                rfl
              · refine .inr ⟨told, ?_, ask_cons hfirst hasked⟩
                rw [hrest]
                rfl

end ask

namespace Cursor

/-- What comes of a search over the entries `ahead`, at which the cursor `stops`, and behind which
it is `final`. -/
inductive Sought (test : K → V → StateM σ Bool) (state : σ) (ahead : List (K × V))
    (stops : Nat → Cursor K V) (final : Cursor K V) : (Bool × Cursor K V) × σ → Prop
  /-- An entry passes, and the cursor stands on it. Nothing was asked about the entries behind it. -/
  | found {passed rest : List (K × V)} {entry : K × V} {told : σ}
      (hahead : ahead = passed ++ entry :: rest)
      (hasked : (ask test (passed ++ [entry])).run state =
        (List.replicate passed.length false ++ [true], told))
      (hentry : entry? (stops (passed.length + 1)) = .ok (some entry)) :
      Sought test state ahead stops final ((true, stops (passed.length + 1)), told)
  /-- No entry passes, and all were asked about. -/
  | missed {told : σ}
      (hasked : (ask test ahead).run state = (List.replicate ahead.length false, told)) :
      Sought test state ahead stops final ((false, final), told)

/-- What a scan comes to, as long as every stop is at the entry that is next. -/
theorem sought_scan {ahead : List (K × V)} {stops : Nat → Cursor K V} (final : Cursor K V)
    (test : K → V → StateM σ Bool) (state : σ)
    (hstops : ∀ i entry, ahead[i]? = some entry → entry? (stops (i + 1)) = .ok (some entry)) :
    Sought test state ahead stops final (arrive stops final (scan test ahead state)) := by
  rcases scan_cases test ahead state with ⟨passed, entry, rest, told, rfl, hscan, hasked⟩ |
    ⟨told, hscan, hasked⟩
  · rw [hscan]
    refine .found rfl hasked (hstops passed.length entry ?_)
    rw [List.getElem?_append_right (Nat.le_refl _), Nat.sub_self]
    rfl
  · rw [hscan]
    exact .missed hasked

/-- The entries in front of a number, the one that has it, and those behind it. -/
theorem entryAt_splits {entries : List (K × V)} {number : Nat} (h : number ≤ entries.length + 1) :
    entries = entries.take (number - 1) ++ (entryAt entries number).toList ++
      entries.drop number := by
  cases number with
  | zero => rfl
  | succ number =>
      rw [entryAt, Nat.add_sub_cancel]
      cases hentry : entries[number]? with
      | none =>
          have hle := List.getElem?_eq_none_iff.mp hentry
          rw [List.take_of_length_le hle, List.drop_of_length_le (Nat.le_succ_of_le hle)]
          simp
      | some entry =>
          obtain ⟨hlt, rfl⟩ := List.getElem?_eq_some_iff.mp hentry
          rw [Option.toList_some, ← List.take_succ_eq_append_getElem hlt, List.take_append_drop]

end Cursor

/-- Wherever moves and searches have led a cursor over a tree that can be reached, a search from there
comes to an end. Forward it goes over the entries behind the cursor, backward over those in front of
it. In front of the first entry there are none, and behind the last one neither. -/
theorem search_asks (hcmp : Consistent cmp) {t : Tree K V} (hreach : t.Reachable cmp) :
    ∃ entries places, t.inOrder = .ok entries ∧ t.Places entries places ∧
      (∀ c, Cursor.Reached t c →
        ∃ number ≤ entries.length + 1, c = ⟨t, Cursor.positionAt places number⟩) ∧
      ∀ number ≤ entries.length + 1, ∃ front behind,
        entries = front ++ (Cursor.entryAt entries number).toList ++ behind ∧
        front.length = number - 1 ∧
        ∀ {σ : Type} (test : K → V → StateM σ Bool) (state : σ),
          (∃ outcome,
            Cursor.findNext ⟨t, Cursor.positionAt places number⟩ test state = .ok outcome ∧
            Cursor.Sought test state behind (fun i => ⟨t, Cursor.positionAt places (number + i)⟩)
              ⟨t, .beyond .afterLast⟩ outcome) ∧
          ∃ outcome,
            Cursor.findPrev ⟨t, Cursor.positionAt places number⟩ test state = .ok outcome ∧
            Cursor.Sought test state front.reverse
              (fun i => ⟨t, Cursor.positionAt places (number - i)⟩)
              ⟨t, .beyond .beforeFirst⟩ outcome := by
  have := hcmp.transCmp
  obtain ⟨l?, hsound, rfl⟩ := hreach.sound
  refine ⟨_, _, hsound.inOrder_eq, hsound.places,
    fun c hreached => hreached.exists_number hsound rfl, fun number hnumber => ?_⟩
  generalize hentries : Shape.contents (l?.map Layout.shape) = entries at hnumber ⊢
  have hplaces := hsound.places
  rw [hentries] at hplaces
  refine ⟨entries.take (number - 1), entries.drop number, Cursor.entryAt_splits hnumber,
    List.length_take_of_le (by omega), fun test state => ⟨?_, ?_⟩⟩
  · have hfind := hsound.findNext_eq hentries hnumber test state
    rw [Tree.positionAt_end] at hfind
    refine ⟨_, hfind, Cursor.sought_scan _ test state fun i entry hentry => ?_⟩
    rw [List.getElem?_drop] at hentry
    rw [Cursor.entry_positionAt hplaces]
    exact congrArg Except.ok hentry
  · refine ⟨_, hsound.findPrev_eq hentries hnumber test state,
      Cursor.sought_scan _ test state fun i entry hentry => ?_⟩
    rw [Cursor.entry_positionAt hplaces, Cursor.entryAt_of_reverse hnumber hentry]

/-- A test of keys that notes which ones it was asked about. -/
def noting (passes : K → Bool) (key : K) (_ : V) : StateM (List K) Bool := do
  modify (· ++ [key])
  return passes key

/-- What is noted are the keys of the entries asked about, in their order. -/
theorem run_ask_noting (passes : K → Bool) (entries : List (K × V)) (noted : List K) :
    (ask (noting passes) entries).run noted =
      (entries.map fun entry => passes entry.1, noted ++ entries.map Prod.fst) := by
  induction entries generalizing noted with
  | nil => exact Prod.ext rfl (List.append_nil noted).symm
  | cons entry entries ih =>
      have hfirst : (noting passes entry.1 entry.2).run noted = (passes entry.1, noted ++ [entry.1]) :=
        rfl
      rw [ask_cons hfirst (ih _), List.append_assoc]
      rfl

/-- A search forward from key 1 over two levels asks about 2 and stops at 3. A search backward from
there asks about 2 and 1, and finds nothing. -/
theorem search_asks_noted :
    Consistent (compare : Nat → Nat → Ordering) ∧ ∃ t : Tree Nat Nat, t.Reachable compare ∧
      t.height = .ok 2 ∧ t.inOrder = .ok [(1, 10), (2, 20), (3, 30), (4, 40)] ∧
      ∃ places, t.Places [(1, 10), (2, 20), (3, 30), (4, 40)] places ∧
        Cursor.findNext ⟨t, Cursor.positionAt places 1⟩ (noting (· % 3 = 0)) [] =
          .ok ((true, ⟨t, Cursor.positionAt places 3⟩), [2, 3]) ∧
        Cursor.findPrev ⟨t, Cursor.positionAt places 3⟩ (noting (· % 3 = 0)) [] =
          .ok ((false, ⟨t, .beyond .beforeFirst⟩), [2, 1]) := by
  have hcmp : Consistent (compare : Nat → Nat → Ordering) := Consistent.of_transCmp
  obtain ⟨t, hreach, hheight, hlist⟩ : ∃ t : Tree Nat Nat, t.Reachable compare ∧
      t.height = .ok 2 ∧ t.inOrder = .ok [(1, 10), (2, 20), (3, 30), (4, 40)] :=
    Tree.exists_reachable (.order 3) [.insert 2 20, .insert 1 10, .insert 4 40, .insert 3 30]
      (by decide +kernel)
  obtain ⟨entries, places, hentries, hplaces, -, hsearch⟩ := search_asks hcmp hreach
  obtain rfl := Except.ok.inj (hlist.symm.trans hentries)
  refine ⟨hcmp, t, hreach, hheight, hlist, places, hplaces, ?_, ?_⟩
  · obtain ⟨front, behind, hsplit, hfront, hask⟩ := hsearch 1 (by decide)
    obtain ⟨⟨outcome, hfind, hsought⟩, -⟩ := hask (noting (· % 3 = 0)) []
    obtain rfl := List.eq_nil_of_length_eq_zero hfront
    obtain rfl : [(2, 20), (3, 30), (4, 40)] = behind := (List.cons.inj hsplit).2
    rw [hfind]
    cases hsought with
    | missed hasked =>
        rw [run_ask_noting] at hasked
        exact absurd (Prod.mk.inj hasked).1 (by decide)
    | @found passed rest entry told hahead hasked _ =>
        rw [run_ask_noting] at hasked
        obtain ⟨hanswers, rfl⟩ := Prod.mk.inj hasked
        rcases passed with _ | ⟨first, _ | ⟨second, passed⟩⟩
        · obtain ⟨rfl, -⟩ := List.cons.inj hahead
          exact absurd hanswers (by decide)
        · obtain ⟨rfl, hbehind⟩ := List.cons.inj hahead
          obtain ⟨rfl, -⟩ := List.cons.inj hbehind
          rfl
        · obtain ⟨rfl, hbehind⟩ := List.cons.inj hahead
          obtain ⟨rfl, -⟩ := List.cons.inj hbehind
          exact absurd (List.cons.inj (List.cons.inj hanswers).2).1 (by decide)
  · obtain ⟨front, behind, hsplit, hfront, hask⟩ := hsearch 3 (by decide)
    obtain ⟨-, outcome, hfind, hsought⟩ := hask (noting (· % 3 = 0)) []
    obtain rfl : [(1, 10), (2, 20)] = front := by
      rw [List.append_assoc] at hsplit
      have hcut : [(1, 10), (2, 20)] ++ [(3, 30), (4, 40)] = front ++ _ := hsplit
      exact (List.append_inj hcut hfront.symm).1
    rw [hfind]
    cases hsought with
    | missed hasked =>
        rw [run_ask_noting] at hasked
        obtain ⟨-, rfl⟩ := Prod.mk.inj hasked
        rfl
    | @found passed rest entry told hahead hasked _ =>
        have hnone : ∀ entry ∈ [(1, 10), (2, 20)].reverse, decide (entry.1 % 3 = 0) = false := by
          decide
        have hmem : entry ∈ [(1, 10), (2, 20)].reverse := hahead ▸ by simp
        rw [run_ask_noting, List.map_append] at hasked
        have hlast := (List.append_inj' (Prod.mk.inj hasked).1 rfl).2
        rw [List.map_singleton, hnone entry hmem] at hlast
        contradiction

end Multiway
