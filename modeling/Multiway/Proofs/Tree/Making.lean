import Multiway.Proofs.Json.Members
import Multiway.Proofs.Tree.Insertion
import Multiway.Tree.Exchange

/-!
Making, emptying and filling trees.

A tree without entries holds nothing, whatever waits for reuse in its arena. Whatever fills a tree
stores entries one after the other, so what it says of a single entry goes on to lists of entries, to
texts that are decoded first and to texts that are stored while they are decoded.
-/

namespace Multiway

variable {K V : Type}

namespace Arena

/-- Every slot of a cleared arena is free. -/
theorem Stores.clear (a : Arena K V) : a.clear.Stores 0 := by
  refine ⟨?_, ?_, ?_, ?_⟩
  · intro cell hcell
    exact absurd hcell (Multiset.notMem_zero cell)
  · intro id hid
    have hlt : id < min a.slots.size a.capacity := by
      simpa [Arena.clear] using hid
    simp only [Arena.clear, Array.getElem?_replicate, if_pos hlt]
  · simp [Arena.clear, Multiset.range]
  · simp only [Arena.clear, List.length_reverse, List.length_range]
    exact Nat.min_le_right ..

theorem Stores.empty (capacity : Nat) : (Arena.empty capacity : Arena K V).Stores 0 :=
  Stores.clear (Arena.empty capacity)

end Arena

namespace Shape

/-- Stores entries one after the other. -/
def putAll (f : Fanout) (cmp : K → K → Ordering) :
    List (K × V) → Option (Shape (K × V)) → Option (Shape (K × V)) × List Event
  | [], s? => (s?, [])
  | (key, value) :: entries, s? =>
    let (s, events) := put f cmp key value s?
    let (s?, more) := putAll f cmp entries (some s)
    (s?, events ++ more)

/-- Storing entries never takes a level away, and every level beyond the first is told when it is
added. -/
theorem putAll_spec {f : Fanout} {cmp : K → K → Ordering} [Std.TransCmp cmp]
    {s? : Option (Shape (K × V))} {tall : Nat} (hs : Stands f tall s?)
    (h : Ascending cmp (contents s?)) (entries : List (K × V)) :
    ∃ tall', Stands f tall' (putAll f cmp entries s?).1 ∧ tall ≤ tall' ∧
      (putAll f cmp entries s?).2 =
        (List.range' (max tall 1 + 1) (tall' - max tall 1)).map .rootSplit := by
  induction entries generalizing s? tall with
  | nil => exact ⟨tall, hs, Nat.le_refl tall, by simp [putAll]⟩
  | cons entry entries ih =>
      obtain ⟨key, value⟩ := entry
      obtain ⟨hlist, middle, hmiddle, hevents⟩ := put_spec hs h key value
      have hascending : Ascending cmp (contents (some (put f cmp key value s?).1)) := by
        rw [contents_some, hlist]
        exact h.store key value
      obtain ⟨tall', hstands, hle, hmore⟩ := ih hmiddle hascending
      rw [putAll]
      refine ⟨tall', hstands, ?_⟩
      simp only [hmore]
      rcases hevents with ⟨rfl, hevents⟩ | ⟨hpos, rfl, hevents⟩
      · have hmax : max (max tall 1) 1 = max tall 1 := by omega
        rw [hevents, hmax, List.nil_append]
        exact ⟨by omega, rfl⟩
      · obtain ⟨gained, hgained⟩ : ∃ gained, tall' - tall = gained + 1 :=
          ⟨tall' - tall - 1, by omega⟩
        have hmax : max tall 1 = tall := by omega
        have hmax' : max (tall + 1) 1 = tall + 1 := by omega
        have hrest : tall' - (tall + 1) = gained := by omega
        rw [hevents, hmax, hmax', hgained, hrest, List.range'_succ]
        exact ⟨by omega, rfl⟩

end Shape

namespace Tree

variable {t : Tree K V}

theorem sound_empty (f : Fanout) (capacity : Nat) (cmp : K → K → Ordering) :
    (empty f capacity cmp : Tree K V).Sound none :=
  ⟨⟨Arena.Stores.empty capacity, rfl⟩, ⟨0, rfl⟩, List.Pairwise.nil, rfl⟩

theorem sound_clear (t : Tree K V) : t.clear.state.Sound none :=
  ⟨⟨Arena.Stores.clear t.arena, rfl⟩, ⟨0, rfl⟩, List.Pairwise.nil, rfl⟩

theorem alike_clear (t : Tree K V) : Alike t t.clear.state := ⟨rfl, rfl, rfl⟩

theorem alike_blank (t : Tree K V) : Alike t t.blank := ⟨rfl, rfl, rfl⟩

/-- An order that may be asked for is refused by no tree. -/
theorem ofOptions_eq {options : Options} (h : Fanout.smallest ≤ options.order)
    (cmp : K → K → Ordering) :
    ofOptions options cmp = (.ok (empty ⟨max options.order 3, Nat.le_max_right ..⟩
      options.freeCapacity cmp) : Except Error (Tree K V)) := by
  rw [ofOptions, Options.fanout, Fanout.ofOrder?, if_neg (Nat.not_lt_of_le h)]
  rfl

theorem ofOptions_of_lt {options : Options} (h : options.order < Fanout.smallest)
    (cmp : K → K → Ordering) :
    ofOptions options cmp =
      (.error (.invalidOrder options.order) : Except Error (Tree K V)) := by
  rw [ofOptions, Options.fanout, Fanout.ofOrder?, if_pos h]
  rfl

/-! ### Storing many entries -/

/-- Filling goes on from any change, whatever was reported before. -/
theorem Sound.insertMany_from {t : Tree K V} [Std.TransCmp t.cmp] {l? : Option (Layout (K × V))}
    (h : t.Sound l?) (entries : List (K × V)) (events : List Event) :
    ∃ u l?', (entries.foldlM (fun change (key, value) => do
          let step ← change.state.insert key value
          return { answer := (), state := step.state, events := change.events ++ step.events })
        ⟨(), t, events⟩ : Except Fault (Change (Tree K V) Unit)) =
          .ok ⟨(), u, events ++ (Shape.putAll t.fanout t.cmp entries (l?.map Layout.shape)).2⟩ ∧
      u.Sound l?' ∧
      l?'.map Layout.shape = (Shape.putAll t.fanout t.cmp entries (l?.map Layout.shape)).1 ∧
      Shape.contents (l?'.map Layout.shape) =
        Entries.storeAll t.cmp entries (Shape.contents (l?.map Layout.shape)) ∧
      Alike t u := by
  -- What was reported so far has to vary with the tree, since the fold carries it along.
  induction entries generalizing t l? events with
  | nil => exact ⟨t, l?, by rw [Shape.putAll, List.append_nil]; rfl, h, rfl, rfl, .refl t⟩
  | cons entry entries ih =>
      obtain ⟨key, value⟩ := entry
      obtain ⟨u, l, hinsert, hu, hshape, hlist, halike, -, -⟩ := h.insert key value
      have := halike.transCmp
      obtain ⟨v, l?', hfill, hv, hshape', hlist', halike'⟩ :=
        ih hu (events ++ (Shape.put t.fanout t.cmp key value (l?.map Layout.shape)).2)
      rw [halike.fanout, halike.cmp, Option.map_some, hshape] at hfill hshape'
      refine ⟨v, l?', ?_, hv, hshape', ?_, halike.trans halike'⟩
      · rw [List.append_assoc] at hfill
        rw [List.foldlM_cons]
        simp only [hinsert, ok_bind]
        exact hfill
      · rw [hlist', halike.cmp, Option.map_some, Shape.contents_some, hlist]
        rfl

theorem Sound.insertMany [Std.TransCmp t.cmp] {l? : Option (Layout (K × V))} (h : t.Sound l?)
    (entries : List (K × V)) :
    ∃ u l?', t.insertMany entries =
        .ok ⟨(), u, (Shape.putAll t.fanout t.cmp entries (l?.map Layout.shape)).2⟩ ∧
      u.Sound l?' ∧
      l?'.map Layout.shape = (Shape.putAll t.fanout t.cmp entries (l?.map Layout.shape)).1 ∧
      Shape.contents (l?'.map Layout.shape) =
        Entries.storeAll t.cmp entries (Shape.contents (l?.map Layout.shape)) ∧
      Alike t u := h.insertMany_from entries []

/-! ### Whole trees from entries -/

variable {cmp : K → K → Ordering}

theorem sound_standard : (standard cmp : Tree K V).Sound none := sound_empty ..

theorem ofList_eq (cmp : K → K → Ordering) [Std.TransCmp cmp] (entries : List (K × V)) :
    ∃ u l?', ofList cmp entries = .ok u ∧ u.Sound l?' ∧
      l?'.map Layout.shape = (Shape.putAll .standard cmp entries none).1 ∧
      Shape.contents (l?'.map Layout.shape) = Entries.storeAll cmp entries [] ∧
      Alike (standard cmp) u := by
  have : Std.TransCmp (standard cmp : Tree K V).cmp := ‹Std.TransCmp cmp›
  have hsound : (standard cmp : Tree K V).Sound none := sound_standard
  obtain ⟨u, l?', hfill, hrest⟩ := hsound.insertMany entries
  refine ⟨u, l?', ?_, hrest⟩
  rw [ofList, hfill]
  rfl

/-- Storing entries one after the other is filling, and the first fault ends both. -/
theorem foldl_insert_eq (entries : List (K × V)) (start : Except Fault (Change (Tree K V) Unit)) :
    entries.foldl (fun t entry => do return (← (← t).insert entry.1 entry.2).state)
        (start.map Change.state) =
      (start >>= fun change => entries.foldlM (fun change (key, value) => do
        let step ← change.state.insert key value
        return { answer := (), state := step.state, events := change.events ++ step.events })
          change).map Change.state := by
  induction entries generalizing start with
  | nil => cases start <;> rfl
  | cons entry entries ih =>
      have hstep : (do return (← (← start.map Change.state).insert entry.1 entry.2).state) =
          (start >>= fun change => do
            let step ← change.state.insert entry.1 entry.2
            return (⟨(), step.state, change.events ++ step.events⟩ :
              Change (Tree K V) Unit)).map Change.state := by
        cases start with
        | error fault => rfl
        | ok change =>
            cases hinsert : change.state.insert entry.1 entry.2 with
            | error fault => simp [Except.map, hinsert]; rfl
            | ok step => simp [Except.map, hinsert]
      rw [List.foldl_cons, hstep, ih]
      cases start <;> rfl

/-- Storing entries while they are read gives the tree that storing them afterwards gives. -/
theorem ofJson_eq [Json.ObjectReader K V] (text : String) :
    (ofJson cmp text : Except Fault (Except Error (Tree K V))) =
      match Json.readMembers text with
      | .error failure => .ok (.error (.undecodable failure))
      | .ok entries => .ok <$> ofList cmp entries := by
  rw [ofJson, Json.foldMembers_eq]
  cases hread : (Json.readMembers text : Except Json.Failure (List (K × V))) with
  | error failure => rfl
  | ok entries =>
      have hfold := foldl_insert_eq entries (.ok ⟨(), standard cmp, []⟩)
      show (entries.foldl _ (Except.map Change.state (.ok ⟨(), standard cmp, []⟩)) >>= fun t =>
        Except.ok (Except.ok t)) = _
      show _ = Except.ok <$> ofList cmp entries
      rw [hfold, ofList, insertMany, ok_bind]
      generalize (List.foldlM _ _ entries : Except Fault (Change (Tree K V) Unit)) = filled
      cases filled <;> rfl

/-- A text that cannot be decoded changes nothing; any other text replaces the contents. -/
theorem replaceFromJson_eq [Json.ObjectReader K V] [Std.TransCmp t.cmp]
    (text : String) :
    match (Json.readMembers text : Except Json.Failure (List (K × V))) with
    | .error failure =>
      t.replaceFromJson text = .ok ⟨.error (.undecodable failure), t, []⟩
    | .ok entries => ∃ u l?', t.replaceFromJson text = .ok ⟨.ok (), u, t.clear.events ++
          (Shape.putAll t.fanout t.cmp entries none).2 ++ [.loaded u.size]⟩ ∧
        u.Sound l?' ∧
        l?'.map Layout.shape = (Shape.putAll t.fanout t.cmp entries none).1 ∧
        Shape.contents (l?'.map Layout.shape) = Entries.storeAll t.cmp entries [] ∧
        Alike t u := by
  cases hread : (Json.readMembers text : Except Json.Failure (List (K × V))) with
  | error failure =>
      rw [Tree.replaceFromJson, hread]
      rfl
  | ok entries =>
      have : Std.TransCmp t.clear.state.cmp := ‹Std.TransCmp t.cmp›
      obtain ⟨u, l?', hfill, hu, hshape, hlist, halike⟩ := t.sound_clear.insertMany entries
      refine ⟨u, l?', ?_, hu, hshape, hlist, t.alike_clear.trans halike⟩
      rw [Tree.replaceFromJson, hread]
      simp only [hfill, ok_bind]
      rfl

end Tree

end Multiway
