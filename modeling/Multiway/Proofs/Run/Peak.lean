import Mathlib.Order.Bounds.Lattice
import Multiway.Proofs.Run.Ledger
import Multiway.Proofs.Run.Loading

/-!
How many slots an arena has.

An arena that is cleared keeps as many of its slots as the free list may hold. From then on it has
as many slots as it kept or as there were nodes at any one time, whichever is more: a slot is added
only when no other is left, and a slot that was given up is remembered even if the free list has no
room for it. So a tree that loses as many nodes as it gains does not grow, however long this goes on.
The nodes are counted by the ways that lead to them from the root, and not by what the arena makes of its
two lists, so a slot that was forgotten would show.

Runs are looked at step by step here. Inserting many entries is a step for each of them, and loading
a text is clearing and then inserting what was read. A copy and a blank tree bring an arena of their
own, so for them nothing was kept.
-/

namespace Multiway

variable {K V : Type} {cmp : K → K → Ordering}

namespace Operation

/-- An operation as steps. A text that cannot be read is no step at all. -/
def steps : Operation K V → List (Operation K V)
  | .insertMany entries => inserts entries
  | @replaceFromJson _ _ _ text =>
    match Json.readMembers text with
    | .error _ => []
    | .ok entries => .clear :: inserts entries
  | operation => [operation]

/-- Whether a step gives up all nodes at once or goes on in another arena. -/
def renews : Operation K V → Bool
  | .clear | .copy | .blank => true
  | _ => false

/-- Steps have no steps but themselves. -/
theorem steps_of_mem {operation step : Operation K V} (h : step ∈ operation.steps) :
    step.steps = [step] := by
  have hinserts {entries : List (K × V)} (hmem : step ∈ inserts entries) : step.steps = [step] := by
    obtain ⟨entry, -, rfl⟩ := List.mem_map.mp hmem
    rfl
  cases operation with
  | insertMany entries => exact hinserts h
  | replaceFromJson text =>
      rw [steps] at h
      split at h
      · contradiction
      · rcases List.mem_cons.mp h with rfl | h
        · rfl
        · exact hinserts h
  | _ =>
      obtain rfl := List.mem_singleton.mp h
      rfl

end Operation

namespace Tree

/-- Operations done one after the other leave this tree. -/
def LeavesBehind (t : Tree K V) (operations : List (Operation K V)) (u : Tree K V) : Prop :=
  ∃ answers events, t.run operations = .ok ⟨answers, u, events⟩

/-- The slots with which the arena goes into a step, before a node of the step needs any. -/
def kept (t : Tree K V) : Operation K V → Nat
  | .clear => min t.arena.slots.size t.arena.capacity
  | .copy | .blank => 0
  | _ => t.arena.slots.size

/-- The operations end where the arena was renewed, which then kept so many slots. A new tree has kept
none. -/
inductive RenewedWith (start : Tree K V) : List (Operation K V) → Nat → Prop
  | start : RenewedWith start [] 0
  | renewed {earlier : List (Operation K V)} {step : Operation K V} {t : Tree K V}
      (hleaves : start.LeavesBehind earlier t) (hrenews : step.renews = true) :
      RenewedWith start (earlier ++ [step]) (t.kept step)

/-- There are `base` slots, or as many as are reached from the root if that is more. -/
def SlotsFrom (t : Tree K V) (base : Nat) : Prop :=
  ∃ nodes, t.Occupies nodes ∧ t.arena.slots.size = max base nodes

/-- The numbers of nodes that are reached after the steps `before`, and after each one of the steps
`since`. -/
def nodesAlong (start : Tree K V) (before since : List (Operation K V)) : Set Nat :=
  {nodes | ∃ now t, now <+: since ∧ start.LeavesBehind (before ++ now) t ∧ t.Occupies nodes}

/-- When the arena was renewed last, it has kept so many slots, and `peak` is the largest number of
nodes that there were from then on. -/
def Peaked (start : Tree K V) (done : List (Operation K V)) (kept peak : Nat) : Prop :=
  ∃ before since, done = before ++ since ∧ (∀ step ∈ since, step.renews = false) ∧
    start.RenewedWith before kept ∧ IsGreatest (start.nodesAlong before since) peak

/-- What is known of the slots of a tree that some steps have left. -/
structure Measured (start : Tree K V) (done : List (Operation K V)) (t : Tree K V)
    (kept peak : Nat) : Prop where
  /-- Every slot that is not reached waits for reuse. -/
  accounted : t.Accounted
  peaked : start.Peaked done kept peak
  slots : t.arena.slots.size = max kept peak
  /-- While there are no more nodes than there have been, the arena does not grow. -/
  steady : ∀ more u, t.LeavesBehind more u →
    (∀ step ∈ more.flatMap Operation.steps, step.renews = false) →
    (∀ now v nodes, now <+: more.flatMap Operation.steps → t.LeavesBehind now v →
      v.Occupies nodes → nodes ≤ peak) →
    u.arena.slots.size = t.arena.slots.size
  /-- The trees that an insertion goes through have no slots but these and the ones they need. -/
  within : ∀ key value u id, t.Round key value u id →
    u.Accounted ∧ u.SlotsFrom t.arena.slots.size

variable {start t u v : Tree K V}

/-! ### Runs in steps -/

theorem LeavesBehind.refl (t : Tree K V) : t.LeavesBehind [] t := ⟨[], [], rfl⟩

theorem LeavesBehind.unique {operations : List (Operation K V)} (h : t.LeavesBehind operations u)
    (h' : t.LeavesBehind operations v) : u = v := by
  obtain ⟨_, _, hrun⟩ := h
  obtain ⟨_, _, hrun'⟩ := h'
  exact congrArg Change.state (Except.ok.inj (hrun.symm.trans hrun'))

theorem leavesBehind_cons {operation : Operation K V} {operations : List (Operation K V)} :
    t.LeavesBehind (operation :: operations) u ↔
      ∃ change, t.perform operation = .ok change ∧ change.state.LeavesBehind operations u := by
  constructor
  · rintro ⟨answers, events, hrun⟩
    obtain ⟨change, hstep, hrun⟩ := bind_eq_ok.mp hrun
    obtain ⟨rest, hrest, hrun⟩ := bind_eq_ok.mp hrun
    obtain rfl := congrArg Change.state (Except.ok.inj hrun)
    exact ⟨change, hstep, _, _, hrest⟩
  · rintro ⟨change, hstep, answers, events, hrest⟩
    refine ⟨change.answer :: answers, change.events ++ events, ?_⟩
    rw [run, hstep, ok_bind, hrest]
    rfl

theorem LeavesBehind.of_perform {operation : Operation K V}
    {change : Change (Tree K V) (Answer K V)} (h : t.perform operation = .ok change) :
    t.LeavesBehind [operation] change.state :=
  leavesBehind_cons.mpr ⟨change, h, .refl _⟩

theorem leavesBehind_append {operations more : List (Operation K V)} :
    t.LeavesBehind (operations ++ more) v ↔
      ∃ u, t.LeavesBehind operations u ∧ u.LeavesBehind more v := by
  constructor
  · rintro ⟨answers, events, hrun⟩
    rw [run_append] at hrun
    obtain ⟨first, hfirst, hrun⟩ := bind_eq_ok.mp hrun
    obtain ⟨second, hsecond, hrun⟩ := bind_eq_ok.mp hrun
    obtain rfl := congrArg Change.state (Except.ok.inj hrun)
    exact ⟨first.state, ⟨_, _, hfirst⟩, ⟨_, _, hsecond⟩⟩
  · rintro ⟨u, ⟨answers, events, hrun⟩, ⟨answers', events', hrun'⟩⟩
    refine ⟨answers ++ answers', events ++ events', ?_⟩
    rw [run_append, hrun, ok_bind, hrun']
    rfl

/-- Filling is inserting, whatever was reported before. -/
theorem leavesBehind_inserts {entries : List (K × V)} {events : List Event}
    {change : Change (Tree K V) Unit}
    (h : (entries.foldlM (fun change (key, value) => do
        let step ← change.state.insert key value
        return { answer := (), state := step.state, events := change.events ++ step.events })
      ⟨(), t, events⟩ : Except Fault (Change (Tree K V) Unit)) = .ok change) :
    t.LeavesBehind (Operation.inserts entries) change.state := by
  induction entries generalizing t events with
  | nil =>
      obtain rfl := Except.ok.inj h
      exact .refl t
  | cons entry entries ih =>
      rw [List.foldlM_cons] at h
      obtain ⟨first, hfirst, hrest⟩ := bind_eq_ok.mp h
      obtain ⟨step, hstep, hfirst⟩ := bind_eq_ok.mp hfirst
      obtain rfl := Except.ok.inj hfirst
      have hinsert : t.perform (.insert entry.1 entry.2) = .ok (step.answerAs .value) := by
        rw [perform, hstep]
        rfl
      exact leavesBehind_cons.mpr ⟨_, hinsert, ih hrest⟩

/-- An operation does what its steps do. -/
theorem leavesBehind_steps {operation : Operation K V} {change : Change (Tree K V) (Answer K V)}
    (h : t.perform operation = .ok change) : t.LeavesBehind operation.steps change.state := by
  cases operation with
  | insertMany entries =>
      obtain ⟨filled, hfill, hchange⟩ := bind_eq_ok.mp h
      obtain rfl := Except.ok.inj hchange
      exact leavesBehind_inserts hfill
  | replaceFromJson text =>
      obtain ⟨loaded, hload, hchange⟩ := bind_eq_ok.mp h
      obtain rfl := Except.ok.inj hchange
      cases hread : (Json.readMembers text : Except Json.Failure (List (K × V))) with
      | error failure =>
          have hsteps : (Operation.replaceFromJson text : Operation K V).steps = [] := by
            simp only [Operation.steps, hread]
          rw [replaceFromJson, hread] at hload
          obtain rfl := Except.ok.inj hload
          exact hsteps ▸ .refl t
      | ok entries =>
          have hsteps : (Operation.replaceFromJson text : Operation K V).steps =
              .clear :: Operation.inserts entries := by
            simp only [Operation.steps, hread]
          rw [replaceFromJson, hread] at hload
          obtain ⟨filled, hfill, hload⟩ := bind_eq_ok.mp hload
          obtain rfl := Except.ok.inj hload
          rw [insertMany] at hfill
          exact hsteps ▸ leavesBehind_cons.mpr ⟨_, rfl, leavesBehind_inserts hfill⟩
  | _ => exact .of_perform h

/-- A run does what the steps of its operations do. -/
theorem LeavesBehind.steps {operations : List (Operation K V)} (h : t.LeavesBehind operations u) :
    t.LeavesBehind (operations.flatMap Operation.steps) u := by
  induction operations generalizing t with
  | nil => exact h
  | cons operation operations ih =>
      obtain ⟨change, hstep, hrest⟩ := leavesBehind_cons.mp h
      exact leavesBehind_append.mpr ⟨_, leavesBehind_steps hstep, ih hrest⟩

/-! ### Slots in one step -/

theorem kept_of_renews_eq_false {step : Operation K V} (h : step.renews = false) :
    t.kept step = t.arena.slots.size := by
  cases step <;> first | rfl | contradiction

/-- A question changes nothing. -/
theorem state_of_question {α : Type} {question : Except Fault α} {wrap : α → Answer K V}
    {change : Change (Tree K V) (Answer K V)}
    (h : (question >>= fun answer => pure { answer := wrap answer, state := t }) = .ok change) :
    change.state = t := by
  obtain ⟨answer, -, hchange⟩ := bind_eq_ok.mp h
  exact congrArg Change.state (Except.ok.inj hchange).symm

/-- A change with its answer put among the others leaves the same tree. -/
theorem state_of_answerAs {α : Type} {first : Except Fault (Change (Tree K V) α)}
    {wrap : α → Answer K V} {change : Change (Tree K V) (Answer K V)}
    (h : (first >>= fun made => pure (made.answerAs wrap)) = .ok change) :
    ∃ made, first = .ok made ∧ change.state = made.state := by
  obtain ⟨made, hfirst, hchange⟩ := bind_eq_ok.mp h
  exact ⟨made, hfirst, congrArg Change.state (Except.ok.inj hchange).symm⟩

variable {l? : Option (Layout (K × V))} {base : Nat}

/-- Slots that were there before are enough for the nodes that there are now. -/
theorem Sound.slotsFrom (h : t.Sound l?) (hsize : t.arena.slots.size = base) :
    t.SlotsFrom base := by
  refine ⟨_, h.holds.occupies, ?_⟩
  have hle : (cells l?).card ≤ t.arena.slots.size := h.holds.card_le
  omega

/-- A removal leaves all slots there. -/
theorem Removes.slotsFrom {α : Type} {answer : α} {pure : Option (Shape (K × V)) × List Event}
    {run : Except Fault (Change (Tree K V) α)} {change : Change (Tree K V) α}
    (h : t.Removes answer pure run) (hrun : run = .ok change) :
    change.state.SlotsFrom t.arena.slots.size := by
  obtain ⟨u, l?', ids, hrun', hu, -, -, hstock, -⟩ := h
  obtain rfl := Except.ok.inj (hrun'.symm.trans hrun)
  exact hu.slotsFrom (congrArg Arena.Stock.size hstock)

/-- After a step there are as many slots as the step went in with or as there are nodes, whichever is
more. -/
theorem Sound.step_slots [Std.TransCmp t.cmp] (h : t.Sound l?) {step : Operation K V}
    (hstep : step.steps = [step]) {change : Change (Tree K V) (Answer K V)}
    (hperform : t.perform step = .ok change) : change.state.SlotsFrom (t.kept step) := by
  cases step with
  | insert key value =>
      obtain ⟨made, hmade, hstate⟩ := state_of_answerAs hperform
      obtain ⟨u, l, hinsert, hu, -, -, -, -, hsize⟩ := h.insert key value
      obtain rfl := Except.ok.inj (hinsert.symm.trans hmade)
      exact hstate ▸ ⟨_, hu.holds.occupies, hsize⟩
  | insertMany entries =>
      have hmem : .insertMany entries ∈ (Operation.insertMany entries).steps := by
        rw [hstep]
        exact List.mem_singleton_self _
      obtain ⟨entry, -, hne⟩ := List.mem_map.mp hmem
      contradiction
  | modify key update =>
      obtain ⟨made, hmade, hstate⟩ := state_of_answerAs hperform
      obtain ⟨u, l?', hmodify, hu, -, -, -, hstock⟩ := h.modify key update
      obtain rfl := Except.ok.inj (hmodify.symm.trans hmade)
      exact hstate ▸ hu.slotsFrom (congrArg Arena.Stock.size hstock)
  | erase key =>
      obtain ⟨made, hmade, hstate⟩ := state_of_answerAs hperform
      exact hstate ▸ (h.erase key).slotsFrom hmade
  | extractMin =>
      obtain ⟨made, hmade, hstate⟩ := state_of_answerAs hperform
      exact hstate ▸ h.extractMin.slotsFrom hmade
  | extractMax =>
      obtain ⟨made, hmade, hstate⟩ := state_of_answerAs hperform
      exact hstate ▸ h.extractMax.slotsFrom hmade
  | clear =>
      obtain rfl := Except.ok.inj hperform
      exact t.sound_clear.slotsFrom Array.size_replicate
  | replaceFromJson text =>
      rw [Operation.steps] at hstep
      split at hstep
      · contradiction
      · exact absurd (List.cons.inj hstep).1 nofun
  | copy =>
      obtain ⟨u, hmade, hchange⟩ := bind_eq_ok.mp hperform
      obtain rfl := Except.ok.inj hchange
      obtain ⟨u, l?', hcopy, hu, -, -, -, hstock⟩ := h.copy
      obtain rfl := Except.ok.inj (hcopy.symm.trans hmade)
      have hfree : u.arena.free = [] := congrArg Arena.Stock.free hstock
      have hvacant : u.arena.vacant = [] := congrArg Arena.Stock.vacant hstock
      have hcard := hu.holds.stores.card_add
      rw [hfree, hvacant] at hcard
      exact ⟨_, hu.holds.occupies, hcard.symm.trans (Nat.zero_max _).symm⟩
  | blank =>
      obtain rfl := Except.ok.inj hperform
      exact Sound.slotsFrom (sound_empty ..) rfl
  | size =>
      obtain rfl := Except.ok.inj hperform
      exact h.slotsFrom rfl
  | isEmpty =>
      obtain rfl := Except.ok.inj hperform
      exact h.slotsFrom rfl
  | _ => exact state_of_question hperform ▸ h.slotsFrom rfl

/-- In every round of an insertion there are as many slots as before it or as there are nodes. -/
theorem Sound.round_slots [Std.TransCmp t.cmp] (h : t.Sound l?) {key : K} {value : V} {id : NodeId}
    (hround : t.Round key value u id) : u.Accounted ∧ u.SlotsFrom t.arena.slots.size := by
  obtain ⟨path, l, height, hfilling, -, -, hsize, -⟩ := h.round_filling hround
  exact ⟨hfilling.holds.accounted, _, hfilling.holds.occupies, hsize⟩

/-! ### Slots in runs -/

theorem Sound.exists_leavesBehind [Std.TransCmp t.cmp] (h : t.Sound l?)
    (operations : List (Operation K V)) :
    ∃ u l?', t.LeavesBehind operations u ∧ u.Sound l?' ∧ Alike t u := by
  obtain ⟨u, l?', events, hrun, hu, -, -, halike⟩ := h.run operations
  exact ⟨u, l?', ⟨_, events, hrun⟩, hu, halike⟩

/-- A last step starts from a tree that the others have left. -/
theorem Sound.exists_last [Std.TransCmp t.cmp] (h : t.Sound l?) {init : List (Operation K V)}
    {step : Operation K V} (hstep : step.steps = [step])
    (hleaves : t.LeavesBehind (init ++ [step]) v) :
    ∃ u, t.LeavesBehind init u ∧ v.SlotsFrom (u.kept step) := by
  obtain ⟨u, l?', hfirst, hu, halike⟩ := h.exists_leavesBehind init
  have := halike.transCmp
  obtain ⟨u', hfirst', hlast⟩ := leavesBehind_append.mp hleaves
  obtain rfl := hfirst.unique hfirst'
  obtain ⟨change, hperform, hnil⟩ := leavesBehind_cons.mp hlast
  obtain rfl := (LeavesBehind.refl _).unique hnil
  exact ⟨u, hfirst, hu.step_slots hstep hperform⟩

/-- Without more nodes than there are slots the arena does not grow. -/
theorem Sound.steady [Std.TransCmp t.cmp] (h : t.Sound l?) {more : List (Operation K V)}
    (hsteps : ∀ step ∈ more, step.steps = [step]) (hrenews : ∀ step ∈ more, step.renews = false)
    (hbound : ∀ now v nodes, now <+: more → t.LeavesBehind now v → v.Occupies nodes →
      nodes ≤ t.arena.slots.size)
    (hleaves : t.LeavesBehind more u) : u.arena.slots.size = t.arena.slots.size := by
  induction more using List.reverseRecOn generalizing u with
  | nil => rw [hleaves.unique (.refl t)]
  | append_singleton init step ih =>
      have hlast : step ∈ init ++ [step] := List.mem_concat_self
      obtain ⟨v, hinit, nodes, hnodes, hsize⟩ := h.exists_last (hsteps step hlast) hleaves
      have hsame := ih (fun step hmem => hsteps step (List.mem_append_left _ hmem))
        (fun step hmem => hrenews step (List.mem_append_left _ hmem))
        (fun now v nodes hnow => hbound now v nodes (hnow.trans (List.prefix_append ..))) hinit
      have hle := hbound _ _ _ List.prefix_rfl hleaves hnodes
      rw [kept_of_renews_eq_false (hrenews step hlast), hsame] at hsize
      omega

theorem nodesAlong_nil {before : List (Operation K V)} {nodes : Nat}
    (h : start.LeavesBehind before t) (hnodes : t.Occupies nodes) :
    start.nodesAlong before [] = {nodes} := by
  ext other
  constructor
  · rintro ⟨now, u, hnow, hleaves, hother⟩
    obtain rfl := List.prefix_nil.mp hnow
    rw [List.append_nil] at hleaves
    obtain rfl := h.unique hleaves
    exact hother.unique hnodes
  · rintro rfl
    exact ⟨[], t, List.nil_prefix, by rwa [List.append_nil], hnodes⟩

theorem nodesAlong_concat {before since : List (Operation K V)} {step : Operation K V} {nodes : Nat}
    (h : start.LeavesBehind (before ++ (since ++ [step])) t) (hnodes : t.Occupies nodes) :
    start.nodesAlong before (since ++ [step]) = start.nodesAlong before since ∪ {nodes} := by
  ext other
  constructor
  · rintro ⟨now, u, hnow, hleaves, hother⟩
    rcases List.prefix_concat_iff.mp hnow with rfl | hnow
    · obtain rfl := h.unique hleaves
      exact .inr (hother.unique hnodes)
    · exact .inl ⟨now, u, hnow, hleaves, hother⟩
  · rintro (⟨now, u, hnow, hleaves, hother⟩ | rfl)
    · exact ⟨now, u, hnow.trans (List.prefix_append ..), hleaves, hother⟩
    · exact ⟨_, t, List.prefix_rfl, h, hnodes⟩

/-- What one more step does to the measures. -/
theorem Peaked.step {done : List (Operation K V)} {kept peak : Nat} {step : Operation K V}
    (h : start.Peaked done kept peak) (hsize : t.arena.slots.size = max kept peak)
    (hdone : start.LeavesBehind done t) (hleaves : start.LeavesBehind (done ++ [step]) u)
    (hslots : u.SlotsFrom (t.kept step)) :
    ∃ kept' peak', start.Peaked (done ++ [step]) kept' peak' ∧
      u.arena.slots.size = max kept' peak' := by
  obtain ⟨nodes, hnodes, hslots⟩ := hslots
  -- After a renewal only the number of nodes that there are now counts; otherwise it joins the others.
  cases hrenews : step.renews with
  | true =>
      refine ⟨t.kept step, nodes, ⟨done ++ [step], [], (List.append_nil _).symm, nofun,
        .renewed hdone hrenews, ?_⟩, hslots⟩
      rw [nodesAlong_nil hleaves hnodes]
      exact isGreatest_singleton
  | false =>
      obtain ⟨before, since, rfl, hsince, hbefore, hgreatest⟩ := h
      rw [List.append_assoc] at hleaves
      refine ⟨kept, max peak nodes,
        ⟨before, since ++ [step], List.append_assoc .., ?_, hbefore, ?_⟩, ?_⟩
      · intro other hmem
        rcases List.mem_append.mp hmem with hmem | hmem
        · exact hsince other hmem
        · exact List.mem_singleton.mp hmem ▸ hrenews
      · rw [nodesAlong_concat hleaves hnodes]
        exact hgreatest.union isGreatest_singleton
      · rw [hslots, kept_of_renews_eq_false hrenews, hsize, max_assoc]

/-- A tree without slots is measured after whatever steps. -/
theorem Sound.exists_peaked [Std.TransCmp start.cmp] (h : start.Sound none)
    (hnone : start.arena.slots.size = 0) {done : List (Operation K V)}
    (hsteps : ∀ step ∈ done, step.steps = [step]) :
    ∃ u kept peak, start.LeavesBehind done u ∧ start.Peaked done kept peak ∧
      u.arena.slots.size = max kept peak := by
  -- The measures look back over all steps, so the induction adds steps at the end.
  induction done using List.reverseRecOn with
  | nil =>
      refine ⟨start, 0, 0, .refl start, ⟨[], [], rfl, nofun, .start, ?_⟩, hnone⟩
      rw [nodesAlong_nil (.refl start) h.holds.occupies]
      exact isGreatest_singleton
  | append_singleton done step ih =>
      obtain ⟨t, kept, peak, hdone, hpeaked, hsize⟩ :=
        ih fun step hmem => hsteps step (List.mem_append_left _ hmem)
      obtain ⟨u, -, hleaves, -⟩ := h.exists_leavesBehind (done ++ [step])
      obtain ⟨t', hdone', hslots⟩ := h.exists_last (hsteps step List.mem_concat_self) hleaves
      obtain rfl := hdone.unique hdone'
      obtain ⟨kept', peak', hpeaked', hsize'⟩ := hpeaked.step hsize hdone hleaves hslots
      exact ⟨u, kept', peak', hleaves, hpeaked', hsize'⟩

/-- What the measures promise for what is done next. -/
theorem Sound.measured [Std.TransCmp t.cmp] (h : t.Sound l?) {done : List (Operation K V)}
    {kept peak : Nat} (hpeaked : start.Peaked done kept peak)
    (hsize : t.arena.slots.size = max kept peak) : start.Measured done t kept peak := by
  constructor
  case accounted => exact h.holds.accounted
  case peaked => exact hpeaked
  case slots => exact hsize
  case steady =>
    intro more u hleaves hrenews hbound
    refine h.steady (fun step hmem => ?_) hrenews (fun now v nodes hnow hv hnodes => ?_) hleaves.steps
    · obtain ⟨operation, -, hstep⟩ := List.mem_flatMap.mp hmem
      exact Operation.steps_of_mem hstep
    · exact (hbound now v nodes hnow hv hnodes).trans (hsize ▸ Nat.le_max_right kept peak)
  case within => exact fun key value u id hround => h.round_slots hround

end Tree

/-- After every step of a run there are as many slots as the arena kept when it was renewed last, or
as there were nodes at one time since then, whichever is more. -/
theorem slots_eq_peak (hcmp : Consistent cmp) {chosen : Options}
    (hasked : Fanout.smallest ≤ chosen.order) (operations : List (Operation K V)) :
    ∃ start final : Tree K V, Tree.ofOptions chosen cmp = .ok start ∧
      start.order = max chosen.order 3 ∧ start.arena.capacity = chosen.freeCapacity ∧
      start.LeavesBehind operations final ∧
      start.LeavesBehind (operations.flatMap Operation.steps) final ∧
      ∀ done, done <+: operations.flatMap Operation.steps → ∃ t kept peak,
        start.LeavesBehind done t ∧ t.arena.capacity = chosen.freeCapacity ∧
        start.Measured done t kept peak := by
  let start : Tree K V :=
    .empty ⟨max chosen.order 3, Nat.le_max_right ..⟩ chosen.freeCapacity cmp
  have hstart : start.Sound none := Tree.sound_empty ..
  have : Std.TransCmp start.cmp := hcmp.transCmp
  obtain ⟨final, -, hfinal, -⟩ := hstart.exists_leavesBehind operations
  refine ⟨start, final, Tree.ofOptions_eq hasked cmp, rfl, rfl, hfinal, hfinal.steps, ?_⟩
  intro done hdone
  have hsteps : ∀ step ∈ done, step.steps = [step] := by
    intro step hmem
    obtain ⟨operation, -, hstep⟩ := List.mem_flatMap.mp (hdone.subset hmem)
    exact Operation.steps_of_mem hstep
  obtain ⟨t, kept, peak, hleaves, hpeaked, hsize⟩ := hstart.exists_peaked rfl hsteps
  obtain ⟨t', l?, hleaves', ht, halike⟩ := hstart.exists_leavesBehind done
  obtain rfl := hleaves.unique hleaves'
  have := halike.transCmp
  exact ⟨t, kept, peak, hleaves, halike.capacity, ht.measured hpeaked hsize⟩

/-- Where the free list has room for one slot, a tree of three nodes keeps one when it is cleared. Later
it has three nodes again and gives two of them up; the one that the free list has no room for is not
forgotten, so that there are three slots for one node. -/
theorem slots_eq_peak_cleared :
    Consistent (compare : Nat → Nat → Ordering) ∧ Fanout.smallest ≤ (Options.mk 2 1).order ∧
      ∃ start cleared final : Tree Nat Nat, Tree.ofOptions ⟨2, 1⟩ compare = .ok start ∧
        start.LeavesBehind [.insertMany [(1, 10), (2, 20), (3, 30)], .clear] cleared ∧
        cleared.arena.slots.size = 1 ∧
        start.LeavesBehind [.insertMany [(1, 10), (2, 20), (3, 30)], .clear,
          .insertMany [(4, 40), (5, 50), (6, 60)], .erase 4] final ∧
        final.Occupies 1 ∧ final.arena.slots.size = 3 ∧
        ∃ kept peak, start.Measured [.insert 1 10, .insert 2 20, .insert 3 30, .clear,
          .insert 4 40, .insert 5 50, .insert 6 60, .erase 4] final kept peak := by
  have hcmp : Consistent (compare : Nat → Nat → Ordering) := Consistent.of_transCmp
  have hasked : Fanout.smallest ≤ (Options.mk 2 1).order := by decide
  obtain ⟨start, final, hmake, -, -, hfinal, hsteps, hmeasured⟩ := slots_eq_peak (V := Nat) hcmp hasked
    [.insertMany [(1, 10), (2, 20), (3, 30)], .clear,
      .insertMany [(4, 40), (5, 50), (6, 60)], .erase 4]
  obtain ⟨t, kept, peak, hleaves, -, hmeasured⟩ := hmeasured _ List.prefix_rfl
  obtain rfl := hleaves.unique hsteps
  obtain ⟨cleared, hcleared, -⟩ := Tree.leavesBehind_append.mp
    (show start.LeavesBehind ([.insertMany [(1, 10), (2, 20), (3, 30)], .clear] ++ _) t from hfinal)
  have hshown : (start.run [.insertMany [(1, 10), (2, 20), (3, 30)], .clear]).toOption.map
      (fun change => change.state.arena.slots.size) = some 1 := by
    obtain rfl := Except.ok.inj hmake
    decide +kernel
  have hshown' : (start.run [.insertMany [(1, 10), (2, 20), (3, 30)], .clear,
      .insertMany [(4, 40), (5, 50), (6, 60)], .erase 4]).toOption.map
        (fun change => (change.state.arena.live.toOption, change.state.arena.slots.size)) =
      some (some 1, 3) := by
    obtain rfl := Except.ok.inj hmake
    decide +kernel
  obtain ⟨_, _, hrun⟩ := id hcleared
  obtain ⟨_, _, hrun'⟩ := id hfinal
  rw [hrun] at hshown
  rw [hrun'] at hshown'
  obtain ⟨hlive, hsize⟩ := Prod.mk.inj (Option.some.inj hshown')
  exact ⟨hcmp, hasked, start, cleared, t, hmake, hcleared, Option.some.inj hshown, hfinal,
    hmeasured.accounted.live_iff.mp (toOption_eq_some.mp hlive), hsize, kept, peak, hmeasured⟩

end Multiway
