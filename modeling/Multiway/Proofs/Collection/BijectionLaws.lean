import Multiway.Proofs.Collection.Bijection

/-!
Laws of bijections.

A bijection that was made in any way and went through any actions is a list of pairs in which no key
and no value comes twice, and every question to either tree is answered from this list. What an action
does is told by the pairs alone. Pairing a key with a value can displace two pairs, one on each side, so
the number of pairs may go down by one as well as up.

That two bijections are the same is asked of both pairs of trees. The second answer never differs from
the first one: where the pairs match in the order of the keys, they match in the order of the values.
-/

namespace Multiway

variable {K V : Type} {keyOrder : K → K → Ordering} {valueOrder : V → V → Ordering}

namespace Bijection

/-- What can be done to a bijection. -/
inductive Action (K V : Type) where
  | insert (key : K) (value : V)
  | insertIfFree (key : K) (value : V)
  | insertMany (pairs : List (K × V))
  | erase (key : K)
  | eraseValue (value : V)
  | clear
  | copy

/-- What an action leaves. -/
def perform [BEq K] (b : Bijection K V) : Action K V → Except Fault (Bijection K V)
  | .insert key value => Prod.snd <$> b.insert key value
  | .insertIfFree key value => Prod.snd <$> b.insertIfFree key value
  | .insertMany pairs => b.insertMany pairs
  | .erase key => Prod.snd <$> b.erase key
  | .eraseValue value => Prod.snd <$> b.eraseValue value
  | .clear => .ok b.clear
  | .copy => b.copy

/-- What is left after one action after the other. -/
def run [BEq K] (b : Bijection K V) (actions : List (Action K V)) : Except Fault (Bijection K V) :=
  actions.foldlM perform b

/-- How a bijection may begin. -/
inductive Origin (K V : Type) where
  | empty
  | order (asked : Nat)
  | list (pairs : List (K × V))

namespace Origin

/-- Makes the bijection, unless the order is refused. -/
def make (keyOrder : K → K → Ordering) (valueOrder : V → V → Ordering) :
    Origin K V → Except Fault (Except Error (Bijection K V))
  | .empty => .ok (.ok (Bijection.empty keyOrder valueOrder))
  | .order asked => .ok (ofOrder asked keyOrder valueOrder)
  | .list pairs => .ok <$> ofList keyOrder valueOrder pairs

/-- The order that is asked for. -/
def requested : Origin K V → Nat
  | .order asked => asked
  | .empty | .list _ => Fanout.usual

end Origin

/-- The bijection that a run leaves behind, if nothing is refused on the way. -/
def Origin.leaves? [BEq K] (keyOrder : K → K → Ordering) (valueOrder : V → V → Ordering)
    (origin : Origin K V) (actions : List (Action K V)) : Option (Bijection K V) := do
  let start ← (← (origin.make keyOrder valueOrder).toOption).toOption
  (start.run actions).toOption

/-- A bijection that some actions can leave behind. -/
def Reachable [BEq K] (keyOrder : K → K → Ordering) (valueOrder : V → V → Ordering)
    (b : Bijection K V) : Prop :=
  ∃ (origin : Origin K V) (start : Bijection K V) (actions : List (Action K V)),
    origin.make keyOrder valueOrder = .ok (.ok start) ∧ start.run actions = .ok b

/-- Everything that is kept and answered agrees with these pairs. -/
structure Agrees (keyOrder : K → K → Ordering) (valueOrder : V → V → Ordering)
    (b : Bijection K V) (pairs : List (K × V)) : Prop where
  iter : b.iter.toList = .ok pairs
  ascending : Ascending keyOrder pairs
  /-- In the order of the values the same pairs come, turned round. -/
  iterByValue : ∃ turned, b.iterByValue.toList = .ok turned ∧ Ascending valueOrder turned ∧
    turned.Perm (pairs.map Prod.swap) ∧
    ∀ key value, (key, value) ∈ pairs ↔ (value, key) ∈ turned
  /-- No key and no value comes twice. -/
  apart : pairs.Pairwise fun left right =>
    keyOrder left.1 right.1 ≠ .eq ∧ valueOrder left.2 right.2 ≠ .eq
  get? : ∀ key, b.get? key = .ok ((Entries.find? keyOrder key pairs).map Prod.snd)
  getKey? : ∀ value, b.getKey? value =
    .ok ((pairs.find? fun pair => valueOrder pair.2 value = .eq).map Prod.fst)
  size : b.forward.size = pairs.length ∧ b.inverse.size = pairs.length
  /-- Both trees are valid, and their audits agree. -/
  valid : b.forward.Valid ∧ b.inverse.Valid
  audit : b.forward.audit = .ok (.ok ()) ∧ b.inverse.audit = .ok (.ok ())

/-- What the actions do to a bijection with these pairs. -/
structure Lawful [BEq K] (keyOrder : K → K → Ordering) (valueOrder : V → V → Ordering)
    (b : Bijection K V) (pairs : List (K × V)) : Prop where
  /-- The value that the key had is answered. Every pair with the key or the value goes, and the new
  pair comes. -/
  insert : ∀ key value, ∃ c after,
    b.insert key value = .ok ((Entries.find? keyOrder key pairs).map Prod.snd, c) ∧
    c.Agrees keyOrder valueOrder after ∧
    (∀ pair, pair ∈ after ↔ pair = (key, value) ∨
      pair ∈ pairs ∧ keyOrder pair.1 key ≠ .eq ∧ valueOrder pair.2 value ≠ .eq) ∧
    ∃ displaced ≤ 2, after.length + displaced = pairs.length + 1
  /-- A value that another key has stays with it. -/
  refuse : ∀ key value,
    (∃ pair ∈ pairs, valueOrder pair.2 value = .eq ∧ keyOrder pair.1 key ≠ .eq) →
      b.insertIfFree key value = .ok (.error .duplicateValue, b)
  accept : ∀ key value,
    (∀ pair ∈ pairs, valueOrder pair.2 value = .eq → keyOrder pair.1 key = .eq) →
      ∃ previous c, b.insert key value = .ok (previous, c) ∧
        b.insertIfFree key value = .ok (.ok previous, c)
  /-- One pair goes with a key that is there, and no other. -/
  erase : ∀ key, ∃ c after,
    b.erase key = .ok ((Entries.find? keyOrder key pairs).map Prod.snd, c) ∧
    c.Agrees keyOrder valueOrder after ∧
    (∀ pair, pair ∈ after ↔ pair ∈ pairs ∧ keyOrder pair.1 key ≠ .eq) ∧
    after.length + (Entries.find? keyOrder key pairs).toList.length = pairs.length
  /-- One pair goes with a value that is there, and no other. -/
  eraseValue : ∀ value, ∃ c after,
    b.eraseValue value =
      .ok ((pairs.find? fun pair => valueOrder pair.2 value = .eq).map Prod.fst, c) ∧
    c.Agrees keyOrder valueOrder after ∧
    (∀ pair, pair ∈ after ↔ pair ∈ pairs ∧ valueOrder pair.2 value ≠ .eq) ∧
    after.length + (pairs.find? fun pair => valueOrder pair.2 value = .eq).toList.length =
      pairs.length
  clear : b.clear.Agrees keyOrder valueOrder []
  copy : ∃ c, b.copy = .ok c ∧ c.Agrees keyOrder valueOrder pairs

variable {f : Fanout} {b : Bijection K V} {pairs : List (K × V)} {turned : List (V × K)}
  [Std.TransCmp keyOrder] [Std.TransCmp valueOrder]

theorem Keeps.agrees (h : b.Keeps f keyOrder valueOrder pairs turned) :
    b.Agrees keyOrder valueOrder pairs := by
  have hlength := h.mirrored.length_eq
  constructor
  case iter => exact h.forward.toList_eq
  case ascending => exact h.mirrored.ascending
  case iterByValue =>
    exact ⟨turned, h.inverse.toList_eq, h.mirrored.turned_ascending, h.mirrored.perm,
      h.mirrored.mem_iff⟩
  case apart =>
    refine h.mirrored.ascending.nodup.pairwise_of_forall_ne fun left hleft right hright hne =>
      ⟨fun hkey => hne ?_, fun hvalue => hne ?_⟩
    · exact h.mirrored.ascending.eq_of_eq hleft hright hkey
    · exact h.mirrored.eq_of_value hleft hright hvalue
  case get? => exact h.forward.get?_eq
  case getKey? => exact h.getKey?_eq
  case size => exact ⟨h.forward.size_eq, h.inverse.size_eq.trans hlength⟩
  case valid => exact ⟨h.forward.valid.1, h.inverse.valid.1⟩
  case audit => exact ⟨h.forward.valid.2, h.inverse.valid.2⟩

omit [Std.TransCmp keyOrder] in
/-- Whether a value is taken is asked of the tree of the values. -/
theorem Keeps.insertIfFree_eq [BEq K]
    (hkeys : ∀ left right : K, (left == right) = true ↔ keyOrder left right = .eq)
    (h : b.Keeps f keyOrder valueOrder pairs turned) (key : K) (value : V) :
    ((∃ pair ∈ pairs, valueOrder pair.2 value = .eq ∧ keyOrder pair.1 key ≠ .eq) →
      b.insertIfFree key value = .ok (.error .duplicateValue, b)) ∧
    ((∀ pair ∈ pairs, valueOrder pair.2 value = .eq → keyOrder pair.1 key = .eq) →
      b.insertIfFree key value =
        b.insert key value >>= fun change => pure (.ok change.1, change.2)) := by
  refine ⟨?_, fun hfree => ?_⟩
  · rintro ⟨pair, hmem, hvalue, hkey⟩
    have hbound : (pair.1 != key) = true := by
      rw [bne, Bool.not_eq_true', Bool.eq_false_iff, ne_eq, hkeys]
      exact hkey
    rw [insertIfFree, h.getKey?_of_mem hmem hvalue]
    simp only [ok_bind, hbound, if_true]
    rfl
  · have hasked := h.getKey?_eq value
    cases hfound : pairs.find? fun pair => valueOrder pair.2 value = .eq with
    | none =>
        rw [hfound] at hasked
        rw [insertIfFree, hasked]
        rfl
    | some found =>
        have hvalue : valueOrder found.2 value = .eq := by simpa using List.find?_some hfound
        have hbound : (found.1 != key) = false := by
          rw [bne, Bool.not_eq_false', hkeys]
          exact hfree found (List.mem_of_find?_eq_some hfound) hvalue
        rw [hfound] at hasked
        rw [insertIfFree, hasked]
        simp only [ok_bind, Option.map_some, hbound, Bool.false_eq_true, if_false]

theorem Keeps.lawful [BEq K]
    (hkeys : ∀ left right : K, (left == right) = true ↔ keyOrder left right = .eq)
    (h : b.Keeps f keyOrder valueOrder pairs turned) :
    b.Lawful keyOrder valueOrder pairs := by
  constructor
  case insert =>
    intro key value
    obtain ⟨c, rest, turned', hinsert, hc, hascending, hnew, hmem, displaced, htwo, hlength⟩ :=
      h.insert_eq key value
    refine ⟨c, _, hinsert, hc.agrees, fun pair => ?_, displaced, htwo, ?_⟩
    · rw [Entries.mem_store hascending hnew, hmem]
    · rw [hascending.length_store, hnew, Option.isSome_none, if_neg Bool.false_ne_true]
      omega
  case refuse => exact fun key value => (h.insertIfFree_eq hkeys key value).1
  case accept =>
    intro key value hfree
    obtain ⟨c, rest, turned', hinsert, -⟩ := h.insert_eq key value
    refine ⟨_, c, hinsert, ?_⟩
    rw [(h.insertIfFree_eq hkeys key value).2 hfree, hinsert]
    rfl
  case erase =>
    intro key
    obtain ⟨c, turned', herase, hc⟩ := h.erase_eq key
    exact ⟨c, _, herase, hc.agrees, fun pair => Entries.mem_remove,
      Entries.length_remove h.mirrored.ascending key⟩
  case eraseValue =>
    intro value
    obtain ⟨c, after, herase, hc⟩ := h.eraseValue_eq value
    have hfound := h.mirrored.find?_value value
    refine ⟨c, after, ?_, hc.agrees, fun pair => ?_, ?_⟩
    · rw [herase, ← hfound, Option.map_map]
      rfl
    · rw [hc.mirrored.mem_swap, Entries.mem_remove, ← h.mirrored.mem_swap]
      rfl
    · have hlength := Entries.length_remove h.mirrored.turned_ascending value
      have hafter := hc.mirrored.length_eq
      have hbefore := h.mirrored.length_eq
      rw [← hfound, ← hbefore, ← hlength, hafter]
      cases Entries.find? valueOrder value turned <;> rfl
  case clear => exact h.clear.agrees
  case copy =>
    obtain ⟨c, hcopy, hc⟩ := h.copy
    exact ⟨c, hcopy, hc.agrees⟩

/-! ### Runs -/

theorem Keeps.insertMany (h : b.Keeps f keyOrder valueOrder pairs turned) (more : List (K × V)) :
    ∃ c pairs' turned', b.insertMany more = .ok c ∧
      c.Keeps f keyOrder valueOrder pairs' turned' := by
  induction more generalizing b pairs turned with
  | nil => exact ⟨b, pairs, turned, rfl, h⟩
  | cons pair more ih =>
      obtain ⟨c, rest, turned', hinsert, hc, -⟩ := h.insert_eq pair.1 pair.2
      obtain ⟨d, pairs', turned'', hmany, hd⟩ := ih hc
      refine ⟨d, pairs', turned'', ?_, hd⟩
      rw [Bijection.insertMany, List.foldlM_cons]
      simp only [hinsert, ok_bind]
      exact hmany

/-- A pairing that may be refused leaves the bijection as it is, or it is a pairing. -/
theorem Keeps.insertIfFree [BEq K] (h : b.Keeps f keyOrder valueOrder pairs turned) (key : K)
    (value : V) :
    ∃ answer c pairs' turned', b.insertIfFree key value = .ok (answer, c) ∧
      c.Keeps f keyOrder valueOrder pairs' turned' := by
  obtain ⟨c, rest, turned', hinsert, hc, -⟩ := h.insert_eq key value
  rw [Bijection.insertIfFree, h.getKey?_eq]
  simp only [ok_bind, hinsert]
  cases (pairs.find? fun pair => valueOrder pair.2 value = .eq).map Prod.fst with
  | none => exact ⟨_, c, _, _, rfl, hc⟩
  | some bound =>
      dsimp only
      split
      · exact ⟨_, b, pairs, turned, rfl, h⟩
      · exact ⟨_, c, _, _, rfl, hc⟩

/-- Every action leaves the trees with some pairs, the same on both sides. -/
theorem Keeps.perform [BEq K] (h : b.Keeps f keyOrder valueOrder pairs turned)
    (action : Action K V) :
    ∃ c pairs' turned', b.perform action = .ok c ∧
      c.Keeps f keyOrder valueOrder pairs' turned' := by
  cases action with
  | insert key value =>
      obtain ⟨c, rest, turned', hinsert, hc, -⟩ := h.insert_eq key value
      exact ⟨c, _, _, by rw [Bijection.perform, hinsert]; rfl, hc⟩
  | insertIfFree key value =>
      obtain ⟨answer, c, pairs', turned', hinsert, hc⟩ := h.insertIfFree key value
      exact ⟨c, _, _, by rw [Bijection.perform, hinsert]; rfl, hc⟩
  | insertMany more => exact h.insertMany more
  | erase key =>
      obtain ⟨c, turned', herase, hc⟩ := h.erase_eq key
      exact ⟨c, _, _, by rw [Bijection.perform, herase]; rfl, hc⟩
  | eraseValue value =>
      obtain ⟨c, pairs', herase, hc⟩ := h.eraseValue_eq value
      exact ⟨c, _, _, by rw [Bijection.perform, herase]; rfl, hc⟩
  | clear => exact ⟨b.clear, [], [], rfl, h.clear⟩
  | copy =>
      obtain ⟨c, hcopy, hc⟩ := h.copy
      exact ⟨c, _, _, hcopy, hc⟩

theorem Keeps.run [BEq K] (h : b.Keeps f keyOrder valueOrder pairs turned)
    (actions : List (Action K V)) :
    ∃ c pairs' turned', b.run actions = .ok c ∧ c.Keeps f keyOrder valueOrder pairs' turned' := by
  induction actions generalizing b pairs turned with
  | nil => exact ⟨b, pairs, turned, rfl, h⟩
  | cons action actions ih =>
      obtain ⟨c, pairs', turned', hstep, hc⟩ := h.perform action
      obtain ⟨d, pairs'', turned'', hrest, hd⟩ := ih hc
      refine ⟨d, pairs'', turned'', ?_, hd⟩
      rw [Bijection.run, List.foldlM_cons, hstep]
      exact hrest

theorem keeps_empty (keyOrder : K → K → Ordering) (valueOrder : V → V → Ordering) :
    (empty keyOrder valueOrder : Bijection K V).Keeps .standard keyOrder valueOrder [] [] :=
  ⟨Tree.keeps_empty .., Tree.keeps_empty .., .nil⟩

variable (keyOrder valueOrder) in
/-- An origin that asks for a possible order makes a bijection of this order. -/
theorem Origin.make_keeps {origin : Origin K V} (hasked : Fanout.smallest ≤ origin.requested) :
    ∃ start f pairs turned, origin.make keyOrder valueOrder = .ok (.ok start) ∧
      start.Keeps f keyOrder valueOrder pairs turned ∧ f.order = max origin.requested 3 := by
  cases origin with
  | empty => exact ⟨_, _, _, _, rfl, keeps_empty .., rfl⟩
  | order asked =>
      have hoptions : Fanout.smallest ≤ ({ order := asked } : Options).order := hasked
      have hforward := Tree.ofOptions_eq (V := V) hoptions keyOrder
      have hinverse := Tree.ofOptions_eq (V := K) hoptions valueOrder
      refine ⟨⟨_, _⟩, ⟨max asked 3, Nat.le_max_right ..⟩, [], [], ?_,
        ⟨Tree.keeps_empty _ ({} : Options).freeCapacity _,
          Tree.keeps_empty _ ({} : Options).freeCapacity _, .nil⟩, rfl⟩
      rw [make, ofOrder, Tree.ofOrder, Tree.ofOrder, hforward, hinverse]
      rfl
  | list given =>
      obtain ⟨start, pairs, turned, hmany, hstart⟩ :=
        (keeps_empty keyOrder valueOrder).insertMany given
      refine ⟨start, _, pairs, turned, ?_, hstart, rfl⟩
      rw [make, ofList, hmany]
      rfl

omit [Std.TransCmp keyOrder] [Std.TransCmp valueOrder] in
/-- Whatever makes a bijection asks for a possible order. -/
theorem Origin.accepted_of_make {origin : Origin K V} {start : Bijection K V}
    (h : origin.make keyOrder valueOrder = .ok (.ok start)) :
    Fanout.smallest ≤ origin.requested := by
  cases origin with
  | empty => exact Multiway.Origin.smallest_le_usual
  | order asked =>
      refine Nat.le_of_not_lt fun hlt => ?_
      have hoptions : ({ order := asked } : Options).order < Fanout.smallest := hlt
      rw [make, ofOrder, Tree.ofOrder, Tree.ofOptions_of_lt hoptions] at h
      have := Except.ok.inj h
      contradiction
  | list given => exact Multiway.Origin.smallest_le_usual

theorem Reachable.keeps [BEq K] (h : b.Reachable keyOrder valueOrder) :
    ∃ f pairs turned, b.Keeps f keyOrder valueOrder pairs turned := by
  obtain ⟨origin, start, actions, hmake, hrun⟩ := h
  obtain ⟨start', f, pairs, turned, hmake', hstart, -⟩ :=
    Origin.make_keeps keyOrder valueOrder (Origin.accepted_of_make hmake)
  obtain rfl := Except.ok.inj (Except.ok.inj (hmake'.symm.trans hmake))
  obtain ⟨c, pairs', turned', hrun', hc⟩ := hstart.run actions
  obtain rfl := Except.ok.inj (hrun'.symm.trans hrun)
  exact ⟨f, pairs', turned', hc⟩

omit [Std.TransCmp keyOrder] [Std.TransCmp valueOrder] in
/-- A bijection with some property is found by running. -/
theorem exists_reachable [BEq K] (origin : Origin K V) (actions : List (Action K V))
    {holds : Bijection K V → Prop}
    (h : ∃ b ∈ origin.leaves? keyOrder valueOrder actions, holds b) :
    ∃ b : Bijection K V, b.Reachable keyOrder valueOrder ∧ holds b := by
  obtain ⟨b, hleaves, hholds⟩ := h
  obtain ⟨made, hmade, hleaves⟩ := Option.bind_eq_some_iff.mp hleaves
  obtain ⟨start, hstart, hrun⟩ := Option.bind_eq_some_iff.mp hleaves
  obtain rfl := toOption_eq_some.mp hstart
  exact ⟨b, ⟨origin, start, actions, toOption_eq_some.mp hmade, toOption_eq_some.mp hrun⟩, hholds⟩

/-! ### Comparing -/

omit [Std.TransCmp keyOrder] in
/-- Where the pairs match in the order of the keys, they match in the order of the values. -/
theorem matches_turned [BEq K] [BEq V]
    (hvalues : ∀ left right : V, (left == right) = true ↔ valueOrder left right = .eq)
    {pairs' : List (K × V)} {turned' : List (V × K)}
    (h : Mirrored keyOrder valueOrder pairs turned)
    (h' : Mirrored keyOrder valueOrder pairs' turned') (hequal : (pairs == pairs') = true) :
    (turned == turned') = true := by
  rw [beq_iff_forall₂] at hequal ⊢
  have hvalue (left right : V × K) (hpair : (left == right) = true) :
      valueOrder left.1 right.1 = .eq :=
    (hvalues _ _).mp (Bool.and_eq_true_iff.mp hpair).1
  have hturn {left right : K × V} (hpair : (left == right) = true) :
      (left.swap == right.swap) = true :=
    Bool.and_eq_true_iff.mpr (Bool.and_eq_true_iff.mp hpair).symm
  refine h.turned_ascending.forall₂ hvalue h'.turned_ascending (fun a ha => ?_) fun b hb => ?_
  · obtain ⟨b, hb, hpair⟩ := exists_of_forall₂ hequal (h.symm.mem_swap.mp ha)
    exact ⟨b.swap, h'.mem_swap.mp hb, hturn hpair⟩
  · obtain ⟨a, ha, hpair⟩ := exists_of_forall₂ hequal.flip (h'.symm.mem_swap.mp hb)
    exact ⟨a.swap, h.mem_swap.mp ha, hturn hpair⟩

theorem Keeps.equal_eq [BEq K] [BEq V]
    (hvalues : ∀ left right : V, (left == right) = true ↔ valueOrder left right = .eq)
    {c : Bijection K V} {g : Fanout} {pairs' : List (K × V)} {turned' : List (V × K)}
    (h : b.Keeps f keyOrder valueOrder pairs turned)
    (h' : c.Keeps g keyOrder valueOrder pairs' turned') : b.equal c = .ok (pairs == pairs') := by
  rw [Bijection.equal, h.forward.equal_eq h'.forward, ok_bind, h.inverse.equal_eq h'.inverse]
  cases hequal : pairs == pairs' with
  | false => rfl
  | true => exact congrArg Except.ok (matches_turned hvalues h.mirrored h'.mirrored hequal)

end Bijection

/-- A bijection agrees with a list of pairs after every run, and every action does to the pairs what it
says. Two bijections are the same if and only if they have the same pairs in the order of the keys. -/
theorem bijection_lawful (hkey : Consistent keyOrder) (hvalue : Consistent valueOrder) [BEq K]
    [BEq V] (hkeys : ∀ left right : K, (left == right) = true ↔ keyOrder left right = .eq)
    (hvalues : ∀ left right : V, (left == right) = true ↔ valueOrder left right = .eq) :
    (∀ origin : Bijection.Origin K V, Fanout.smallest ≤ origin.requested →
      ∀ actions : List (Bijection.Action K V), ∃ start final pairs,
        origin.make keyOrder valueOrder = .ok (.ok start) ∧ start.run actions = .ok final ∧
        final.forward.order = max origin.requested 3 ∧
        final.inverse.order = max origin.requested 3 ∧
        final.Agrees keyOrder valueOrder pairs ∧ final.Lawful keyOrder valueOrder pairs) ∧
    ∀ b c : Bijection K V, b.Reachable keyOrder valueOrder → c.Reachable keyOrder valueOrder →
      ∃ pairs pairs', b.iter.toList = .ok pairs ∧ c.iter.toList = .ok pairs' ∧
        b.equal c = .ok (pairs == pairs') := by
  have := hkey.transCmp
  have := hvalue.transCmp
  refine ⟨fun origin hasked actions => ?_, fun b c hb hc => ?_⟩
  · obtain ⟨start, f, pairs, turned, hmake, hstart, horder⟩ :=
      Bijection.Origin.make_keeps keyOrder valueOrder hasked
    obtain ⟨final, pairs', turned', hrun, hfinal⟩ := hstart.run actions
    refine ⟨start, final, pairs', hmake, hrun, ?_, ?_, hfinal.agrees, hfinal.lawful hkeys⟩
    · rw [← horder, ← hfinal.forward.fanout]
      rfl
    · rw [← horder, ← hfinal.inverse.fanout]
      rfl
  · obtain ⟨f, pairs, turned, hb⟩ := hb.keeps
    obtain ⟨g, pairs', turned', hc⟩ := hc.keeps
    exact ⟨pairs, pairs', hb.forward.toList_eq, hc.forward.toList_eq, hb.equal_eq hvalues hc⟩

/-- Pairing key 1 with the value of key 2 displaces the pairs of both keys; nodes are cut and merged on
the way. A bijection of a larger order that never held another pair is the same in the end. -/
theorem bijection_lawful_displaced :
    Consistent (compare : Nat → Nat → Ordering) ∧
      (∀ left right : Nat, (left == right) = true ↔ compare left right = .eq) ∧
      Fanout.smallest ≤ (Bijection.Origin.order 2 : Bijection.Origin Nat Nat).requested ∧
      ∃ start final other : Bijection Nat Nat,
        (Bijection.Origin.order 2).make compare compare = .ok (.ok start) ∧
        start.run [.insert 1 10, .insert 2 20, .insert 3 30, .insert 1 20, .eraseValue 30] =
          .ok final ∧
        final.Agrees compare compare [(1, 20)] ∧ final.Lawful compare compare [(1, 20)] ∧
        other.iter.toList = .ok [(1, 20)] ∧ final.equal other = .ok true := by
  have hcmp : Consistent (compare : Nat → Nat → Ordering) := Consistent.of_transCmp
  have hbeq : ∀ left right : Nat, (left == right) = true ↔ compare left right = .eq :=
    fun left right => beq_iff_eq.trans Nat.compare_eq_eq.symm
  have hasked : Fanout.smallest ≤ (Bijection.Origin.order 2 : Bijection.Origin Nat Nat).requested := by
    decide
  obtain ⟨hlaws, hequal⟩ := bijection_lawful hcmp hcmp hbeq hbeq
  obtain ⟨start, final, pairs, hmake, hrun, -, -, hagrees, hlawful⟩ := hlaws (.order 2) hasked
    [.insert 1 10, .insert 2 20, .insert 3 30, .insert 1 20, .eraseValue 30]
  obtain ⟨other, hother, hpair⟩ : ∃ other : Bijection Nat Nat, other.Reachable compare compare ∧
      other.iter.toList = .ok [(1, 20)] := ⟨_, ⟨.order 5, _, [.insert 1 20], rfl, rfl⟩, rfl⟩
  obtain rfl : pairs = [(1, 20)] := by
    have hpairs : ((start.run [.insert 1 10, .insert 2 20, .insert 3 30, .insert 1 20,
        .eraseValue 30]).toOption.bind fun left => left.iter.toList.toOption) = some [(1, 20)] := by
      cases hmake
      decide +kernel
    rw [hrun] at hpairs
    simp only [Except.toOption, Option.bind_some, hagrees.iter] at hpairs
    exact Option.some.inj hpairs
  obtain ⟨here, there, hhere, hthere, heq⟩ := hequal final other ⟨_, start, _, hmake, hrun⟩ hother
  obtain rfl := Except.ok.inj (hhere.symm.trans hagrees.iter)
  obtain rfl := Except.ok.inj (hthere.symm.trans hpair)
  exact ⟨hcmp, hbeq, hasked, start, final, other, hmake, hrun, hagrees, hlawful, hpair, heq⟩

end Multiway
