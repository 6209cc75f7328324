import Multiway.Proofs.Collection.BijectionLaws
import Multiway.Proofs.Collection.Representatives

/-!
Pairing without taking a value away.

The guard reads the tree of the values and compares one key. What it keeps away is a second displaced
pair: pairing a key with a value takes out the pair of the key and the pair of the value, and when the
value has no key, or has this one, these are at most one pair, that of the key. That the guard sees
every pair which would be displaced needs both trees to tell the same, in every state that can be had.
-/

namespace Multiway

variable {K V : Type} {keyOrder : K → K → Ordering} {valueOrder : V → V → Ordering}

namespace Bijection

/-- A pair with the value has a different key. -/
def Taken [BEq K] (valueOrder : V → V → Ordering) (pairs : List (K × V)) (key : K) (value : V) :
    Prop :=
  ∃ pair ∈ pairs, valueOrder pair.2 value = .eq ∧ (pair.1 == key) = false

/-- In `c` a key has a new value, instead of the one it had in `b` or for the first time; all the other
pairs are there as they were. -/
structure Rebinds [BEq K] (keyOrder : K → K → Ordering) (valueOrder : V → V → Ordering)
    (b c : Bijection K V) (key : K) (value : V) (previous : Option V) : Prop where
  answered : b.get? key = .ok previous
  pairs : ∃ before after, b.Agrees keyOrder valueOrder before ∧ c.Agrees keyOrder valueOrder after ∧
    ∀ pair, pair ∈ after ↔ pair = (key, value) ∨ pair ∈ before ∧ (pair.1 == key) = false
  get? : c.get? key = .ok (some value)
  getKey? : c.getKey? value = .ok (some key)
  others : ∀ other, (other == key) = false → c.get? other = b.get? other
  size : c.size = b.size + if previous.isSome then 0 else 1

variable {f : Fanout} {b : Bijection K V} {pairs : List (K × V)} {turned : List (V × K)}
  [Std.TransCmp keyOrder] [Std.TransCmp valueOrder]

/-- Pairing a key with a value that is not taken displaces no other key. -/
theorem Keeps.rebinds [BEq K]
    (hkeys : ∀ left right : K, (left == right) = true ↔ keyOrder left right = .eq)
    (h : b.Keeps f keyOrder valueOrder pairs turned) {key : K} {value : V}
    (hfree : ∀ pair ∈ pairs, valueOrder pair.2 value = .eq → keyOrder pair.1 key = .eq) :
    ∃ previous c, b.insert key value = .ok (previous, c) ∧
      b.Rebinds keyOrder valueOrder c key value previous := by
  obtain ⟨c, rest, turned', hinsert, hc, hascending, hnew, hmem, -⟩ := h.insert_eq key value
  have hother (other : K) : (other == key) = false ↔ keyOrder other key ≠ .eq := by
    rw [ne_eq, ← hkeys, Bool.not_eq_true]
  -- Whatever the value displaces went with the key already.
  have hrest : rest = Entries.remove keyOrder key pairs := by
    refine hascending.eq_of_mem (h.mirrored.ascending.remove key) fun pair => ?_
    rw [hmem, Entries.mem_remove]
    exact and_congr_right fun hpair =>
      ⟨And.left, fun hkey => ⟨hkey, fun hvalue => hkey (hfree pair hpair hvalue)⟩⟩
  have hstored (pair : K × V) : pair ∈ Entries.store keyOrder key value rest ↔
      pair = (key, value) ∨ pair ∈ pairs ∧ (pair.1 == key) = false := by
    rw [Entries.mem_store hascending hnew, hrest, Entries.mem_remove, hother]
  have hpaired : (key, value) ∈ Entries.store keyOrder key value rest := (hstored _).mpr (.inl rfl)
  refine ⟨_, c, hinsert, ?_⟩
  constructor
  case answered => exact h.forward.get?_eq key
  case pairs => exact ⟨pairs, _, h.agrees, hc.agrees, hstored⟩
  case get? =>
    have hfound := (hc.mirrored.ascending.mem_iff_find? _).mp hpaired
    rw [hc.agrees.get?, hfound]
    rfl
  case getKey? => exact hc.getKey?_of_mem hpaired Std.ReflCmp.compare_self
  case others =>
    intro other hne
    have hne' : keyOrder key other ≠ .eq := fun heq =>
      (hother other).mp hne (Std.OrientedCmp.eq_symm heq)
    rw [hc.agrees.get?, h.agrees.get?, hascending.find?_store, if_neg hne', hrest,
      h.mirrored.ascending.find?_remove ((hother other).mp hne)]
  case size =>
    have hlength := Entries.length_remove h.mirrored.ascending key
    show c.forward.size = b.forward.size + _
    rw [hc.forward.size_eq, h.forward.size_eq, hascending.length_store, hnew, ← hlength, ← hrest]
    cases Entries.find? keyOrder key pairs <;> rfl

end Bijection

/-- In every state that can be had, a pairing is refused if and only if its value has a different key, and
then it leaves the two trees as they are, slot by slot. Otherwise it answers the value that the key had,
and rebinds this key alone. -/
theorem insertIfFree_exact (hkey : Consistent keyOrder) (hvalue : Consistent valueOrder) [BEq K]
    (hkeys : ∀ left right : K, (left == right) = true ↔ keyOrder left right = .eq)
    {b : Bijection K V} (h : b.Reachable keyOrder valueOrder) (key : K) (value : V) :
    ∃ pairs answer c, b.Agrees keyOrder valueOrder pairs ∧
      b.insertIfFree key value = .ok (answer, c) ∧
      (answer = .error .duplicateValue ↔ Bijection.Taken valueOrder pairs key value) ∧
      (answer = .error .duplicateValue → c = b) ∧
      (answer ≠ .error .duplicateValue → ∃ previous, answer = .ok previous ∧
        b.Rebinds keyOrder valueOrder c key value previous) := by
  have := hkey.transCmp
  have := hvalue.transCmp
  obtain ⟨f, pairs, turned, hkeeps⟩ := h.keeps
  have hother (other : K) : (other == key) = false ↔ keyOrder other key ≠ .eq := by
    rw [ne_eq, ← hkeys, Bool.not_eq_true]
  obtain ⟨hrefuse, haccept⟩ := hkeeps.insertIfFree_eq hkeys key value
  by_cases htaken : Bijection.Taken valueOrder pairs key value
  · obtain ⟨pair, hmem, hsame, hdifferent⟩ := htaken
    exact ⟨pairs, _, b, hkeeps.agrees, hrefuse ⟨pair, hmem, hsame, (hother _).mp hdifferent⟩,
      ⟨fun _ => ⟨pair, hmem, hsame, hdifferent⟩, fun _ => rfl⟩, fun _ => rfl,
      fun haccepted => absurd rfl haccepted⟩
  · have hfree : ∀ pair ∈ pairs, valueOrder pair.2 value = .eq → keyOrder pair.1 key = .eq := by
      intro pair hmem hsame
      by_contra hdifferent
      exact htaken ⟨pair, hmem, hsame, (hother _).mpr hdifferent⟩
    obtain ⟨previous, c, hinsert, hrebinds⟩ := hkeeps.rebinds hkeys hfree
    refine ⟨pairs, .ok previous, c, hkeeps.agrees, ?_, ⟨nofun, fun h => absurd h htaken⟩, nofun,
      fun _ => ⟨previous, rfl, hrebinds⟩⟩
    rw [haccept hfree, hinsert]
    rfl

/-- The value of key 1 is refused to key 2 and accepted from key 1 itself. A new key makes the bijection
longer, and another value for key 1 does not. -/
theorem insertIfFree_exact_thirds :
    Consistent (compare : Nat → Nat → Ordering) ∧
      (∀ left right : Nat, (left == right) = true ↔ compare left right = .eq) ∧
      ∃ b : Bijection Nat Nat, b.Reachable compare compare ∧
        b.iter.toList = .ok [(1, 10), (2, 20), (3, 30)] ∧ b.forward.height = .ok 2 ∧
        b.insertIfFree 2 10 = .ok (.error .duplicateValue, b) ∧
        (∃ c, b.insertIfFree 1 10 = .ok (.ok (some 10), c) ∧
          b.Rebinds compare compare c 1 10 (some 10) ∧ c.size = 3) ∧
        (∃ c, b.insertIfFree 1 40 = .ok (.ok (some 10), c) ∧
          b.Rebinds compare compare c 1 40 (some 10) ∧ c.size = 3) ∧
        ∃ c, b.insertIfFree 4 40 = .ok (.ok none, c) ∧
          b.Rebinds compare compare c 4 40 none ∧ c.size = 4 := by
  have hcmp : Consistent (compare : Nat → Nat → Ordering) := Consistent.of_transCmp
  have hbeq : ∀ left right : Nat, (left == right) = true ↔ compare left right = .eq :=
    fun left right => beq_iff_eq.trans Nat.compare_eq_eq.symm
  obtain ⟨b, hreach, hiter, hheight⟩ : ∃ b : Bijection Nat Nat, b.Reachable compare compare ∧
      b.iter.toList = .ok [(1, 10), (2, 20), (3, 30)] ∧ b.forward.height = .ok 2 :=
    Bijection.exists_reachable (.order 2) [.insert 1 10, .insert 2 20, .insert 3 30]
      (by decide +kernel)
  have haccepted (key value : Nat)
      (hfree : ¬Bijection.Taken compare [(1, 10), (2, 20), (3, 30)] key value) :
      ∃ c, b.insertIfFree key value = .ok (.ok ((Entries.find? compare key
          [(1, 10), (2, 20), (3, 30)]).map Prod.snd), c) ∧
        b.Rebinds compare compare c key value ((Entries.find? compare key
          [(1, 10), (2, 20), (3, 30)]).map Prod.snd) := by
    obtain ⟨pairs, answer, c, hagrees, hinsert, htaken, -, haccept⟩ :=
      insertIfFree_exact hcmp hcmp hbeq hreach key value
    obtain rfl := Except.ok.inj (hagrees.iter.symm.trans hiter)
    obtain ⟨previous, rfl, hrebinds⟩ := haccept fun hrefused => hfree (htaken.mp hrefused)
    obtain rfl := Except.ok.inj (hrebinds.answered.symm.trans (hagrees.get? key))
    exact ⟨c, hinsert, hrebinds⟩
  have hsize : b.size = 3 := by
    obtain ⟨pairs, -, -, hagrees, -⟩ := insertIfFree_exact hcmp hcmp hbeq hreach 0 0
    obtain rfl := Except.ok.inj (hagrees.iter.symm.trans hiter)
    exact hagrees.size.1
  refine ⟨hcmp, hbeq, b, hreach, hiter, hheight, ?_, ?_, ?_, ?_⟩
  · obtain ⟨pairs, answer, c, hagrees, hinsert, htaken, hunchanged, -⟩ :=
      insertIfFree_exact hcmp hcmp hbeq hreach 2 10
    obtain rfl := Except.ok.inj (hagrees.iter.symm.trans hiter)
    have hrefused := htaken.mpr ⟨(1, 10), by decide, by decide, by decide⟩
    rw [hinsert, hrefused, hunchanged hrefused]
  · obtain ⟨c, hinsert, hrebinds⟩ := haccepted 1 10 (by rw [Bijection.Taken]; decide)
    exact ⟨c, hinsert, hrebinds, hrebinds.size.trans (congrArg (· + 0) hsize)⟩
  · obtain ⟨c, hinsert, hrebinds⟩ := haccepted 1 40 (by rw [Bijection.Taken]; decide)
    exact ⟨c, hinsert, hrebinds, hrebinds.size.trans (congrArg (· + 0) hsize)⟩
  · obtain ⟨c, hinsert, hrebinds⟩ := haccepted 4 40 (by rw [Bijection.Taken]; decide)
    exact ⟨c, hinsert, hrebinds, hrebinds.size.trans (congrArg (· + 1) hsize)⟩

end Multiway
