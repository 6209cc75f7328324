import Mathlib.Data.List.Forall2
import Mathlib.Data.List.Nodup
import Mathlib.Data.List.Perm.Basic
import Mathlib.Data.Prod.Basic
import Multiway.Proofs.Entries

/-!
Pairs in two orders.

The same pairs stand in two ascending lists, once in the order of the keys and once, turned round, in
the order of the values. Each list says what the other one says, so a pair that is known in one list
is known in the other, and the order of the second list forbids a value to come twice in the first.
What is done to one list, be it leaving out some pairs or storing a new one, is done to the other list
in the same way.
-/

namespace Multiway

variable {K V : Type} {keyOrder : K → K → Ordering} {valueOrder : V → V → Ordering}

/-- Two lists with the same pairs, turned round in the second one. -/
structure Mirrored (keyOrder : K → K → Ordering) (valueOrder : V → V → Ordering)
    (pairs : List (K × V)) (turned : List (V × K)) : Prop where
  ascending : Ascending keyOrder pairs
  turned_ascending : Ascending valueOrder turned
  mem_iff : ∀ key value, (key, value) ∈ pairs ↔ (value, key) ∈ turned

namespace Entries

theorem mem_remove {cmp : K → K → Ordering} {key : K} {entries : List (K × V)} {entry : K × V} :
    entry ∈ remove cmp key entries ↔ entry ∈ entries ∧ cmp entry.1 key ≠ .eq := by
  rw [remove, List.mem_filter, decide_eq_true_iff]

theorem find?_eq_none {cmp : K → K → Ordering} {key : K} {entries : List (K × V)} :
    find? cmp key entries = none ↔ ∀ entry ∈ entries, cmp entry.1 key ≠ .eq := by
  simp only [find?, List.find?_eq_none, decide_eq_true_iff]

theorem find?_eq_some {cmp : K → K → Ordering} {key : K} {entries : List (K × V)} {entry : K × V}
    (h : find? cmp key entries = some entry) : entry ∈ entries ∧ cmp entry.1 key = .eq :=
  ⟨List.mem_of_find?_eq_some h, by simpa using List.find?_some h⟩

theorem remove_of_find?_eq_none {cmp : K → K → Ordering} {key : K} {entries : List (K × V)}
    (h : find? cmp key entries = none) : remove cmp key entries = entries :=
  List.filter_eq_self.mpr fun entry hmem => decide_eq_true (find?_eq_none.mp h entry hmem)

/-- Storing under a new key adds an entry. -/
theorem mem_store {cmp : K → K → Ordering} [Std.TransCmp cmp] {key : K} {entries : List (K × V)}
    (h : Ascending cmp entries) (hnew : find? cmp key entries = none) (value : V)
    (entry : K × V) : entry ∈ store cmp key value entries ↔ entry = (key, value) ∨ entry ∈ entries := by
  rw [(h.store_perm hnew value).mem_iff, List.mem_cons]

/-- One entry goes with a key that is there. -/
theorem length_remove {cmp : K → K → Ordering} [Std.TransCmp cmp] {entries : List (K × V)}
    (h : Ascending cmp entries) (key : K) :
    (remove cmp key entries).length + (find? cmp key entries).toList.length = entries.length := by
  rcases h.split_cases key with ⟨low, entry, high, rfl, hkey, hsplit⟩ | ⟨low, high, rfl, hsplit⟩
  · rw [hsplit.remove_of_eq hkey, hsplit.find?_of_eq hkey]
    simp only [List.length_append, List.length_cons, Option.toList_some, List.length_nil]
    omega
  · rw [hsplit.remove_of_absent, hsplit.find?_of_absent]
    rfl

end Entries

namespace Mirrored

variable {pairs : List (K × V)} {turned : List (V × K)} {key : K} {value : V}

theorem nil : Mirrored keyOrder valueOrder ([] : List (K × V)) [] :=
  ⟨.nil, .nil, fun key value => by simp⟩

/-- Seen from the values, it is the same. -/
theorem symm (h : Mirrored keyOrder valueOrder pairs turned) :
    Mirrored valueOrder keyOrder turned pairs :=
  ⟨h.turned_ascending, h.ascending, fun value key => (h.mem_iff key value).symm⟩

theorem mem_swap (h : Mirrored keyOrder valueOrder pairs turned) {pair : K × V} :
    pair ∈ pairs ↔ pair.swap ∈ turned := h.mem_iff pair.1 pair.2

/-- No value comes twice. -/
theorem eq_of_value [Std.TransCmp valueOrder] (h : Mirrored keyOrder valueOrder pairs turned)
    {left right : K × V} (hleft : left ∈ pairs) (hright : right ∈ pairs)
    (heq : valueOrder left.2 right.2 = .eq) : left = right :=
  Prod.swap_injective
    (h.turned_ascending.eq_of_eq (h.mem_swap.mp hleft) (h.mem_swap.mp hright) heq)

/-- The second list is the first one in another order. -/
theorem perm [Std.TransCmp keyOrder] [Std.TransCmp valueOrder]
    (h : Mirrored keyOrder valueOrder pairs turned) : turned.Perm (pairs.map Prod.swap) := by
  refine (List.perm_ext_iff_of_nodup h.turned_ascending.nodup
    (List.Nodup.map Prod.swap_injective h.ascending.nodup)).mpr fun pair => ?_
  rw [List.mem_map]
  refine ⟨fun hmem => ⟨pair.swap, h.symm.mem_swap.mp hmem, Prod.swap_swap pair⟩, ?_⟩
  rintro ⟨pair, hmem, rfl⟩
  exact h.mem_swap.mp hmem

theorem length_eq [Std.TransCmp keyOrder] [Std.TransCmp valueOrder]
    (h : Mirrored keyOrder valueOrder pairs turned) : turned.length = pairs.length := by
  rw [h.perm.length_eq, List.length_map]

/-- Leaving out the pairs with a key leaves out at most one value. -/
theorem remove [Std.TransCmp keyOrder] [Std.TransCmp valueOrder]
    (h : Mirrored keyOrder valueOrder pairs turned) {found : K × V}
    (hfound : Entries.find? keyOrder key pairs = some found) :
    Mirrored keyOrder valueOrder (Entries.remove keyOrder key pairs)
      (Entries.remove valueOrder found.2 turned) := by
  obtain ⟨hmem, hkey⟩ := Entries.find?_eq_some hfound
  refine ⟨h.ascending.remove key, h.turned_ascending.remove found.2, fun key' value' => ?_⟩
  rw [Entries.mem_remove, Entries.mem_remove, h.mem_iff]
  refine and_congr_right fun hturned => not_congr ⟨fun hkey' => ?_, fun hvalue' => ?_⟩
  · have hsame : keyOrder key' found.1 = .eq :=
      Std.TransCmp.eq_trans hkey' (Std.OrientedCmp.eq_symm hkey)
    obtain rfl := h.ascending.eq_of_eq ((h.mem_iff key' value').mpr hturned) hmem hsame
    exact Std.ReflCmp.compare_self
  · obtain rfl := h.eq_of_value ((h.mem_iff key' value').mpr hturned) hmem hvalue'
    exact hkey

/-- A new key and a new value may be paired. -/
theorem store [Std.TransCmp keyOrder] [Std.TransCmp valueOrder]
    (h : Mirrored keyOrder valueOrder pairs turned)
    (hkey : Entries.find? keyOrder key pairs = none)
    (hvalue : Entries.find? valueOrder value turned = none) :
    Mirrored keyOrder valueOrder (Entries.store keyOrder key value pairs)
      (Entries.store valueOrder value key turned) := by
  refine ⟨h.ascending.store key value, h.turned_ascending.store value key, fun key' value' => ?_⟩
  rw [Entries.mem_store h.ascending hkey, Entries.mem_store h.turned_ascending hvalue, h.mem_iff,
    Prod.mk.injEq, Prod.mk.injEq, and_comm]

/-- The pair of a value is found from both sides. -/
theorem find?_value [Std.TransCmp valueOrder] (h : Mirrored keyOrder valueOrder pairs turned)
    (value : V) :
    (Entries.find? valueOrder value turned).map Prod.swap =
      pairs.find? fun pair => valueOrder pair.2 value = .eq := by
  cases hfound : Entries.find? valueOrder value turned with
  | none =>
      refine (List.find?_eq_none.mpr fun pair hmem => ?_).symm
      rw [decide_eq_true_iff]
      exact Entries.find?_eq_none.mp hfound _ (h.mem_swap.mp hmem)
  | some found =>
      obtain ⟨hmem, hvalue⟩ := Entries.find?_eq_some hfound
      cases hother : pairs.find? fun pair => valueOrder pair.2 value = .eq with
      | none =>
          have hnone := List.find?_eq_none.mp hother _ (h.symm.mem_swap.mp hmem)
          exact absurd (decide_eq_true hvalue) hnone
      | some other =>
          have hother' : valueOrder other.2 value = .eq := by simpa using List.find?_some hother
          exact congrArg some (h.eq_of_value (h.symm.mem_swap.mp hmem)
            (List.mem_of_find?_eq_some hother)
            (Std.TransCmp.eq_trans hvalue (Std.OrientedCmp.eq_symm hother')))

end Mirrored

/-! ### Lists that match -/

section matching

variable {α β : Type}

theorem exists_of_forall₂ {R : α → β → Prop} {left : List α} {right : List β}
    (h : List.Forall₂ R left right) {a : α} (hmem : a ∈ left) : ∃ b ∈ right, R a b := by
  obtain ⟨i, hi, rfl⟩ := List.getElem_of_mem hmem
  have hlt : i < right.length := h.length_eq ▸ hi
  exact ⟨right[i], List.getElem_mem hlt, h.get hi hlt⟩

/-- What matches an entry above the first one is not the first one either. -/
theorem mem_tail_of_eq {cmp : K → K → Ordering} [Std.TransCmp cmp] {a b c d : K × V}
    {right : List (K × V)} (hheads : cmp a.1 b.1 = .eq) (habove : cmp a.1 c.1 = .lt)
    (heq : cmp c.1 d.1 = .eq) (hmem : d ∈ b :: right) : d ∈ right := by
  rcases List.mem_cons.mp hmem with rfl | hmem
  · have hsame := Std.TransCmp.eq_trans hheads (Std.OrientedCmp.eq_symm heq)
    rw [habove] at hsame
    contradiction
  · exact hmem

/-- Ascending lists with matching entries match entry by entry. -/
theorem Ascending.forall₂ {cmp : K → K → Ordering} [Std.TransCmp cmp]
    {R : K × V → K × V → Prop} (hR : ∀ left right, R left right → cmp left.1 right.1 = .eq)
    {left right : List (K × V)} (hleft : Ascending cmp left) (hright : Ascending cmp right)
    (hto : ∀ a ∈ left, ∃ b ∈ right, R a b) (hfrom : ∀ b ∈ right, ∃ a ∈ left, R a b) :
    List.Forall₂ R left right := by
  induction left generalizing right with
  | nil =>
      cases right with
      | nil => exact .nil
      | cons b right =>
          obtain ⟨a, hmem, -⟩ := hfrom b (List.mem_cons_self ..)
          exact absurd hmem List.not_mem_nil
  | cons a left ih =>
      cases right with
      | nil =>
          obtain ⟨b, hmem, -⟩ := hto a (List.mem_cons_self ..)
          exact absurd hmem List.not_mem_nil
      | cons b right =>
          obtain ⟨hfirst, hleft'⟩ := List.pairwise_cons.mp hleft
          obtain ⟨hfirst', hright'⟩ := List.pairwise_cons.mp hright
          -- Each list begins with its least entry, so the first entries match each other.
          have hheads : R a b := by
            obtain ⟨b', hb', hab'⟩ := hto a (List.mem_cons_self ..)
            obtain ⟨a', ha', ha'b⟩ := hfrom b (List.mem_cons_self ..)
            rcases List.mem_cons.mp hb' with rfl | hb'
            · exact hab'
            · rcases List.mem_cons.mp ha' with rfl | ha'
              · exact ha'b
              · have habove : cmp b.1 a.1 = .lt :=
                  Std.TransCmp.lt_of_lt_of_eq (hfirst' b' hb') (Std.OrientedCmp.eq_symm (hR a b' hab'))
                have hbelow : cmp a.1 b.1 = .lt :=
                  Std.TransCmp.lt_of_lt_of_eq (hfirst a' ha') (hR a' b ha'b)
                rw [Std.OrientedCmp.gt_of_lt hbelow] at habove
                contradiction
          refine .cons hheads (ih hleft' hright' (fun c hc => ?_) fun d hd => ?_)
          · obtain ⟨d, hd, hcd⟩ := hto c (List.mem_cons_of_mem a hc)
            exact ⟨d, mem_tail_of_eq (hR a b hheads) (hfirst c hc) (hR c d hcd) hd, hcd⟩
          · obtain ⟨c, hc, hcd⟩ := hfrom d (List.mem_cons_of_mem b hd)
            exact ⟨c, mem_tail_of_eq (Std.OrientedCmp.eq_symm (hR a b hheads)) (hfirst' d hd)
              (Std.OrientedCmp.eq_symm (hR c d hcd)) hc, hcd⟩

theorem beq_iff_forall₂ [BEq α] {left right : List α} :
    (left == right) = true ↔ List.Forall₂ (fun a b => (a == b) = true) left right := by
  induction left generalizing right with
  | nil => cases right <;> simp
  | cons a left ih => cases right <;> simp [ih]

end matching

end Multiway
