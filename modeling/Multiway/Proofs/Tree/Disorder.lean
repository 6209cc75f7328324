import Multiway.Proofs.Run.Reference
import Multiway.Proofs.Tree.Audit
import Multiway.Proofs.Tree.Valid

/-!
Auditing under another order.

An audit compares few keys: the neighbours inside a node, the first key of a node with the separator on
its left, and the last one with the separator on its right. The separators may come from many levels
above, and two entries that follow one another in the whole tree need never be compared. Nevertheless
the audit misses nothing. To see it, a tree that is sound under its own order is audited under any other
one, which leaves every rule in force except those about the order of the entries.

The separators left and right of a subtree bound an interval, in which the subtree is orderly if its
entries ascend and stay inside. An entry cuts the interval in two, and lists that are orderly in the two
parts are orderly together with the entry between them. This is how an audit goes down from a node to its
children, and why it suffices that each child is orderly in its own part.
-/

namespace Multiway

variable {K V : Type} {cmp : K → K → Ordering} {height : Nat}

/-! ### Neighbours and intervals -/

/-- In a consistent order it suffices to compare neighbours. -/
theorem ascending_iff_isChain [Std.TransCmp cmp] {entries : List (K × V)} :
    Ascending cmp entries ↔ entries.IsChain fun left right => cmp left.1 right.1 = .lt := by
  have : IsTrans (K × V) fun left right => cmp left.1 right.1 = .lt :=
    ⟨fun _ _ _ => Std.TransCmp.lt_trans⟩
  exact List.isChain_iff_pairwise.symm

theorem Node.isAscending_iff [Std.TransCmp cmp] {node : Node K V} :
    node.isAscending cmp = true ↔ Ascending cmp node.entries :=
  isAscending_iff_isChain.trans ascending_iff_isChain.symm

namespace Tree

/-- Entries that ascend between two keys. -/
structure Orderly (cmp : K → K → Ordering) (lower upper : Option K) (entries : List (K × V)) :
    Prop where
  ascending : Ascending cmp entries
  within : Within cmp lower upper entries

theorem orderly_none {entries : List (K × V)} :
    Orderly cmp none none entries ↔ Ascending cmp entries :=
  ⟨Orderly.ascending, fun h => ⟨h, fun _ _ => ⟨nofun, nofun⟩⟩⟩

/-- Among entries that ascend, the first and the last one stay inside for all others. -/
theorem within_iff_ends [Std.TransCmp cmp] {lower upper : Option K} {entries : List (K × V)}
    (h : Ascending cmp entries) :
    Within cmp lower upper entries ↔
      (∀ low ∈ lower, ∀ first ∈ entries.head?, cmp low first.1 = .lt) ∧
        ∀ high ∈ upper, ∀ last ∈ entries.getLast?, cmp last.1 high = .lt := by
  constructor
  · intro hwithin
    exact ⟨fun low hlow first hfirst => (hwithin first (List.mem_of_mem_head? hfirst)).1 low hlow,
      fun high hhigh last hlast => (hwithin last (List.mem_of_mem_getLast? hlast)).2 high hhigh⟩
  · rintro ⟨hlower, hupper⟩ entry hmem
    refine ⟨fun low hlow => ?_, fun high hhigh => ?_⟩
    · cases entries with
      | nil => contradiction
      | cons first entries =>
          have hfirst := hlower low hlow first rfl
          rcases List.mem_cons.mp hmem with rfl | hmem
          · exact hfirst
          · exact Std.TransCmp.lt_trans hfirst ((List.pairwise_cons.mp h).1 entry hmem)
    · rcases List.eq_nil_or_concat entries with rfl | ⟨front, last, rfl⟩
      · contradiction
      · rw [List.concat_eq_append] at h hupper hmem
        have hlast := hupper high hhigh last List.getLast?_concat
        rcases List.mem_append.mp hmem with hmem | hmem
        · obtain ⟨-, -, hbefore⟩ := List.pairwise_append.mp h
          exact Std.TransCmp.lt_trans (hbefore entry hmem last (List.mem_singleton.mpr rfl)) hlast
        · obtain rfl := List.mem_singleton.mp hmem
          exact hlast

/-- An entry cuts an interval, and what is orderly in the two parts is orderly in the whole. -/
theorem Orderly.append_cons [Std.TransCmp cmp] {lower upper : Option K} {front back : List (K × V)}
    {entry : K × V} (hfront : Orderly cmp lower (some entry.1) front)
    (hback : Orderly cmp (some entry.1) upper back)
    (hlower : ∀ low ∈ lower, cmp low entry.1 = .lt)
    (hupper : ∀ high ∈ upper, cmp entry.1 high = .lt) :
    Orderly cmp lower upper (front ++ entry :: back) := by
  have hbelow : ∀ left ∈ front, cmp left.1 entry.1 = .lt :=
    fun left hleft => (hfront.within left hleft).2 entry.1 rfl
  have habove : ∀ right ∈ back, cmp entry.1 right.1 = .lt :=
    fun right hright => (hback.within right hright).1 entry.1 rfl
  constructor
  case ascending =>
    refine List.pairwise_append.mpr
      ⟨hfront.ascending, List.pairwise_cons.mpr ⟨habove, hback.ascending⟩, ?_⟩
    intro left hleft right hright
    rcases List.mem_cons.mp hright with rfl | hright
    · exact hbelow left hleft
    · exact Std.TransCmp.lt_trans (hbelow left hleft) (habove right hright)
  case within =>
    intro other hmem
    rcases List.mem_append.mp hmem with hmem | hmem
    · exact ⟨(hfront.within other hmem).1, fun high hhigh =>
        Std.TransCmp.lt_trans (hbelow other hmem) (hupper high hhigh)⟩
    · rcases List.mem_cons.mp hmem with rfl | hmem
      · exact ⟨hlower, hupper⟩
      · exact ⟨fun low hlow => Std.TransCmp.lt_trans (hlower low hlow) (habove other hmem),
          (hback.within other hmem).2⟩

/-! ### What an audit objects to -/

/-- What there is to see in a tree when an audit reports a broken rule about the order of entries. The
other rules are not about the order, and nothing is said of them. -/
inductive Exhibits (t : Tree K V) : Violation → Prop
  | unsorted {v : Visit K V} (h : t.Visited v) (hlist : ¬ Ascending t.cmp v.node.entries) :
      Exhibits t (.unsorted v.id)
  | belowSeparator {v : Visit K V} {separator first : K × V} (h : t.Visited v)
      (hlow : v.low.getLast? = some separator) (hfirst : v.node.entries.head? = some first)
      (hcmp : t.cmp separator.1 first.1 ≠ .lt) : Exhibits t (.belowSeparator v.id)
  | aboveSeparator {v : Visit K V} {separator last : K × V} (h : t.Visited v)
      (hhigh : v.high.head? = some separator) (hlast : v.node.entries.getLast? = some last)
      (hcmp : t.cmp last.1 separator.1 ≠ .lt) : Exhibits t (.aboveSeparator v.id)

variable {t : Tree K V}

theorem demand_of_not {rule : Bool} (violation : Violation) (h : rule = false) :
    Audit.demand rule violation = throw violation := by
  rw [Audit.demand, h]
  rfl

/-- A node whose own entries are not orderly is reported. -/
theorem auditNode_objects [Std.TransCmp t.cmp] {v : Visit K V} (hv : t.Visited v)
    (hparent : v.node.parent = v.parent)
    (hsize : t.fanout.Allows v.parent.isNone v.node.entries.length)
    (h : ¬ Orderly t.cmp (lowerBound v.low) (upperBound v.high) v.node.entries) :
    ∃ violation, t.Exhibits violation ∧
      t.auditNode v.id v.node v.parent (lowerBound v.low) (upperBound v.high) = throw violation := by
  have hsize : (if v.parent.isNone then 1 else t.fanout.fewestEntries) ≤ v.node.entries.length ∧
      v.node.entries.length ≤ t.fanout.mostEntries := hsize
  rw [auditNode]
  simp only [demand_eq _ (decide_eq_true hparent), demand_eq _ (decide_eq_true hsize), pure_bind]
  by_cases hlist : Ascending t.cmp v.node.entries
  case neg =>
    have hcheck : v.node.isAscending t.cmp = false := by
      rw [Bool.eq_false_iff]
      exact fun hcheck => hlist (Node.isAscending_iff.mp hcheck)
    rw [demand_of_not _ hcheck]
    exact ⟨_, .unsorted hv hlist, rfl⟩
  rw [demand_eq _ (Node.isAscending_iff.mpr hlist), pure_bind]
  -- The entries ascend, so one of the two ends is outside; the one on the left is looked at first.
  by_cases hlower : ∀ low ∈ lowerBound v.low, ∀ first ∈ v.node.entries.head?,
      t.cmp low first.1 = .lt
  case neg =>
    push Not at hlower
    obtain ⟨low, hlow, first, hfirst, hcmp⟩ := hlower
    obtain ⟨separator, hseparator, rfl⟩ := Option.map_eq_some_iff.mp hlow
    rw [hlow, hfirst]
    dsimp only
    rw [demand_of_not _ (decide_eq_false hcmp)]
    exact ⟨_, .belowSeparator hv hseparator hfirst hcmp, rfl⟩
  have hupper : ¬ ∀ high ∈ upperBound v.high, ∀ last ∈ v.node.entries.getLast?,
      t.cmp last.1 high = .lt :=
    fun hupper => h ⟨hlist, (within_iff_ends hlist).mpr ⟨hlower, hupper⟩⟩
  push Not at hupper
  obtain ⟨high, hhigh, last, hlast, hcmp⟩ := hupper
  obtain ⟨separator, hseparator, rfl⟩ := Option.map_eq_some_iff.mp hhigh
  refine ⟨_, .aboveSeparator hv hseparator hlast hcmp, ?_⟩
  rw [hhigh, hlast]
  dsimp only
  rw [demand_of_not _ (decide_eq_false hcmp)]
  split
  · next low first heq =>
      obtain ⟨hlow, hfirst⟩ := Prod.mk.inj heq
      rw [demand_eq _ (decide_eq_true (hlower low hlow first hfirst))]
      rfl
  · rfl

/-- What an audit does in a subtree that is not orderly between the entries around it, if the leaves
before it are as deep as its own. -/
def Objects (t : Tree K V) (fuel height depth : Nat) (parent : Option NodeId) (l : Layout (K × V))
    (low high : List (K × V)) : Prop :=
  ¬ Orderly t.cmp (lowerBound low) (upperBound high) l.shape.toList →
    ∀ tally, (∀ leafDepth ∈ tally.leafDepth, leafDepth = depth + height) →
      ∃ violation, t.Exhibits violation ∧
        t.auditFrom fuel l.slot parent depth (lowerBound low) (upperBound high) tally =
          throw violation

/-- The children in front of the first one that is not orderly pass, and then that one is reported. If
all were orderly, their entries would be orderly together with those of the node. -/
theorem auditChildren_objects [Std.TransCmp t.cmp] {fuel depth : Nat} {slot : NodeId}
    (parent : Option NodeId) {entries low high : List (K × V)} {children : List (Layout (K × V))}
    {tally : Tally} (hlength : children.length = entries.length + 1)
    (hpasses : ∀ child ∈ children, Ascending t.cmp child.shape.toList →
      t.Passes fuel height depth (some slot) child)
    (hobjects : ∀ position child, children[position]? = some child →
      t.Objects fuel height depth (some slot) child (low ++ entries.take position)
        (entries.drop position ++ high))
    (hnode : Orderly t.cmp (lowerBound low) (upperBound high) entries)
    (h : ¬ Orderly t.cmp (lowerBound low) (upperBound high)
      (Shape.interleave (children.map Layout.shape) entries))
    (hdepth : ∀ leafDepth ∈ tally.leafDepth, leafDepth = depth + height) :
    ∃ violation, t.Exhibits violation ∧
      (bracketed ⟨entries, children.map Layout.slot, parent⟩ (lowerBound low)
        (upperBound high)).foldlM (fun tally (child, lower, upper) =>
          t.auditFrom fuel child (some slot) depth lower upper tally) tally =
        (throw violation : Audit Tally) := by
  -- What is left of the remaining children grows by an entry with each child that passes.
  induction entries generalizing children low tally with
  | nil =>
      obtain ⟨child, rfl⟩ := List.length_eq_one_iff.mp hlength
      rw [List.map_singleton, Shape.interleave, Shape.interleave_nil, List.append_nil] at h
      have hchild := hobjects 0 child rfl
      rw [List.take_nil, List.append_nil, List.drop_nil, List.nil_append] at hchild
      obtain ⟨violation, hexhibits, hthrow⟩ := hchild h tally hdepth
      refine ⟨violation, hexhibits, ?_⟩
      rw [List.map_singleton, bracketed_singleton, List.foldlM_cons]
      simp only [hthrow]
      rfl
  | cons entry entries ih =>
      obtain ⟨child, children, rfl⟩ := List.exists_cons_of_length_eq_add_one hlength
      have hfirst : t.Objects fuel height depth (some slot) child low (entry :: entries ++ high) := by
        have hchild := hobjects 0 child rfl
        rwa [List.take_zero, List.append_nil, List.drop_zero] at hchild
      have hupper : upperBound (entry :: entries ++ high) = some entry.1 := rfl
      rw [List.map_cons, bracketed_cons, List.foldlM_cons]
      by_cases horderly : Orderly t.cmp (lowerBound low) (some entry.1) child.shape.toList
      case neg =>
        obtain ⟨violation, hexhibits, hthrow⟩ := hfirst (hupper ▸ horderly) tally hdepth
        refine ⟨violation, hexhibits, ?_⟩
        rw [hupper] at hthrow
        simp only [hthrow]
        rfl
      have hcheck := hpasses child (List.mem_cons_self ..) horderly.ascending _ _ tally
        horderly.within hdepth
      simp only [hcheck, pure_bind]
      rw [← lowerBound_concat low entry]
      obtain ⟨habove, hentries⟩ := List.pairwise_cons.mp hnode.ascending
      apply ih (Nat.succ.inj hlength) (fun other hmem => hpasses other (List.mem_cons_of_mem _ hmem))
      case hobjects =>
        intro position other hother
        have hchild := hobjects (position + 1) other hother
        rwa [List.take_succ_cons, List.append_cons, List.drop_succ_cons] at hchild
      case hnode =>
        refine ⟨hentries, fun other hmem => ⟨?_, ?_⟩⟩
        · rw [lowerBound_concat]
          rintro key ⟨⟩
          exact habove other hmem
        · exact (hnode.within other (List.mem_cons_of_mem _ hmem)).2
      case h =>
        rw [lowerBound_concat]
        intro hrest
        obtain ⟨hlower, hupper⟩ := hnode.within entry (List.mem_cons_self ..)
        rw [List.map_cons, Shape.interleave] at h
        exact h (horderly.append_cons hrest hlower hupper)
      case hdepth =>
        rintro leafDepth ⟨⟩
        rfl

/-- A subtree is reported when its topmost node is. -/
theorem auditFrom_objects [Std.TransCmp t.cmp] {l : Layout (K × V)} {parent : Option NodeId}
    {depth : Nat} {low high : List (K × V)} (fuel : Nat) (tally : Tally)
    (h : t.arena.Reads (l.cells parent)) (hsize : t.fanout.Allows parent.isNone l.entries.length)
    (hv : t.Visited
      ⟨l.slot, ⟨l.entries, l.children.map Layout.slot, parent⟩, parent, depth, low, high⟩)
    (hnode : ¬ Orderly t.cmp (lowerBound low) (upperBound high) l.entries) :
    ∃ violation, t.Exhibits violation ∧
      t.auditFrom (fuel + 1) l.slot parent depth (lowerBound low) (upperBound high) tally =
        throw violation := by
  obtain ⟨violation, hexhibits, hthrow⟩ := auditNode_objects hv rfl hsize hnode
  refine ⟨violation, hexhibits, ?_⟩
  rw [auditFrom, h.node]
  show (t.auditNode l.slot _ parent _ _ >>= fun _ => _) = _
  rw [hthrow]
  rfl

/-- A regular subtree that is not orderly is reported, whatever was counted before it. -/
theorem objects_of_reads [Std.TransCmp t.cmp] {l : Layout (K × V)} {parent : Option NodeId}
    {fuel depth : Nat} {low high : List (K × V)} (h : t.arena.Reads (l.cells parent))
    (hl : l.shape.Regular t.fanout height)
    (hsize : t.fanout.Allows parent.isNone l.entries.length) (hfuel : height < fuel)
    (hv : t.Visited
      ⟨l.slot, ⟨l.entries, l.children.map Layout.slot, parent⟩, parent, depth, low, high⟩) :
    t.Objects fuel height depth parent l low high := by
  induction height generalizing l parent fuel depth low high with
  | zero =>
      obtain ⟨fuel, rfl⟩ : ∃ rest, fuel = rest + 1 := ⟨fuel - 1, by omega⟩
      intro hlist tally hdepth
      rw [Layout.toList_of_leaf (Layout.leaf_of_level hl.level)] at hlist
      exact auditFrom_objects fuel tally h hsize hv hlist
  | succ height ih =>
      obtain ⟨fuel, rfl⟩ : ∃ rest, fuel = rest + 1 := ⟨fuel - 1, by omega⟩
      intro hlist tally hdepth
      by_cases hnode : Orderly t.cmp (lowerBound low) (upperBound high) l.entries
      case neg => exact auditFrom_objects fuel tally h hsize hv hnode
      obtain ⟨slot, entries, children⟩ := l
      have hlength : children.length = entries.length + 1 := Layout.length_of_level hl.level
      have hpasses : ∀ child ∈ children, Ascending t.cmp child.shape.toList →
          t.Passes fuel height (depth + 1) (some slot) child := by
        intro child hmem hascending
        obtain ⟨hregular, hallows⟩ := Layout.regular_child hl hmem
        exact passes_of_reads (h.child hmem) hregular hallows hascending (by omega)
      have hobjects : ∀ position child, children[position]? = some child →
          t.Objects fuel height (depth + 1) (some slot) child (low ++ entries.take position)
            (entries.drop position ++ high) := by
        intro position child hget
        have hmem := List.mem_of_getElem? hget
        obtain ⟨hregular, hallows⟩ := Layout.regular_child hl hmem
        have hslot : (children.map Layout.slot)[position]? = some child.slot := by
          rw [List.getElem?_map, hget]
          rfl
        exact ih (h.child hmem) hregular hallows (by omega) (.child hv hslot (h.child hmem).node)
      have hseen : ∀ leafDepth ∈ (Tally.mk tally.leafDepth (tally.entries + entries.length)
          (tally.nodes + 1)).leafDepth, leafDepth = depth + 1 + height := by
        intro leafDepth hmem
        rw [hdepth leafDepth hmem]
        omega
      rw [Layout.shape_node, Shape.toList_node] at hlist
      obtain ⟨violation, hexhibits, hfold⟩ :=
        auditChildren_objects parent hlength hpasses hobjects hnode hlist hseen
      refine ⟨violation, hexhibits, ?_⟩
      have hcheck : t.auditNode slot ⟨entries, children.map Layout.slot, parent⟩ parent
          (lowerBound low) (upperBound high) = pure () :=
        auditNode_eq rfl hsize hnode.ascending hnode.within
      exact (auditFrom_inner fuel depth tally h hlength hcheck).trans hfold

/-- A tree that holds a regular layout is reported if the entries there do not ascend. -/
theorem Holds.audit_objects [Std.TransCmp t.cmp] {l : Layout (K × V)} (h : t.Holds (some l))
    (hl : l.shape.Sound t.fanout height) (hlist : ¬ Ascending t.cmp l.shape.toList) :
    ∃ violation, t.Exhibits violation ∧ t.audit = .ok (.error violation) := by
  have hallows : t.fanout.Allows true l.entries.length := by
    rw [← Layout.entries_shape]
    exact hl.2
  have hobjects : t.Objects t.bound height 0 none l [] [] :=
    objects_of_reads h.stores.reads hl.1 hallows (h.height_lt hl.1.level) (.root h.root h.stores.reads.node)
  obtain ⟨violation, hexhibits, hthrow⟩ :=
    hobjects (fun horderly => hlist (orderly_none.mp horderly)) {} nofun
  refine ⟨violation, hexhibits, ?_⟩
  have hrun : t.auditFrom t.bound l.slot none 0 none none {} = throw violation := hthrow
  rw [audit, auditAll, h.root]
  simp only [Option.map_some, hrun]
  rfl

end Tree

/-- Another consistent order may be put in place of the one under which a tree was built. An audit then
reports nothing if and only if the entries ascend under the other order, for which it is enough that each
one is below the next. What it reports otherwise can be seen in a node that is visited. -/
theorem audit_iff_ascending {cmp other : K → K → Ordering} (hcmp : Consistent cmp)
    (hother : Consistent other) {t : Tree K V} (h : t.Reachable cmp) :
    ∃ entries verdict, t.inOrder = .ok entries ∧
      ({ t with cmp := other } : Tree K V).audit = .ok verdict ∧
      (verdict = .ok () ↔ Ascending other entries) ∧
      (Ascending other entries ↔ entries.IsChain fun left right => other left.1 right.1 = .lt) ∧
      ∀ violation, verdict = .error violation →
        ({ t with cmp := other } : Tree K V).Exhibits violation := by
  have := hcmp.transCmp
  have := hother.transCmp
  obtain ⟨l?, hsound, -⟩ := h.sound
  have hholds : ({ t with cmp := other } : Tree K V).Holds l? :=
    ⟨hsound.holds.stores, hsound.holds.root⟩
  by_cases hlist : Ascending other (Shape.contents (l?.map Layout.shape))
  case pos =>
    have haudit := Tree.Sound.audit_eq ⟨hholds, hsound.stands, hlist, hsound.size_eq⟩
    exact ⟨_, .ok (), hsound.inOrder_eq, haudit, iff_of_true rfl hlist, ascending_iff_isChain, nofun⟩
  cases l? with
  | none => exact absurd .nil hlist
  | some l =>
      obtain ⟨tall, height, -, hshape⟩ := hsound.stands
      obtain ⟨violation, hexhibits, haudit⟩ := hholds.audit_objects hshape hlist
      refine ⟨_, .error violation, hsound.inOrder_eq, haudit, iff_of_false nofun hlist,
        ascending_iff_isChain, ?_⟩
      rintro _ ⟨⟩
      exact hexhibits

/-- Under their remainders by three, keys 1 and 2 still ascend and key 3 comes first. It stands in a leaf
of its own, below the node of key 2, and that is reported. -/
theorem audit_iff_ascending_remainders :
    Consistent (compare : Nat → Nat → Ordering) ∧
      Consistent (compareOn fun key : Nat => key % 3) ∧
      ∃ t : Tree Nat Nat, t.Reachable compare ∧ t.height = .ok 2 ∧
        t.inOrder = .ok [(1, 10), (2, 20), (3, 30)] ∧
        ∃ violation, ({ t with cmp := compareOn (· % 3) } : Tree Nat Nat).audit =
            .ok (.error violation) ∧
          ({ t with cmp := compareOn (· % 3) } : Tree Nat Nat).Exhibits violation := by
  have hcmp : Consistent (compare : Nat → Nat → Ordering) := Consistent.of_transCmp
  have hother : Consistent (compareOn fun key : Nat => key % 3) := Consistent.of_transCmp
  obtain ⟨t, hreach, hheight, hentries⟩ : ∃ t : Tree Nat Nat, t.Reachable compare ∧
      t.height = .ok 2 ∧ t.inOrder = .ok [(1, 10), (2, 20), (3, 30)] :=
    ⟨_, ⟨.order 2, _, [.insert 2 20, .insert 1 10, .insert 3 30], _, _, rfl, rfl⟩, rfl,
      by decide +kernel⟩
  refine ⟨hcmp, hother, t, hreach, hheight, hentries, ?_⟩
  obtain ⟨entries, verdict, hlist, haudit, hverdict, hchain, hexhibits⟩ :=
    audit_iff_ascending hcmp hother hreach
  obtain rfl := Except.ok.inj (hlist.symm.trans hentries)
  cases verdict with
  | error violation => exact ⟨violation, haudit, hexhibits violation rfl⟩
  | ok _ =>
      have hpairs := hchain.mp (hverdict.mp rfl)
      rw [List.isChain_cons_cons, List.isChain_cons_cons] at hpairs
      have hlast : compareOn (· % 3) 2 3 = Ordering.lt := hpairs.2.1
      contradiction

end Multiway
