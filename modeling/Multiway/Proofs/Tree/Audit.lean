import Multiway.Proofs.Tree.Holding
import Multiway.Tree.Audit

/-!
Auditing a sound tree.

An audit of a sound tree finds nothing to report, and it does not fail. What it has counted at the
end of a subtree are the entries and the nodes there, which at the root are the numbers that the tree
keeps. The induction is on the height; within a node it is on the children together with the
entries, since each child stands between two neighbouring separators.
-/

namespace Multiway

variable {K V : Type} {f : Fanout} {height : Nat}

namespace Node

/-- The check of a node compares exactly its neighbours. -/
theorem isAscending_iff_isChain {cmp : K → K → Ordering} {node : Node K V} :
    node.isAscending cmp = true ↔
      node.entries.IsChain fun left right => cmp left.1 right.1 = .lt := by
  rw [isAscending]
  induction node.entries with
  | nil => simp
  | cons first entries ih =>
      cases entries with
      | nil => simp
      | cons second entries =>
          rw [List.isChain_cons_cons, ← ih]
          simp

theorem isAscending_of_ascending {cmp : K → K → Ordering} {node : Node K V}
    (h : Ascending cmp node.entries) : node.isAscending cmp = true :=
  isAscending_iff_isChain.mpr h.isChain

end Node

namespace Tree

variable {t : Tree K V}

/-- The key of the entry that is next to a node on its left, on the way to it. -/
def lowerBound (low : List (K × V)) : Option K := low.getLast?.map Prod.fst

/-- The key of the entry that is next to a node on its right, on the way to it. -/
def upperBound (high : List (K × V)) : Option K := high.head?.map Prod.fst

theorem lowerBound_concat (low : List (K × V)) (entry : K × V) :
    lowerBound (low ++ [entry]) = some entry.1 := by
  rw [lowerBound, List.getLast?_concat]
  rfl

/-- All entries lie between two keys, each of which may be missing. -/
def Within (cmp : K → K → Ordering) (lower upper : Option K) (entries : List (K × V)) : Prop :=
  ∀ entry ∈ entries, (∀ key ∈ lower, cmp key entry.1 = .lt) ∧ ∀ key ∈ upper, cmp entry.1 key = .lt

theorem demand_eq {rule : Bool} (violation : Violation) (h : rule = true) :
    Audit.demand rule violation = pure () := if_pos h

theorem bracketed_cons (child : NodeId) (children : List NodeId) (entry : K × V)
    (entries : List (K × V)) (parent : Option NodeId) (lower upper : Option K) :
    bracketed ⟨entry :: entries, child :: children, parent⟩ lower upper =
      (child, lower, some entry.1) :: bracketed ⟨entries, children, parent⟩ (some entry.1) upper :=
  rfl

theorem bracketed_singleton (child : NodeId) (parent : Option NodeId) (lower upper : Option K) :
    bracketed (⟨[], [child], parent⟩ : Node K V) lower upper = [(child, lower, upper)] := rfl

theorem auditNode_eq {id : NodeId} {node : Node K V} {parent : Option NodeId}
    {lower upper : Option K} (hparent : node.parent = parent)
    (hsize : t.fanout.Allows parent.isNone node.entries.length)
    (hlist : Ascending t.cmp node.entries) (hwithin : Within t.cmp lower upper node.entries) :
    t.auditNode id node parent lower upper = pure () := by
  have hsize : (if parent.isNone then 1 else t.fanout.fewestEntries) ≤ node.entries.length ∧
      node.entries.length ≤ t.fanout.mostEntries := hsize
  have hbelow : ∀ low entry, (lower, node.entries.head?) = (some low, some entry) →
      decide (t.cmp low entry.1 = .lt) = true := by
    intro low entry heq
    obtain ⟨hlower, hhead⟩ := Prod.mk.inj heq
    exact decide_eq_true ((hwithin entry (List.mem_of_mem_head? hhead)).1 low hlower)
  have habove : ∀ high entry, (upper, node.entries.getLast?) = (some high, some entry) →
      decide (t.cmp entry.1 high = .lt) = true := by
    intro high entry heq
    obtain ⟨hupper, hlast⟩ := Prod.mk.inj heq
    exact decide_eq_true ((hwithin entry (List.mem_of_mem_getLast? hlast)).2 high hupper)
  rw [auditNode]
  simp only [demand_eq _ (decide_eq_true hparent), demand_eq _ (decide_eq_true hsize),
    demand_eq _ (Node.isAscending_of_ascending hlist), pure_bind]
  split
  · next low entry heq =>
      rw [demand_eq _ (hbelow low entry heq), pure_bind]
      split
      · next high last heq' => exact demand_eq _ (habove high last heq')
      · rfl
  · split
    · next high last heq' => exact demand_eq _ (habove high last heq')
    · rfl

/-- What an audit counts in a subtree whose leaves are so far below. -/
def Passes (t : Tree K V) (fuel height depth : Nat) (parent : Option NodeId) (l : Layout (K × V)) :
    Prop :=
  ∀ lower upper tally, Within t.cmp lower upper l.shape.toList →
    (∀ leafDepth ∈ tally.leafDepth, leafDepth = depth + height) →
    t.auditFrom fuel l.slot parent depth lower upper tally =
      pure ⟨some (depth + height), tally.entries + l.shape.toList.length,
        tally.nodes + (l.cells parent).card⟩

/-- Each child lies between the separators beside it, and what is found there adds up. -/
theorem auditChildren_eq {fuel depth : Nat} {slot : NodeId} (parent : Option NodeId)
    {entries : List (K × V)} {children : List (Layout (K × V))} {lower upper : Option K}
    {tally : Tally} (hlength : children.length = entries.length + 1)
    (hpasses : ∀ child ∈ children, t.Passes fuel height depth (some slot) child)
    (hlist : Ascending t.cmp (Shape.interleave (children.map Layout.shape) entries))
    (hwithin : Within t.cmp lower upper (Shape.interleave (children.map Layout.shape) entries))
    (hdepth : ∀ leafDepth ∈ tally.leafDepth, leafDepth = depth + height) :
    ∃ counted, (bracketed ⟨entries, children.map Layout.slot, parent⟩ lower upper).foldlM
        (fun tally (child, lower, upper) =>
          t.auditFrom fuel child (some slot) depth lower upper tally) tally =
      (pure ⟨some (depth + height), counted,
        tally.nodes + (Layout.allCells (some slot) children).card⟩ : Audit Tally) ∧
      counted + entries.length =
        tally.entries + (Shape.interleave (children.map Layout.shape) entries).length := by
  -- The first separator bounds the first child from above and all the others from below.
  induction entries generalizing children lower tally with
  | nil =>
      obtain ⟨child, rfl⟩ := List.length_eq_one_iff.mp hlength
      rw [List.map_singleton, Shape.interleave, Shape.interleave_nil, List.append_nil] at hwithin
      refine ⟨_, ?_, rfl⟩
      rw [List.map_singleton, List.map_singleton, bracketed_singleton, List.foldlM_cons]
      simp only [hpasses child (List.mem_cons_self ..) lower upper tally hwithin hdepth, pure_bind]
      rw [Shape.interleave, Shape.interleave_nil, List.append_nil, Layout.allCells_cons,
        Layout.allCells_nil, add_zero]
      rfl
  | cons entry entries ih =>
      obtain ⟨child, children, rfl⟩ := List.exists_cons_of_length_eq_add_one hlength
      rw [List.map_cons, Shape.interleave] at hlist hwithin
      obtain ⟨-, hbehind, hbefore⟩ := List.pairwise_append.mp hlist
      obtain ⟨habove, hrest⟩ := List.pairwise_cons.mp hbehind
      have hchild : Within t.cmp lower (some entry.1) child.shape.toList := by
        intro other hmem
        refine ⟨(hwithin other (List.mem_append_left _ hmem)).1, ?_⟩
        rintro key ⟨⟩
        exact hbefore other hmem entry (List.mem_cons_self ..)
      have hothers : Within t.cmp (some entry.1) upper
          (Shape.interleave (children.map Layout.shape) entries) := by
        intro other hmem
        refine ⟨?_, (hwithin other (List.mem_append_right _ (List.mem_cons_of_mem _ hmem))).2⟩
        rintro key ⟨⟩
        exact habove other hmem
      have hseen : ∀ leafDepth ∈ (Tally.mk (some (depth + height))
          (tally.entries + child.shape.toList.length)
          (tally.nodes + (child.cells (some slot)).card)).leafDepth, leafDepth = depth + height := by
        rintro leafDepth ⟨⟩
        rfl
      obtain ⟨counted, hfold, hcounted⟩ := ih (Nat.succ.inj hlength)
        (fun other hmem => hpasses other (List.mem_cons_of_mem _ hmem)) hrest hothers hseen
      refine ⟨counted, ?_, ?_⟩
      · rw [List.map_cons, bracketed_cons, List.foldlM_cons]
        simp only [hpasses child (List.mem_cons_self ..) lower (some entry.1) tally hchild hdepth,
          pure_bind]
        rw [hfold, Layout.allCells_cons, Multiset.card_add, Nat.add_assoc]
      · rw [List.map_cons, Shape.interleave, List.length_append, List.length_cons, List.length_cons]
        dsimp only at hcounted
        omega

theorem auditLayout_eq {l : Layout (K × V)} {parent : Option NodeId} {lower upper : Option K}
    (hsize : t.fanout.Allows parent.isNone l.entries.length)
    (hlist : Ascending t.cmp l.shape.toList) (hwithin : Within t.cmp lower upper l.shape.toList) :
    t.auditNode l.slot ⟨l.entries, l.children.map Layout.slot, parent⟩ parent lower upper =
      pure () := by
  have hsub := Shape.entries_sublist_toList l.shape
  rw [Layout.entries_shape] at hsub
  exact auditNode_eq rfl hsize (hlist.sublist hsub) fun entry hmem =>
    hwithin entry (hsub.subset hmem)

/-- A leaf counts itself, and its depth is the one that the leaves before it have. -/
theorem passes_leaf {l : Layout (K × V)} {parent : Option NodeId} (fuel depth : Nat)
    (h : t.arena.Reads (l.cells parent)) (hleaf : l.children = [])
    (hsize : t.fanout.Allows parent.isNone l.entries.length)
    (hlist : Ascending t.cmp l.shape.toList) : t.Passes (fuel + 1) 0 depth parent l := by
  intro lower upper tally hwithin hdepth
  have hcheck := auditLayout_eq hsize hlist hwithin
  have hcard : (l.cells parent).card = 1 := by
    rw [Layout.cells_eq, hleaf, Layout.allCells_nil, add_zero, Multiset.card_singleton]
  rw [auditFrom, h.node]
  show (t.auditNode l.slot _ parent lower upper >>= fun _ => _) = _
  rw [hcheck, pure_bind, Layout.toList_of_leaf hleaf, hcard, hleaf]
  cases hfirst : tally.leafDepth with
  | none => rfl
  | some leafDepth =>
      obtain rfl : leafDepth = depth := hdepth leafDepth hfirst
      show (Audit.demand (decide (leafDepth = leafDepth)) _ >>= fun _ => _) = _
      rw [demand_eq _ (decide_eq_true rfl), pure_bind]
      rfl

/-- At an inner node that is itself in order, the children are checked one after the other. -/
theorem auditFrom_inner {l : Layout (K × V)} {parent : Option NodeId} {lower upper : Option K}
    (fuel depth : Nat) (tally : Tally) (h : t.arena.Reads (l.cells parent))
    (hlength : l.children.length = l.entries.length + 1)
    (hcheck : t.auditNode l.slot ⟨l.entries, l.children.map Layout.slot, parent⟩ parent lower upper =
      pure ()) :
    t.auditFrom (fuel + 1) l.slot parent depth lower upper tally =
      (bracketed ⟨l.entries, l.children.map Layout.slot, parent⟩ lower upper).foldlM
        (fun tally (child, lower, upper) =>
          t.auditFrom fuel child (some l.slot) (depth + 1) lower upper tally)
        ⟨tally.leafDepth, tally.entries + l.entries.length, tally.nodes + 1⟩ := by
  have hlisted : (l.children.map Layout.slot).length = l.entries.length + 1 := by
    rw [List.length_map, hlength]
  have hinner := Layout.isLeaf_of_inner hlength parent
  rw [auditFrom, h.node]
  show (t.auditNode l.slot _ parent lower upper >>= fun _ => _) = _
  rw [hcheck, pure_bind]
  simp only [hinner, Bool.false_eq_true, if_false]
  rw [demand_eq _ (decide_eq_true hlisted), pure_bind]

/-- A regular subtree with ascending entries passes, whatever was counted before it. -/
theorem passes_of_reads {l : Layout (K × V)} {parent : Option NodeId} {fuel depth : Nat}
    (h : t.arena.Reads (l.cells parent)) (hl : l.shape.Regular t.fanout height)
    (hsize : t.fanout.Allows parent.isNone l.entries.length)
    (hlist : Ascending t.cmp l.shape.toList) (hfuel : height < fuel) :
    t.Passes fuel height depth parent l := by
  induction height generalizing l parent fuel depth with
  | zero =>
      obtain ⟨fuel, rfl⟩ : ∃ rest, fuel = rest + 1 := ⟨fuel - 1, by omega⟩
      exact passes_leaf fuel depth h (Layout.leaf_of_level hl.level) hsize hlist
  | succ height ih =>
      obtain ⟨fuel, rfl⟩ : ∃ rest, fuel = rest + 1 := ⟨fuel - 1, by omega⟩
      intro lower upper tally hwithin hdepth
      have hcheck := auditLayout_eq hsize hlist hwithin
      apply (auditFrom_inner fuel depth tally h (Layout.length_of_level hl.level) hcheck).trans
      obtain ⟨slot, entries, children⟩ := l
      have hlength : children.length = entries.length + 1 := Layout.length_of_level hl.level
      rw [Layout.shape_node, Shape.toList_node] at hlist hwithin
      have hpasses : ∀ child ∈ children, t.Passes fuel height (depth + 1) (some slot) child := by
        intro child hmem
        obtain ⟨hregular, hallows⟩ := Layout.regular_child hl hmem
        exact ih (h.child hmem) hregular hallows
          (hlist.sublist (Shape.toList_sublist_interleave (List.mem_map_of_mem hmem) entries))
          (by omega)
      have hseen : ∀ leafDepth ∈ (Tally.mk tally.leafDepth (tally.entries + entries.length)
          (tally.nodes + 1)).leafDepth, leafDepth = depth + 1 + height := by
        intro leafDepth hmem
        rw [hdepth leafDepth hmem]
        omega
      obtain ⟨counted, hfold, hcounted⟩ :=
        auditChildren_eq parent hlength hpasses hlist hwithin hseen
      apply hfold.trans
      rw [Layout.shape_node, Shape.toList_node, Layout.cells_node, Multiset.card_add,
        Multiset.card_singleton]
      have hdeeper : depth + 1 + height = depth + (height + 1) := by omega
      have htotal : counted =
          tally.entries + (Shape.interleave (children.map Layout.shape) entries).length := by
        dsimp only at hcounted
        omega
      rw [hdeeper, htotal, Nat.add_assoc tally.nodes]

/-- An audit of a sound tree goes through all of it and comes to the numbers that the tree keeps. -/
theorem Sound.auditFrom_eq {l : Layout (K × V)} (h : t.Sound (some l)) :
    ∃ leafDepth, t.auditFrom t.bound l.slot none 0 none none {} =
      pure ⟨some leafDepth, t.size, (l.cells none).card⟩ := by
  obtain ⟨tall, height, rfl, hsound⟩ := h.stands
  have hallows : t.fanout.Allows true l.entries.length := by
    rw [← Layout.entries_shape]
    exact hsound.2
  have hpasses : t.Passes t.bound height 0 none l :=
    passes_of_reads h.holds.stores.reads hsound.1 hallows h.ascending
      (h.holds.height_lt hsound.1.level)
  have hrun : t.auditFrom t.bound l.slot none 0 none none {} =
      pure ⟨some (0 + height), 0 + l.shape.toList.length, 0 + (l.cells none).card⟩ :=
    hpasses none none {} (fun _ _ => ⟨nofun, nofun⟩) nofun
  have hsize : t.size = l.shape.toList.length := h.size_eq
  rw [Nat.zero_add, Nat.zero_add, Nat.zero_add, ← hsize] at hrun
  exact ⟨height, hrun⟩

/-- An audit of a sound tree finds nothing. -/
theorem Sound.audit_eq {l? : Option (Layout (K × V))} (h : t.Sound l?) :
    t.audit = .ok (.ok ()) := by
  cases l? with
  | none =>
      rw [audit, auditAll, h.holds.root]
      have hsize : t.size = 0 := h.size_eq
      exact demand_eq _ (decide_eq_true hsize)
  | some l =>
      obtain ⟨leafDepth, hrun⟩ := h.auditFrom_eq
      have hlive : t.arena.live = .ok (l.cells none).card := h.holds.stores.live_eq
      rw [audit, auditAll, h.holds.root]
      simp only [Option.map_some, hrun, pure_bind, hlive]
      exact demand_eq _ (decide_eq_true rfl)

end Tree

end Multiway
