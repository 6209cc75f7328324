import Multiway.Tree.Shape

/-!
A place in a shape.

An operation on a tree works on one node and must say what becomes of the rest. The rest is a path:
for every node above, innermost first, what stands to the left and to the right of the child that
the path goes through. `plug` puts a shape back into a path. An operation then is a function of a
path and the shape in front of it, and it leaves alone what it passes on untouched.

In a node every child but one can be paired with an entry: those left of the gap with the entry on
their right, the others with the entry on their left. So a `Gap` is two lists of pairs, and there is
no gap whose entries and children do not fit together. Both lists begin next to the gap, which is
where neighbours lend to one another and are merged.
-/

namespace Multiway

variable {α β γ : Type}

/-- What surrounds one child of a node. -/
structure Gap (α β : Type) where
  /-- The children to the left, nearest first, each with the entry on its right. -/
  before : List (β × α) := []
  /-- The children to the right, nearest first, each with the entry on its left. -/
  behind : List (α × β) := []

namespace Gap

/-- The entries to the left of the gap. -/
def low (g : Gap α β) : List α := (g.before.map Prod.snd).reverse

/-- The entries to the right of the gap. -/
def high (g : Gap α β) : List α := g.behind.map Prod.fst

/-- The entries of the node. -/
def entries (g : Gap α β) : List α := g.low ++ g.high

/-- The children of the node when some children stand in the gap. -/
def around (g : Gap α β) (children : List β) : List β :=
  (g.before.map Prod.fst).reverse ++ children ++ g.behind.map Prod.snd

/-- The position of the gap among the children. -/
def position (g : Gap α β) : Nat := g.before.length

/-- The same gap with other children. -/
def map (f : β → γ) (g : Gap α β) : Gap α γ :=
  ⟨g.before.map (Prod.map f id), g.behind.map (Prod.map id f)⟩

/-- The gap at a position among children. -/
def ofPosition (position : Nat) (entries : List α) (children : List β) : Gap α β :=
  ⟨((children.take position).zip (entries.take position)).reverse,
    (entries.drop position).zip (children.drop (position + 1))⟩

@[simp] theorem length_low (g : Gap α β) : g.low.length = g.position := by
  simp [low, position]

theorem length_entries (g : Gap α β) :
    g.entries.length = g.before.length + g.behind.length := by
  simp [entries, low, high]

@[simp] theorem length_around (g : Gap α β) (children : List β) :
    (g.around children).length = g.entries.length + children.length := by
  rw [length_entries]
  simp only [around, List.length_append, List.length_reverse, List.length_map]
  omega

@[simp] theorem getElem?_around (g : Gap α β) (child : β) (children : List β) :
    (g.around (child :: children))[g.position]? = some child := by
  rw [around, List.append_assoc, List.getElem?_append_right (by simp [position])]
  simp [position]

@[simp] theorem low_map (f : β → γ) (g : Gap α β) : (g.map f).low = g.low := by
  simp [low, map]

@[simp] theorem high_map (f : β → γ) (g : Gap α β) : (g.map f).high = g.high := by
  simp [high, map]

@[simp] theorem entries_map (f : β → γ) (g : Gap α β) : (g.map f).entries = g.entries := by
  simp [entries]

@[simp] theorem position_map (f : β → γ) (g : Gap α β) : (g.map f).position = g.position := by
  simp [position, map]

theorem around_map (f : β → γ) (g : Gap α β) (children : List β) :
    (g.map f).around (children.map f) = (g.around children).map f := by
  simp [around, map, Function.comp_def]

/-! A neighbour of the gap and the entry beside it may as well stand in the gap. -/

section neighbours

variable {before : List (β × α)} {behind : List (α × β)} (child : β) (entry : α) (children : List β)

theorem entries_cons_before : (Gap.mk ((child, entry) :: before) behind).entries =
    (Gap.mk before behind).low ++ entry :: (Gap.mk before behind).high := by
  simp [entries, low, high]

theorem entries_cons_behind : (Gap.mk before ((entry, child) :: behind)).entries =
    (Gap.mk before behind).low ++ entry :: (Gap.mk before behind).high := rfl

theorem around_cons_before : (Gap.mk ((child, entry) :: before) behind).around children =
    (Gap.mk before behind).around (child :: children) := by
  simp [around]

theorem around_cons_behind : (Gap.mk before ((entry, child) :: behind)).around children =
    (Gap.mk before behind).around (children ++ [child]) := by
  simp [around]

end neighbours

/-- Around any position between the ends of a node that branches, the entries and the children are
those of the gap there. -/
theorem ofPosition_eq {position : Nat} {entries : List α} {children : List β} {child : β}
    (hlength : children.length = entries.length + 1) (hchild : children[position]? = some child) :
    (ofPosition position entries children).entries = entries ∧
      (ofPosition position entries children).around [child] = children ∧
      (ofPosition position entries children).position = position := by
  obtain ⟨hlt, hget⟩ := List.getElem?_eq_some_iff.mp hchild
  have hbefore : (children.take position).length = (entries.take position).length := by
    simp only [List.length_take]
    omega
  have hbehind : (entries.drop position).length = (children.drop (position + 1)).length := by
    simp only [List.length_drop]
    omega
  have hlow : (ofPosition position entries children).low = entries.take position := by
    simp only [low, ofPosition, List.map_reverse, List.reverse_reverse]
    exact List.map_snd_zip (Nat.le_of_eq hbefore.symm)
  have hhigh : (ofPosition position entries children).high = entries.drop position := by
    exact List.map_fst_zip (Nat.le_of_eq hbehind)
  refine ⟨?_, ?_, ?_⟩
  · rw [Gap.entries, hlow, hhigh, List.take_append_drop]
  · simp only [around, ofPosition, List.map_reverse, List.reverse_reverse]
    rw [List.map_fst_zip (Nat.le_of_eq hbefore), List.map_snd_zip (Nat.le_of_eq hbehind.symm),
      ← hget, List.append_assoc, List.singleton_append, List.getElem_cons_drop,
      List.take_append_drop]
  · rw [← length_low, hlow, List.length_take]
    omega

/-- A gap is known from its position and the node around it. -/
theorem ofPosition_around (g : Gap α β) (child : β) :
    ofPosition g.position g.entries (g.around [child]) = g := by
  have hbefore : (g.around [child]).take g.position = g.before.reverse.map Prod.fst := by
    simp [around, position]
  have hlow : g.entries.take g.position = g.before.reverse.map Prod.snd := by
    simp [entries, low, position]
  have hhigh : g.entries.drop g.position = g.behind.map Prod.fst := by
    simp [entries, low, high, position]
  have hbehind : (g.around [child]).drop (g.position + 1) = g.behind.map Prod.snd := by
    simp [around, position, List.drop_append]
  rw [ofPosition, hbefore, hlow, hhigh, hbehind, ← List.zip_of_prod rfl rfl,
    ← List.zip_of_prod rfl rfl, List.reverse_reverse]

theorem map_ofPosition (f : β → γ) (position : Nat) (entries : List α) (children : List β) :
    (ofPosition position entries children).map f = ofPosition position entries (children.map f) := by
  simp only [map, ofPosition, List.map_reverse, ← List.map_take, ← List.map_drop]
  rw [List.zip_map_left, List.zip_map_right]

end Gap

namespace Shape

/-- The entries of the topmost node. -/
def entries : Shape α → List α
  | .node entries _ => entries

/-- The shapes below the topmost node. -/
def children : Shape α → List (Shape α)
  | .node _ children => children

@[simp] theorem entries_node (entries : List α) (children : List (Shape α)) :
    (node entries children).entries = entries := rfl

@[simp] theorem children_node (entries : List α) (children : List (Shape α)) :
    (node entries children).children = children := rfl

@[simp] theorem node_entries_children (s : Shape α) : node s.entries s.children = s := by
  cases s
  rfl

/-! ### Paths

A path lists the gaps from the innermost one to that of the topmost node. What a path adds to the
entries of the shape in front of it stands on its two sides, so whatever keeps the entries of that
shape keeps the entries of all. -/

/-- The node around a gap. -/
def fill (g : Gap α (Shape α)) (s : Shape α) : Shape α := .node g.entries (g.around [s])

/-- A shape put back into the path that leads to it. -/
def plug : List (Gap α (Shape α)) → Shape α → Shape α
  | [], s => s
  | g :: path, s => plug path (fill g s)

/-- The entries in front of what stands in a gap, with those of the children there. -/
def lead (g : Gap α (Shape α)) : List α :=
  g.before.reverse.flatMap fun (child, entry) => child.toList ++ [entry]

/-- The entries behind what stands in a gap, with those of the children there. -/
def trail (g : Gap α (Shape α)) : List α :=
  g.behind.flatMap fun (entry, child) => entry :: child.toList

/-- The entries in front of the end of a path. -/
def leads : List (Gap α (Shape α)) → List α
  | [] => []
  | g :: path => leads path ++ lead g

/-- The entries behind the end of a path. -/
def trails : List (Gap α (Shape α)) → List α
  | [] => []
  | g :: path => trail g ++ trails path

@[simp] theorem entries_fill (g : Gap α (Shape α)) (s : Shape α) :
    (fill g s).entries = g.entries := rfl

@[simp] theorem children_fill (g : Gap α (Shape α)) (s : Shape α) :
    (fill g s).children = g.around [s] := rfl

theorem plug_append (path up : List (Gap α (Shape α))) (s : Shape α) :
    plug (path ++ up) s = plug up (plug path s) := by
  induction path generalizing s with
  | nil => rfl
  | cons g path ih => exact ih (fill g s)

theorem leads_append (path up : List (Gap α (Shape α))) :
    leads (path ++ up) = leads up ++ leads path := by
  induction path with
  | nil => simp [leads]
  | cons g path ih => simp [leads, ih]

theorem trails_append (path up : List (Gap α (Shape α))) :
    trails (path ++ up) = trails path ++ trails up := by
  induction path with
  | nil => simp [trails]
  | cons g path ih => simp [trails, ih]

theorem toList_node (entries : List α) (children : List (Shape α)) :
    (node entries children).toList = interleave children entries := by
  rw [toList]

theorem interleave_nil (entries : List α) : interleave [] entries = entries := by
  rw [interleave]

theorem interleave_pairs (pairs : List (Shape α × α)) (children : List (Shape α))
    (entries : List α) :
    interleave (pairs.map Prod.fst ++ children) (pairs.map Prod.snd ++ entries) =
      pairs.flatMap (fun (child, entry) => child.toList ++ [entry]) ++
        interleave children entries := by
  induction pairs with
  | nil => rfl
  | cons pair pairs ih =>
      simp only [List.map_cons, List.cons_append, List.flatMap_cons, interleave, ih]
      simp

theorem interleave_cons_pairs (child : Shape α) (pairs : List (α × Shape α)) :
    interleave (child :: pairs.map Prod.snd) (pairs.map Prod.fst) =
      child.toList ++ pairs.flatMap fun (entry, child) => entry :: child.toList := by
  induction pairs generalizing child with
  | nil => simp [interleave]
  | cons pair pairs ih =>
      simp only [List.map_cons, List.flatMap_cons, interleave, ih]
      simp

theorem toList_fill (g : Gap α (Shape α)) (s : Shape α) :
    (fill g s).toList = lead g ++ s.toList ++ trail g := by
  rw [fill, toList_node, Gap.around, Gap.entries, Gap.low, Gap.high, ← List.map_reverse,
    ← List.map_reverse, List.append_assoc, interleave_pairs, List.singleton_append,
    interleave_cons_pairs, ← List.append_assoc]
  rfl

theorem toList_plug (path : List (Gap α (Shape α))) (s : Shape α) :
    (plug path s).toList = leads path ++ s.toList ++ trails path := by
  induction path generalizing s with
  | nil => simp [plug, leads, trails]
  | cons g path ih =>
      rw [plug, ih, toList_fill, leads, trails]
      simp only [List.append_assoc]

theorem low_sublist_lead (g : Gap α (Shape α)) : g.low.Sublist (lead g) := by
  rw [Gap.low, lead, ← List.map_reverse]
  induction g.before.reverse with
  | nil => exact .slnil
  | cons pair pairs ih =>
      rw [List.map_cons, List.flatMap_cons, ← List.singleton_append]
      exact (List.sublist_append_right _ _).append ih

theorem high_sublist_trail (g : Gap α (Shape α)) : g.high.Sublist (trail g) := by
  rw [Gap.high, trail]
  induction g.behind with
  | nil => exact .slnil
  | cons pair pairs ih =>
      rw [List.map_cons, List.flatMap_cons, ← List.singleton_append]
      exact List.Sublist.append (List.singleton_sublist.mpr (by simp)) ih

theorem entries_sublist_toList (s : Shape α) : s.entries.Sublist s.toList := by
  obtain ⟨entries, children⟩ := s
  rw [toList_node, entries_node]
  induction children generalizing entries with
  | nil => simp only [interleave_nil, List.Sublist.refl]
  | cons child children ih =>
      cases entries with
      | nil => exact List.nil_sublist _
      | cons entry entries =>
          rw [interleave]
          exact ((ih entries).cons_cons entry).trans (List.sublist_append_right _ _)

theorem toList_sublist_interleave {children : List (Shape α)} {child : Shape α}
    (h : child ∈ children) (entries : List α) :
    child.toList.Sublist (interleave children entries) := by
  induction children generalizing entries with
  | nil => contradiction
  | cons first children ih =>
      cases entries with
      | nil =>
          rw [interleave]
          rcases List.mem_cons.mp h with rfl | h
          · exact List.sublist_append_left _ _
          · exact (ih h []).trans (List.sublist_append_right _ _)
      | cons entry entries =>
          rw [interleave]
          rcases List.mem_cons.mp h with rfl | h
          · exact List.sublist_append_left _ _
          · exact ((ih h entries).trans (List.sublist_cons_self entry _)).trans
              (List.sublist_append_right _ _)

/-- To prove something of all shapes it is enough to prove it of a node whose children have it. -/
theorem induct {motive : Shape α → Prop}
    (h : ∀ entries children, (∀ child ∈ children, motive child) → motive (.node entries children)) :
    ∀ s : Shape α, motive s
  | .node entries children => h entries children fun child _ => induct h child

end Shape

end Multiway
