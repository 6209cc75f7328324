import Multiway.Json.Document
import Multiway.Proofs.Run.Loading

/-!
Writing a tree and reading it back.

The text of a tree has its entries in order and nothing of its layout. To read it into another tree is
to insert the entries in turn, each behind all those before it, so the entries come back as they were,
whatever the two trees went through. The shape that results may differ from the one that was written,
but it is a normal form: it is the shape of a new tree of that order into which the entries go one after
the other, and reading the text again gives it again.

Not even the comparison matters to the normal form. An entry that goes behind all others is compared
with entries below it only, and any two orders under which the entries ascend agree on that.

How keys and values are written as text is not looked at here, so the codec may be any. That its reader
gets back what its writer wrote is assumed of the entries that are written.
-/

namespace Multiway

variable {K V : Type} {cmp other : K → K → Ordering} {f : Fanout}

/-! ### Storing in turn -/

namespace Shape

/-- Where a walk ends there is nothing that is not in the shape. -/
theorem mem_of_mem_walk {α : Type} {steer : List α → Option Nat} {s : Shape α}
    {path : List (Gap α (Shape α))} {entry : α} (h : entry ∈ (s.walk steer path).2.entries) :
    entry ∈ s.toList := by
  fun_induction walk steer path s with
  | case1 path entries children => exact (entries_sublist_toList (.node entries children)).subset h
  | case2 path entries children => exact (entries_sublist_toList (.node entries children)).subset h
  | case3 path entries children position hgo child hchild ih =>
      rw [toList_node]
      exact (toList_sublist_interleave (List.mem_of_getElem? hchild) entries).subset (ih h)

section congr

variable {key : K}

/-- A search asks only how the entries of the node compare with the key. -/
theorem search_congr {entries : List (K × V)}
    (h : ∀ entry ∈ entries, cmp entry.1 key = other entry.1 key) :
    search cmp key entries = search other key entries := by
  have hposition : entries.findIdx (fun entry => cmp entry.1 key != .lt) =
      entries.findIdx (fun entry => other entry.1 key != .lt) := by
    induction entries with
    | nil => rfl
    | cons entry entries ih =>
        rw [List.findIdx_cons, List.findIdx_cons, h entry (List.mem_cons_self ..),
          ih fun other hmem => h other (List.mem_cons_of_mem _ hmem)]
  rw [search, search, Node.search, Node.search]
  dsimp only
  rw [hposition]
  cases hentry : entries[entries.findIdx fun entry => other entry.1 key != .lt]? with
  | none => rfl
  | some entry =>
      dsimp only
      rw [h entry (List.mem_of_getElem? hentry)]

theorem steerTo_congr {entries : List (K × V)}
    (h : ∀ entry ∈ entries, cmp entry.1 key = other entry.1 key) :
    steerTo cmp key entries = steerTo other key entries := by
  rw [steerTo, steerTo, search_congr h]

theorem entries_agree {entries : List (K × V)} {children : List (Shape (K × V))}
    (h : ∀ entry ∈ (node entries children).toList, cmp entry.1 key = other entry.1 key) :
    ∀ entry ∈ entries, cmp entry.1 key = other entry.1 key :=
  fun entry hmem => h entry ((entries_sublist_toList (.node entries children)).subset hmem)

/-- So does the way down. -/
theorem walk_congr {s : Shape (K × V)} (path : List (Gap (K × V) (Shape (K × V))))
    (h : ∀ entry ∈ s.toList, cmp entry.1 key = other entry.1 key) :
    s.walk (steerTo cmp key) path = s.walk (steerTo other key) path := by
  fun_induction walk (steerTo cmp key) path s with
  | case1 path entries children hstop =>
      rw [walk_node, ← steerTo_congr (entries_agree h), hstop]
  | case2 path entries children position hgo hchild =>
      rw [walk_node, ← steerTo_congr (entries_agree h), hgo]
      dsimp only
      rw [hchild]
  | case3 path entries children position hgo child hchild ih =>
      rw [walk_node, ← steerTo_congr (entries_agree h), hgo]
      dsimp only
      rw [hchild]
      refine ih fun entry hmem => h entry ?_
      rw [toList_node]
      exact (toList_sublist_interleave (List.mem_of_getElem? hchild) entries).subset hmem

theorem search_walk_congr {s : Shape (K × V)}
    (h : ∀ entry ∈ s.toList, cmp entry.1 key = other entry.1 key) :
    search cmp key (s.walk (steerTo other key) []).2.entries =
      search other key (s.walk (steerTo other key) []).2.entries :=
  search_congr fun entry hmem => h entry (mem_of_mem_walk hmem)

theorem revise_congr {s : Shape (K × V)} (change : V → V)
    (h : ∀ entry ∈ s.toList, cmp entry.1 key = other entry.1 key) :
    revise cmp key change s = revise other key change s := by
  rw [revise, revise, walk_congr [] h]
  dsimp only
  rw [search_walk_congr h]

/-- And so does storing. -/
theorem put_congr {s? : Option (Shape (K × V))} (f : Fanout) (value : V)
    (h : ∀ entry ∈ contents s?, cmp entry.1 key = other entry.1 key) :
    put f cmp key value s? = put f other key value s? := by
  cases s? with
  | none => rfl
  | some s =>
      rw [put, put, walk_congr [] h, revise_congr _ h]
      dsimp only
      rw [search_walk_congr h]

end congr

/-- Two orders under which the same entries ascend tell apart nothing that matters when the entries are
stored in turn. -/
theorem putAll_congr [Std.TransCmp cmp] {s? : Option (Shape (K × V))} {tall : Nat}
    {entries : List (K × V)} (hs : Stands f tall s?) (h : Ascending cmp (contents s? ++ entries))
    (h' : Ascending other (contents s? ++ entries)) :
    putAll f cmp entries s? = putAll f other entries s? := by
  induction entries generalizing s? tall with
  | nil => rfl
  | cons entry entries ih =>
      obtain ⟨key, value⟩ := entry
      obtain ⟨hlist, -, hbefore⟩ := List.pairwise_append.mp h
      obtain ⟨-, -, hbefore'⟩ := List.pairwise_append.mp h'
      have hagree : ∀ left ∈ contents s?, cmp left.1 key = other left.1 key := by
        intro left hleft
        rw [hbefore left hleft _ (List.mem_cons_self ..), hbefore' left hleft _ (List.mem_cons_self ..)]
      have hput := put_congr f value hagree
      obtain ⟨hstored, tall', hstands, -⟩ := put_spec hs hlist key value
      have hcontents : contents (some (put f cmp key value s?).1) = contents s? ++ [(key, value)] := by
        rw [List.append_cons] at h
        have hfront : Ascending cmp (contents s? ++ [(key, value)]) := (List.pairwise_append.mp h).1
        exact hstored.trans hfront.storeAll_eq_append
      rw [List.append_cons, ← hcontents] at h h'
      rw [putAll, putAll, ← hput]
      dsimp only
      rw [ih hstands h h']

end Shape

/-! ### Text and trees -/

namespace Tree

/-- Two trees have one shape, and they are drawn alike. -/
def LaidOutLike (t u : Tree K V) : Prop :=
  ∃ s?, t.shape = .ok s? ∧ u.shape = .ok s? ∧
    ∀ [Text.Printable K], ∃ drawing, t.render = .ok drawing ∧ u.render = .ok drawing

/-- A tree `v` that has taken over the entries of `t` from a text, and everything else from `u`. -/
structure Restored [Json.ObjectWriter K V] (cmp : K → K → Ordering) (t u : Tree K V)
    (entries : List (K × V)) (text : String) (v : Tree K V) : Prop where
  reachable : v.Reachable cmp
  order : v.order = u.order
  comparison : v.cmp = u.cmp
  capacity : v.arena.capacity = u.arena.capacity
  inOrder : v.inOrder = .ok entries
  toList : v.toList = .ok entries
  size : v.size = entries.length
  equal : ∀ [BEq K] [ReflBEq K] [BEq V] [ReflBEq V], v.equal t = .ok true
  text : v.toJson = .ok (.ok text)
  fresh : v.LikeFresh cmp u.order entries

variable {t u : Tree K V} {l? l?' : Option (Layout (K × V))}

/-- The text of a sound tree is the text of its entries. -/
theorem Sound.toJson_eq [Json.ObjectWriter K V] [Std.TransCmp t.cmp] (h : t.Sound l?) :
    t.toJson = .ok ((Json.writeMembers .compact (Shape.contents (l?.map Layout.shape))).mapError
      .undecodable) := by
  rw [toJson, written, h.toList_eq]
  rfl

theorem Sound.toJson_eq_ok [Json.ObjectWriter K V] [Std.TransCmp t.cmp] (h : t.Sound l?)
    {text : String} : t.toJson = .ok (.ok text) ↔
      Json.writeMembers .compact (Shape.contents (l?.map Layout.shape)) = .ok text := by
  rw [h.toJson_eq, Except.ok.injEq, mapError_eq_ok]

/-- Two sound trees of one shape are laid out alike. -/
theorem Sound.laidOutLike (h : t.Sound l?) (h' : u.Sound l?')
    (hshape : l?.map Layout.shape = l?'.map Layout.shape) : t.LaidOutLike u := by
  have hlook := h.shape_eq
  have hlook' := h'.shape_eq
  rw [← hshape] at hlook'
  exact ⟨_, hlook, hlook', exists_render hlook hlook'⟩

/-- Loading ascending entries into any tree whatever. -/
theorem exists_loaded [Json.ObjectReader K V] [Std.TransCmp u.cmp]
    {entries : List (K × V)} {text : String} (hread : Json.readMembers text = .ok entries)
    (hlist : Ascending u.cmp entries) :
    ∃ v l? events, u.replaceFromJson text = .ok ⟨.ok (), v, events⟩ ∧ v.Sound l? ∧ Alike u v ∧
      l?.map Layout.shape = (Shape.putAll u.fanout u.cmp entries none).1 ∧
      Shape.contents (l?.map Layout.shape) = entries := by
  have hreplace := u.replaceFromJson_eq (K := K) (V := V) text
  rw [hread] at hreplace
  obtain ⟨v, l?, hstep, hv, hshape, hcontents, halike⟩ := hreplace
  exact ⟨v, l?, _, hstep, hv, halike, hshape, hcontents.trans hlist.storeAll_eq_append⟩

/-- Trees with the same entries have the same text. -/
theorem Reachable.toJson_congr [Json.ObjectWriter K V] (hcmp : Consistent cmp)
    (hother : Consistent other) (ht : t.Reachable cmp) (hu : u.Reachable other)
    (h : u.inOrder = t.inOrder) : u.toJson = t.toJson := by
  have := hcmp.transCmp
  have := hother.transCmp
  obtain ⟨l?, hsound, rfl⟩ := ht.sound
  obtain ⟨l?', hsound', rfl⟩ := hu.sound
  rw [hsound.inOrder_eq, hsound'.inOrder_eq] at h
  rw [hsound.toJson_eq, hsound'.toJson_eq, Except.ok.inj h]

/-- What is written of a tree that can be reached, read into another one. -/
theorem Reachable.restored [Json.ObjectWriter K V] [Json.ObjectReader K V]
    (hcmp : Consistent cmp) (ht : t.Reachable cmp) (hu : u.Reachable cmp) {entries : List (K × V)} (hentries : t.inOrder = .ok entries) (hreads : Json.ReadsBack entries)
    {text : String} (htext : t.toJson = .ok (.ok text)) :
    Ascending cmp entries ∧
      ∃ v l? events, u.replaceFromJson text = .ok ⟨.ok (), v, events⟩ ∧ v.Sound l? ∧
        l?.map Layout.shape = (Shape.putAll u.fanout cmp entries none).1 ∧
        Restored cmp t u entries text v := by
  have := hcmp.transCmp
  obtain ⟨l?, hsound, hsame⟩ := ht.sound
  obtain ⟨-, -, rfl⟩ := hu.sound
  have : Std.TransCmp t.cmp := hsame ▸ hcmp.transCmp
  obtain rfl := Except.ok.inj (hsound.inOrder_eq.symm.trans hentries)
  have hlist : Ascending u.cmp (Shape.contents (l?.map Layout.shape)) := hsame ▸ hsound.ascending
  have hwrite := hsound.toJson_eq_ok.mp htext
  obtain ⟨v, m?, events, hstep, hv, halike, hshape, hcontents⟩ :=
    exists_loaded (hreads text hwrite) hlist
  have := halike.transCmp
  refine ⟨hlist, v, m?, events, hstep, hv, hshape, ?_⟩
  constructor
  case reachable =>
    have hperform : u.perform (.replaceFromJson text) = .ok ⟨.outcome (.ok ()), v, events⟩ := by
      rw [Tree.perform, hstep]
      rfl
    exact hu.perform hperform
  case order => exact congrArg Fanout.order halike.fanout
  case comparison => exact halike.cmp
  case capacity => exact halike.capacity
  case inOrder => rw [hv.inOrder_eq, hcontents]
  case toList => rw [hv.toList_eq, hcontents]
  case size => rw [hv.size_eq, hcontents]
  case equal =>
    intros
    rw [hv.equal_eq hsound, hcontents, BEq.rfl]
  case text => rw [hv.toJson_eq_ok, hcontents, hwrite]
  case fresh =>
    rw [← halike.fanout, ← halike.cmp] at hshape
    have hfresh := hv.likeFresh hshape
    rwa [halike.cmp, Tree.order, halike.fanout] at hfresh

end Tree

/-- A tree that can be reached is written and read into another one of the same comparison, of whatever
order and contents. It takes over the entries and keeps all else, it is equal to the tree that was
written, and it is written in the same way. To read the same text once more changes nothing in it.
How it is laid out depends on its order and on the entries only, and not even on the comparison: a tree
of another comparison with the same entries has the same text, and read into any tree of the same order
and of that comparison the text gives the same layout. -/
theorem replaceFromJson_toJson [Json.ObjectWriter K V] [Json.ObjectReader K V]
    (hcmp : Consistent cmp) {t u : Tree K V} (ht : t.Reachable cmp) (hu : u.Reachable cmp) {entries : List (K × V)} (hentries : t.inOrder = .ok entries)
    (hreads : Json.ReadsBack entries) {text : String} (htext : t.toJson = .ok (.ok text)) :
    ∃ v events, u.replaceFromJson text = .ok ⟨.ok (), v, events⟩ ∧
      Tree.Restored cmp t u entries text v ∧
      (∃ w events', v.replaceFromJson text = .ok ⟨.ok (), w, events'⟩ ∧
        Tree.Restored cmp t v entries text w ∧ v.LaidOutLike w) ∧
      ∀ (other : K → K → Ordering) (t' u' : Tree K V), Consistent other → t'.Reachable other →
        u'.Reachable other → t'.inOrder = .ok entries → u'.order = u.order →
        t'.toJson = .ok (.ok text) ∧
        ∃ v' events', u'.replaceFromJson text = .ok ⟨.ok (), v', events'⟩ ∧
          Tree.Restored other t' u' entries text v' ∧ v.LaidOutLike v' := by
  have := hcmp.transCmp
  obtain ⟨hlist, v, l?, events, hstep, hv, hshape, hrestored⟩ :=
    ht.restored hcmp hu hentries hreads htext
  refine ⟨v, events, hstep, hrestored, ?_, ?_⟩
  · obtain ⟨-, w, l?', events', hstep', hw, hshape', hrestored'⟩ :=
      ht.restored hcmp hrestored.reachable hentries hreads htext
    rw [Fanout.eq_of_order hrestored.order, ← hshape] at hshape'
    exact ⟨w, events', hstep', hrestored', hv.laidOutLike hw hshape'.symm⟩
  · intro other t' u' hother ht' hu' hentries' horder
    have htext' : t'.toJson = .ok (.ok text) :=
      (ht.toJson_congr hcmp hother ht' (hentries'.trans hentries.symm)).trans htext
    obtain ⟨hlist', v', l?', events', hstep', hv', hshape', hrestored'⟩ :=
      ht'.restored hother hu' hentries' hreads htext'
    have hempty : Shape.Stands u.fanout 0 (none : Option (Shape (K × V))) := rfl
    have hsame := Shape.putAll_congr hempty hlist hlist'
    rw [Fanout.eq_of_order horder, ← hsame, ← hshape] at hshape'
    exact ⟨htext', v', events', hstep', hrestored', hv.laidOutLike hv' hshape'.symm⟩

/-- Keys are told apart by their last digits. A tree of order 3 with two levels is written and read into
one of order 5 that has another entry, where one level is enough. The same entries ascend where keys are
compared by what they lack to 100, and they are laid out in the same way. -/
theorem replaceFromJson_toJson_digits :
    Consistent (compareOn fun key : UInt8 => key % 10) ∧
      Consistent (compareOn fun key : UInt8 => 100 - key) ∧
      ∃ t u t' u' : Tree UInt8 UInt8, t.Reachable (compareOn (· % 10)) ∧
        u.Reachable (compareOn (· % 10)) ∧ t'.Reachable (compareOn (100 - ·)) ∧
        u'.Reachable (compareOn (100 - ·)) ∧ t.height = .ok 2 ∧ u.inOrder = .ok [(7, 0)] ∧
        t.inOrder = .ok [(21, 10), (12, 20), (3, 30)] ∧
        t'.inOrder = .ok [(21, 10), (12, 20), (3, 30)] ∧ u'.order = u.order ∧
        Json.ReadsBack ([(21, 10), (12, 20), (3, 30)] : List (UInt8 × UInt8)) ∧
        t.toJson = .ok (.ok "\x7b\"21\":10,\"12\":20,\"3\":30\x7d") ∧
        ∃ v events v' events', u.replaceFromJson "\x7b\"21\":10,\"12\":20,\"3\":30\x7d" =
            .ok ⟨.ok (), v, events⟩ ∧
          v.order = 5 ∧ v.inOrder = .ok [(21, 10), (12, 20), (3, 30)] ∧ v.equal t = .ok true ∧
          u'.replaceFromJson "\x7b\"21\":10,\"12\":20,\"3\":30\x7d" = .ok ⟨.ok (), v', events'⟩ ∧
          v.LaidOutLike v' := by
  have hcmp : Consistent (compareOn fun key : UInt8 => key % 10) := Consistent.of_transCmp
  have hother : Consistent (compareOn fun key : UInt8 => 100 - key) := Consistent.of_transCmp
  obtain ⟨t, ht, hheight, hentries, htext⟩ : ∃ t : Tree UInt8 UInt8,
      t.Reachable (compareOn (· % 10)) ∧ t.height = .ok 2 ∧
        t.inOrder = .ok [(21, 10), (12, 20), (3, 30)] ∧
        t.toJson = .ok (.ok "\x7b\"21\":10,\"12\":20,\"3\":30\x7d") :=
    ⟨_, ⟨.order 2, _, [.insert 12 20, .insert 21 10, .insert 3 30], _, _, rfl, rfl⟩, rfl,
      by decide +kernel, by decide +kernel⟩
  obtain ⟨u, hu, horder, hstale⟩ : ∃ u : Tree UInt8 UInt8, u.Reachable (compareOn (· % 10)) ∧
      u.order = 5 ∧ u.inOrder = .ok [(7, 0)] :=
    ⟨_, ⟨.order 5, _, [.insert 7 0], _, _, rfl, rfl⟩, rfl, rfl⟩
  obtain ⟨t', ht', hentries'⟩ : ∃ t' : Tree UInt8 UInt8, t'.Reachable (compareOn (100 - ·)) ∧
      t'.inOrder = .ok [(21, 10), (12, 20), (3, 30)] :=
    ⟨_, ⟨.order 2, _, [.insert 3 30, .insert 12 20, .insert 21 10], _, _, rfl, rfl⟩,
      by decide +kernel⟩
  obtain ⟨u', hu', horder'⟩ : ∃ u' : Tree UInt8 UInt8, u'.Reachable (compareOn (100 - ·)) ∧
      u'.order = 5 := ⟨_, ⟨.order 5, _, [], _, _, rfl, rfl⟩, rfl⟩
  have hreads : Json.ReadsBack ([(21, 10), (12, 20), (3, 30)] : List (UInt8 × UInt8)) := by
    have hwrite : Json.writeMembers .compact ([(21, 10), (12, 20), (3, 30)] :
        List (UInt8 × UInt8)) = .ok "\x7b\"21\":10,\"12\":20,\"3\":30\x7d" := by
      decide +kernel
    have hread : (Json.readMembers "\x7b\"21\":10,\"12\":20,\"3\":30\x7d" :
        Except Json.Failure (List (UInt8 × UInt8))) = .ok [(21, 10), (12, 20), (3, 30)] := by
      decide +kernel
    intro text htext
    obtain rfl := Except.ok.inj (htext.symm.trans hwrite)
    exact hread
  obtain ⟨v, events, hstep, hrestored, -, hlayout⟩ :=
    replaceFromJson_toJson hcmp ht hu hentries hreads htext
  have hsame : u'.order = u.order := horder'.trans horder.symm
  obtain ⟨-, v', events', hstep', -, halike⟩ :=
    hlayout (compareOn (100 - ·)) t' u' hother ht' hu' hentries' hsame
  exact ⟨hcmp, hother, t, u, t', u', ht, hu, ht', hu', hheight, hstale, hentries, hentries', hsame,
    hreads, htext, v, events, v', events', hstep, hrestored.order.trans horder, hrestored.inOrder,
    hrestored.equal, hstep', halike⟩

end Multiway
