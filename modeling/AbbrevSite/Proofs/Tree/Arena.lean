import AbbrevSite.Proofs.Tree.Slots

/-! The table of nodes and the tree it stands for. Each operation on the table does to its rows what the operation of
the same name does to those of the tree, so a table grown row by row stands for a tree grown node by node, and going
through its links is going through the tree. -/
namespace AbbrevSite

namespace Arena

variable {a : Arena} {t : Tree} {id parent : Nat} {kind : Kind} {span : Span} {s : Slot} {x : Placed}
  {f : Forest}

/-- The tables that come from a root alone by adding nodes below nodes and moving what is below a node to after it. -/
inductive Grown : Arena → Prop where
  | new (kind : Kind) (span : Span) : Grown (.new kind span)
  | addChild {a : Arena} {parent : Nat} (kind : Kind) (span : Span) (h : Grown a) (hparent : parent < a.size) :
      Grown (a.addChild parent kind span)
  | hoistChildren {a : Arena} {id : Nat} (h : Grown a) (hid : id < a.size) : Grown (a.hoistChildren id)

/-- The table has the rows of the tree and no others. -/
structure Stores (a : Arena) (t : Tree) : Prop where
  size : a.size = t.size
  row : ∀ e ∈ t.slots, a.slots[e.1]? = some e.2

lemma getElem?_foldl_setParent (row : List Nat) (slots : Array Slot) (i : Nat) :
    (row.foldl (fun slots child => slots.modify child (.setParent parent)) slots)[i]? =
      slots[i]?.map fun s => if i ∈ row then s.setParent parent else s := by
  induction row generalizing slots with
  | nil => simp
  | cons child row ih =>
    rw [List.foldl_cons, ih, Array.getElem?_modify]
    by_cases hi : child = i
    · subst hi
      cases slots[child]? <;> simp [Slot.setParent]
    · simp [hi, Ne.symm hi]

lemma size_foldl_setParent (row : List Nat) (slots : Array Slot) :
    (row.foldl (fun slots child => slots.modify child (.setParent parent)) slots).size = slots.size := by
  induction row generalizing slots with
  | nil => rfl
  | cons child row ih => rw [List.foldl_cons, ih, Array.size_modify]

lemma getElem?_hoistChildren (hs : a.slots[id]? = some s) (hq : s.parent = some parent) (hne : id ≠ parent) (i : Nat) :
    (a.hoistChildren id).slots[i]? = a.slots[i]?.map (Slot.hoisted id parent s.children i) := by
  have hchildren : a.children id = s.children := by simp [children, hs]
  have hparent : a.slots[id]?.bind (·.parent) = some parent := by simp [hs, hq]
  rw [hoistChildren, hparent, hchildren]
  simp only [Array.getElem?_modify, getElem?_foldl_setParent]
  by_cases hi : id = i
  · subst hi
    by_cases hrow : id ∈ s.children <;> simp [hs, hne.symm, hrow, Slot.hoisted, Slot.disown, Slot.setParent]
  · by_cases hp : parent = i
    · subst hp
      cases a.slots[parent]? <;> by_cases hrow : parent ∈ s.children <;>
        simp [hi, hrow, Slot.hoisted, Slot.setParent, Slot.adopt, Ne.symm hi]
    · cases a.slots[i]? <;> by_cases hrow : i ∈ s.children <;>
        simp [hi, hp, hrow, Slot.hoisted, Slot.setParent, Ne.symm hi, Ne.symm hp]

lemma size_hoistChildren (a : Arena) (id : Nat) : (a.hoistChildren id).size = a.size := by
  rw [hoistChildren]
  split
  · rfl
  · simp [size, size_foldl_setParent]

lemma hoistChildren_of_parentless (h : a.slots[id]?.bind (·.parent) = none) : a.hoistChildren id = a := by
  rw [hoistChildren, h]

namespace Stores

lemma new (kind : Kind) (span : Span) : (Arena.new kind span).Stores (.new kind span) := by
  refine ⟨rfl, fun e he => ?_⟩
  obtain rfl := List.mem_singleton.1 he
  rfl

lemma addChild (h : a.Stores t) (ht : t.Numbered) (hparent : parent < a.size) :
    (a.addChild parent kind span).Stores (t.add parent kind span) := by
  have hlt : parent < t.size := h.size ▸ hparent
  have hperm := ht.slots_add hlt kind span
  rw [← h.size] at hperm
  refine ⟨?_, fun e he => ?_⟩
  · rw [← Tree.length_preorder, (ht.preorder_add hlt kind span).length_eq, List.length_cons, Tree.length_preorder,
      ← h.size]
    simp [Arena.addChild, Arena.size]
  · rw [hperm.mem_iff, List.mem_cons, List.mem_map] at he
    have hne : parent ≠ a.size := Nat.ne_of_lt hparent
    rw [Arena.addChild, Array.getElem?_modify, Array.getElem?_push]
    rcases he with rfl | ⟨e, he, rfl⟩
    · rw [if_neg hne, Arena.size, if_pos rfl]
    · have hrow := h.row e he
      have hlt : e.1 ≠ a.slots.size := Nat.ne_of_lt (Array.getElem?_eq_some_iff.1 hrow).1
      by_cases hp : parent = e.1
      · rw [if_pos hp, if_neg hlt, hrow, Option.map_some, if_pos hp.symm]
      · rw [if_neg hp, if_neg hlt, hrow, if_neg (Ne.symm hp)]

lemma slot_eq (h : a.Stores t) (hx : x ∈ t.placed) : a.slots[x.node.id]? = some x.slot :=
  h.row (x.node.id, x.slot) (Tree.mem_slots_iff.2 ⟨x, hx, rfl, rfl⟩)

theorem getElem?_eq (h : a.Stores t) (ht : t.Numbered) (id : Nat) : a.slots[id]? = (t.get? id).map Placed.slot := by
  by_cases hid : id < t.size
  · obtain ⟨x, hx⟩ := ht.exists_get? hid
    obtain ⟨hmem, rfl⟩ := ht.get?_eq_some_iff.1 hx
    rw [hx, h.slot_eq hmem, Option.map_some]
  · have hnone : t.get? id = none := by
      refine Option.eq_none_iff_forall_ne_some.2 fun x hx => hid ?_
      obtain ⟨hmem, rfl⟩ := ht.get?_eq_some_iff.1 hx
      exact ht.id_lt hmem
    rw [hnone, Array.getElem?_eq_none (h.size.trans_le (Nat.le_of_not_lt hid)), Option.map_none]

lemma exists_placed (h : a.Stores t) (ht : t.Numbered) (hs : a.slots[id]? = some s) :
    ∃ x ∈ t.placed, x.node.id = id ∧ x.slot = s := by
  rw [h.getElem?_eq ht, Option.map_eq_some_iff] at hs
  obtain ⟨x, hx, hs⟩ := hs
  obtain ⟨hmem, hid⟩ := ht.get?_eq_some_iff.1 hx
  exact ⟨x, hmem, hid, hs⟩

lemma hoistChildren (h : a.Stores t) (ht : t.Numbered) (hid : id < a.size) :
    (a.hoistChildren id).Stores (t.hoist id) := by
  refine ⟨by rw [size_hoistChildren, Tree.size_hoist, h.size], ?_⟩
  obtain ⟨x, hx, rfl, -⟩ := h.exists_placed ht (Array.getElem?_eq_getElem hid)
  have hs := h.slot_eq hx
  cases hparent : x.parent with
  | none =>
    have hroot : x.node.id = t.root.id := ((ht.parentless_iff hx).1 hparent).trans ht.root.symm
    rw [hoistChildren_of_parentless (by simp [hs, Placed.slot, hparent]), Tree.hoist, if_pos hroot]
    exact h.row
  | some p =>
    have hq : x.slot.parent = some p.id := by simp [Placed.slot, hparent]
    have hne : x.node.id ≠ p.id := (ht.parent_lt hx hparent).ne'
    intro e he
    rw [ht.slots_hoist (Tree.mem_slots_iff.2 ⟨x, hx, rfl, rfl⟩) hq, List.mem_map] at he
    obtain ⟨e, he, rfl⟩ := he
    rw [getElem?_hoistChildren hs hq hne, h.row e he]
    rfl

end Stores

theorem Grown.exists_stores (h : a.Grown) : ∃ t : Tree, t.Grown ∧ a.Stores t := by
  induction h with
  | new kind span => exact ⟨_, .new kind span, .new kind span⟩
  | addChild kind span _ hparent ih =>
    obtain ⟨t, ht, hstores⟩ := ih
    exact ⟨_, ht.add kind span (hstores.size ▸ hparent), hstores.addChild ht.numbered hparent⟩
  | hoistChildren _ hid ih =>
    obtain ⟨t, ht, hstores⟩ := ih
    exact ⟨_, ht.hoist (hstores.size ▸ hid), hstores.hoistChildren ht.numbered hid⟩

def Holds (a : Arena) (parent : Nat) (f : Forest) : Prop := ∀ e ∈ f.slots parent, a.slots[e.1]? = some e.2

lemma visitFrom_forest (h : a.Holds parent f) (turns depth : Nat) (pending : List (Nat × Nat)) :
    a.visitFrom (turns + f.size) (f.rootIds.map (depth, ·) ++ pending) =
      (a.visitFrom turns pending).map (f.levels depth ++ ·) := by
  induction f generalizing parent turns depth pending with
  | nil => simp [Forest.size, Forest.rootIds, Forest.roots, Forest.levels]
  | cons n inner next ih ih' =>
    have hinner : a.Holds n.id inner := fun e he => h e (List.mem_cons_of_mem _ (List.mem_append_left _ he))
    have hnext : a.Holds parent next := fun e he => h e (List.mem_cons_of_mem _ (List.mem_append_right _ he))
    have hhead := h _ List.mem_cons_self
    have hsize : turns + (Forest.cons n inner next).size = (turns + next.size + inner.size) + 1 := by
      rw [Forest.size]
      omega
    rw [hsize, Forest.rootIds_cons, List.map_cons, List.cons_append, visitFrom, hhead, Option.bind_eq_bind,
      Option.bind_some, ih hinner, ih' hnext]
    cases a.visitFrom turns pending <;> simp [Forest.levels]

namespace Stores

lemma holds (h : a.Stores t) : a.Holds t.root.id t.forest := fun e he => h.row e (List.mem_cons_of_mem _ he)

lemma visits?_eq (h : a.Stores t) (ht : t.Numbered) : a.visits? = some t.levels := by
  have hroot := h.row _ List.mem_cons_self
  have hforest := visitFrom_forest h.holds 0 1 []
  rw [List.append_nil, Nat.zero_add] at hforest
  rw [ht.root] at hroot
  rw [visits?, h.size, Tree.size, visitFrom, hroot, Option.bind_eq_bind, Option.bind_some, List.append_nil, hforest]
  simp [visitFrom, Tree.levels, ← ht.root]

lemma preorder?_eq (h : a.Stores t) (ht : t.Numbered) : a.preorder? = some (t.preorder.map (·.id)) := by
  rw [preorder?, h.visits?_eq ht, ← Tree.map_snd_levels]
  simp

theorem outline?_eq (h : a.Stores t) (ht : t.Numbered) : a.outline? = some t.outline := by
  rw [outline?, h.visits?_eq ht, Tree.outline_eq]
  rfl

lemma perm_slots (h : a.Stores t) (ht : t.Numbered) : a.slots.toList.Perm (t.slots.map Prod.snd) := by
  rw [← List.map_perm_map_iff (fun _ _ => Option.some.inj)]
  have hrows : t.slots.map (some ∘ Prod.snd) = (t.slots.map Prod.fst).map fun i => a.slots[i]? := by
    rw [List.map_map]
    exact List.map_congr_left fun e he => (h.row e he).symm
  have hall : a.slots.toList.map some = (List.range t.size).map fun i => a.slots[i]? := by
    rw [← h.size]
    refine List.ext_getElem (by simp [Arena.size]) fun i hi _ => ?_
    simp
  rw [hall, List.map_map, hrows, Tree.map_fst_slots]
  exact (ht.ids.map _).symm

lemma perm_children (h : a.Stores t) (ht : t.Numbered) :
    (a.slots.toList.flatMap (·.children)).Perm t.forest.ids := by
  have hplaced : t.slots.map Prod.snd = t.placed.map Placed.slot := by
    rw [← Tree.map_slot_placed, List.map_map]
    rfl
  refine ((h.perm_slots ht).flatMap_right _).trans ?_
  rw [hplaced, List.flatMap_map]
  have := (Tree.perm_children t).map (·.id)
  rwa [List.map_flatMap] at this

lemma count_children (h : a.Stores t) (ht : t.Numbered) (hid : id < a.size) :
    (a.slots.toList.flatMap (·.children)).count id = if id = 0 then 0 else 1 := by
  rw [(h.perm_children ht).count_eq]
  split_ifs with hroot
  · rw [List.count_eq_zero, hroot, ← ht.root]
    exact ht.root_notMem
  · exact List.count_eq_one_of_mem ht.nodup_forest (ht.mem_ids_forest (h.size ▸ hid) (ht.root ▸ hroot))

lemma nodup_children (h : a.Stores t) (ht : t.Numbered) (hs : a.slots[id]? = some s) : s.children.Nodup := by
  have hall : (a.slots.toList.flatMap (·.children)).Nodup := (h.perm_children ht).nodup_iff.2 ht.nodup_forest
  rw [List.nodup_flatMap] at hall
  exact hall.1 s (Array.mem_toList_iff.2 (Array.mem_of_getElem? hs))

lemma exists_child (h : a.Stores t) (ht : t.Numbered) (hs : a.slots[id]? = some s) {k child : Nat}
    (hk : s.children[k]? = some child) :
    ∃ r, a.slots[child]? = some r ∧ r.parent = some id ∧ a.nextSibling? child = s.children[k + 1]? := by
  obtain ⟨x, hx, rfl, rfl⟩ := h.exists_placed ht hs
  obtain ⟨n, hn, rfl⟩ : ∃ n, x.children[k]? = some n ∧ n.id = child := by
    simpa [Placed.slot, Option.map_eq_some_iff] using hk
  obtain ⟨y, hy, rfl, hparent, -⟩ := Tree.exists_child hx hn
  have hrow := h.slot_eq hy
  have hq : y.slot.parent = some x.node.id := by simp [Placed.slot, hparent]
  have hplace : x.slot.children.findIdx? (· == y.node.id) = some k := by
    obtain ⟨hlt, hget⟩ := List.getElem?_eq_some_iff.1 hk
    rw [List.findIdx?_eq_some_iff_getElem]
    refine ⟨hlt, by simpa using hget, fun j hj he => ?_⟩
    have he : x.slot.children[j] = x.slot.children[k] := by rw [hget]; simpa using he
    exact absurd ((h.nodup_children ht hs).getElem_inj_iff.1 he) hj.ne
  refine ⟨_, hrow, hq, ?_⟩
  simp [nextSibling?, children, hrow, hq, hs, hplace]

end Stores

/-- Nodes that hang together as a tree: a node other than the root stands once among the children of all nodes, namely
among those of its parent, whose number is smaller; each child in its turn has the one after it as its next sibling; and
going through the links, as for the outline, comes to every node once. -/
structure Linked (a : Arena) : Prop where
  parentless : ∀ (id : Nat) (s : Slot), a.slots[id]? = some s → (s.parent = none ↔ id = 0)
  parent : ∀ (id : Nat) (s : Slot) (p : Nat), a.slots[id]? = some s → s.parent = some p → p < id
  once : ∀ id < a.size, (a.slots.toList.flatMap (·.children)).count id = if id = 0 then 0 else 1
  child_iff : ∀ (i j : Nat) (r s : Slot), a.slots[i]? = some r → a.slots[j]? = some s →
    (j ∈ r.children ↔ s.parent = some i)
  next : ∀ (id : Nat) (s : Slot) (k child : Nat), a.slots[id]? = some s → s.children[k]? = some child →
    child < a.size ∧ a.nextSibling? child = s.children[k + 1]?
  visits : ∃ visits, a.visits? = some visits ∧ (visits.map (·.2.id)).Perm (List.range a.size) ∧
    a.outline? = some ("\n".intercalate (visits.map fun e => outlineLine e.1 e.2))

lemma Stores.linked (h : a.Stores t) (ht : t.Numbered) : a.Linked where
  parentless id s hs := by
    obtain ⟨x, hx, rfl, rfl⟩ := h.exists_placed ht hs
    rw [← ht.parentless_iff hx, Placed.slot, Option.map_eq_none_iff]
  parent id s p hs hp := by
    obtain ⟨x, hx, rfl, rfl⟩ := h.exists_placed ht hs
    rw [Placed.slot, Option.map_eq_some_iff] at hp
    obtain ⟨n, hn, rfl⟩ := hp
    exact ht.parent_lt hx hn
  once id hid := h.count_children ht hid
  child_iff i j r s hr hs := by
    constructor
    · intro hmem
      obtain ⟨k, hk⟩ := List.mem_iff_getElem?.1 hmem
      obtain ⟨s', hs', hparent, -⟩ := h.exists_child ht hr hk
      rwa [Option.some_inj.1 (hs.symm.trans hs')]
    · intro hparent
      obtain ⟨x, hx, rfl, rfl⟩ := h.exists_placed ht hr
      obtain ⟨y, hy, rfl, rfl⟩ := h.exists_placed ht hs
      rw [Placed.slot, Option.map_eq_some_iff] at hparent
      obtain ⟨n, hn, hid⟩ := hparent
      have hroot : y.node.id ≠ 0 := by
        rw [ne_eq, ← ht.parentless_iff hy, hn]
        exact Option.some_ne_none n
      obtain ⟨z, hz, hz', hmem⟩ := ht.exists_parent hy hroot
      obtain rfl : n = z.node := Option.some_inj.1 (hn.symm.trans hz')
      obtain rfl := ht.eq_of_id hx hz hid.symm
      exact List.mem_map_of_mem hmem
  next id s k child hs hk := by
    obtain ⟨r, hr, -, hnext⟩ := h.exists_child ht hs hk
    exact ⟨(Array.getElem?_eq_some_iff.1 hr).1, hnext⟩
  visits := by
    refine ⟨t.levels, h.visits?_eq ht, ?_, ?_⟩
    · have := ht.ids
      rwa [← h.size, ← Tree.map_snd_levels, List.map_map] at this
    · rw [outline?, h.visits?_eq ht, Option.map_some]

/-- A table grown node by node hangs together. Moving what is below a node to after it keeps the kind and the span of
every node and the order in which the nodes are visited; it leaves the table as it is at the root, and the node without
children elsewhere. -/
theorem linked_of_grown (h : a.Grown) : a.Linked ∧ ∀ id < a.size, let b := a.hoistChildren id
    b.slots.map (fun s => (s.kind, s.span)) = a.slots.map (fun s => (s.kind, s.span)) ∧
      (∃ ids, a.preorder? = some ids ∧ b.preorder? = some ids) ∧ (id = 0 → b = a) ∧ (id ≠ 0 → b.children id = []) := by
  obtain ⟨t, ht, hstores⟩ := h.exists_stores
  have hn := ht.numbered
  have hlinked := hstores.linked hn
  refine ⟨hlinked, fun id hid => ?_⟩
  intro b
  obtain ⟨s, hs⟩ : ∃ s, a.slots[id]? = some s := ⟨_, Array.getElem?_eq_getElem hid⟩
  have hpreorder : ∃ ids, a.preorder? = some ids ∧ b.preorder? = some ids := by
    refine ⟨_, hstores.preorder?_eq hn, ?_⟩
    rw [(hstores.hoistChildren hn hid).preorder?_eq (hn.hoist id), Tree.preorder_hoist]
  cases hparent : s.parent with
  | none =>
    have hroot : id = 0 := (hlinked.parentless id s hs).1 hparent
    have hb : b = a := hoistChildren_of_parentless (by simp [hs, hparent])
    exact ⟨by rw [hb], hpreorder, fun _ => hb, fun hne => absurd hroot hne⟩
  | some p =>
    have hroot : id ≠ 0 := by
      rw [ne_eq, ← hlinked.parentless id s hs, hparent]
      exact Option.some_ne_none p
    have hrow := getElem?_hoistChildren hs hparent (hlinked.parent id s p hs hparent).ne'
    refine ⟨?_, hpreorder, fun he => absurd he hroot, fun _ => ?_⟩
    · refine Array.ext_getElem? fun i => ?_
      rw [Array.getElem?_map, Array.getElem?_map, hrow, Option.map_map]
      rfl
    · rw [children, hrow, hs]
      simp [Slot.hoisted]

/-- A root with two nodes below it, the first of which has a child with a child of its own: when the first node gives up
its child, the child comes between the two, with what is below it. -/
theorem linked_after_hoist :
    let a := ((((new .document (.emptyAt .origin)).addChild 0 .comment (.emptyAt .origin)).addChild 1 .comment
      (.emptyAt .origin)).addChild 2 .comment (.emptyAt .origin)).addChild 0 .comment (.emptyAt .origin)
    let b := a.hoistChildren 1
    a.Grown ∧ b.preorder? = some [0, 1, 2, 3, 4] ∧ b.children 0 = [1, 2, 4] ∧ b.Linked := by
  intro a b
  have ha : a.Grown :=
    ((((Grown.new _ _).addChild _ _ (by decide)).addChild _ _ (by decide)).addChild _ _ (by decide)).addChild _ _
      (by decide)
  obtain ⟨-, hhoist⟩ := linked_of_grown ha
  obtain ⟨-, ⟨ids, hids, hids'⟩, -⟩ := hhoist 1 (by decide)
  have horder : a.preorder? = some [0, 1, 2, 3, 4] := by decide
  exact ⟨ha, hids'.trans (hids.symm.trans horder), by decide, (linked_of_grown (ha.hoistChildren (by decide))).1⟩

end Arena
end AbbrevSite
