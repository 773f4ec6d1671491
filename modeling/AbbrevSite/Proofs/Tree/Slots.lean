import AbbrevSite.Proofs.Tree.Growth
import AbbrevSite.Tree.Arena
import Mathlib.Tactic.Common

/-! The table of a tree. What is added to a tree or moved in it changes the links of a few nodes, and the operations on
the table change the same links: the table goes on standing for the tree. -/
namespace AbbrevSite

def Placed.slot (x : Placed) : Slot :=
  ⟨x.node.kind, x.node.span, x.parent.map (·.id), x.children.map (·.id)⟩

section SpliceAfter

variable {id other : Nat} {row siblings : List Nat}

lemma spliceAfter_cons_self : spliceAfter id row (id :: siblings) = id :: (row ++ siblings) := by
  simp [spliceAfter, List.findIdx?_cons]

lemma spliceAfter_cons_of_ne (h : other ≠ id) :
    spliceAfter id row (other :: siblings) = other :: spliceAfter id row siblings := by
  cases hplace : siblings.findIdx? (· == id) <;> simp [spliceAfter, List.findIdx?_cons, h, hplace]

end SpliceAfter

namespace Slot

/-- A row after the children `row` of the node `id` went to its parent. -/
def hoisted (id parent : Nat) (row : List Nat) (number : Nat) (s : Slot) : Slot :=
  { s with
    parent := if number ∈ row then some parent else s.parent
    children :=
      if number = id then []
      else if number = parent then spliceAfter id row s.children
      else s.children }

lemma hoisted_of_ne {id parent number : Nat} {row : List Nat} {s : Slot} (hid : number ≠ id)
    (hparent : number ≠ parent) (hrow : number ∉ row) : s.hoisted id parent row number = s := by
  simp [hoisted, hid, hparent, hrow]

end Slot

namespace Forest

variable {f g inner next : Forest} {n new : Node} {id parent parent' number : Nat} {s : Slot}

def rootIds (f : Forest) : List Nat := f.roots.map (·.id)

/-- The rows of a forest that stands below a node, each with its number. -/
def slots (parent : Nat) : Forest → List (Nat × Slot)
  | nil => []
  | cons n inner next =>
    (n.id, ⟨n.kind, n.span, some parent, inner.rootIds⟩) :: (inner.slots n.id ++ next.slots parent)

lemma map_slot_placedOnto (f : Forest) (p : Node) :
    (f.placedOnto p []).map (fun x => (x.node.id, x.slot)) = f.slots p.id := by
  induction f generalizing p with
  | nil => rfl
  | cons n inner next ih ih' =>
    rw [placedOnto_cons, List.map_cons, List.map_append, ih, ih']
    rfl

lemma map_fst_slots (f : Forest) (parent : Nat) : (f.slots parent).map Prod.fst = f.ids := by
  induction f generalizing parent with
  | nil => rfl
  | cons n inner next ih ih' => rw [slots, List.map_cons, List.map_append, ih, ih', ids_cons]

lemma fst_mem_of_mem_slots (h : (number, s) ∈ f.slots parent) : number ∈ f.ids := by
  rw [← map_fst_slots f parent]
  exact List.mem_map_of_mem (f := Prod.fst) h

lemma slots_append (f g : Forest) (parent : Nat) : (f ++ g).slots parent = f.slots parent ++ g.slots parent := by
  induction f with
  | nil => rfl
  | cons n inner next _ ih => rw [cons_append, slots, slots, ih, List.cons_append, List.append_assoc]

lemma rootIds_cons : (cons n inner next).rootIds = n.id :: next.rootIds := rfl

lemma rootIds_append (f g : Forest) : (f ++ g).rootIds = f.rootIds ++ g.rootIds := by
  simp [rootIds]

lemma rootIds_subset (f : Forest) : f.rootIds ⊆ f.ids := by
  induction f with
  | nil => exact List.nil_subset _
  | cons n inner next _ ih =>
    rw [rootIds_cons, ids_cons]
    exact List.cons_subset_cons _ (List.Subset.trans ih (List.subset_append_right _ _))

lemma mem_slots_cons : (number, s) ∈ (cons n inner next).slots parent ↔
    (number = n.id ∧ s = ⟨n.kind, n.span, some parent, inner.rootIds⟩) ∨
      (number, s) ∈ inner.slots n.id ∨ (number, s) ∈ next.slots parent := by
  rw [slots, List.mem_cons, List.mem_append, Prod.mk.injEq]

/-- The parent of a node is the node above the forest, for a node of the first level, or is in the forest. -/
lemma parent_of_mem_slots (hnodup : f.ids.Nodup) (h : (number, s) ∈ f.slots parent) :
    (number ∈ f.rootIds ∧ s.parent = some parent) ∨
      (number ∉ f.rootIds ∧ ∃ q ∈ f.ids, s.parent = some q) := by
  induction f generalizing parent with
  | nil => cases h
  | cons n inner next ih ih' =>
    obtain ⟨hninner, hnnext, hinner, hnext, hapart⟩ := nodup_ids_cons hnodup
    rw [rootIds_cons, List.mem_cons, ids_cons]
    rcases mem_slots_cons.1 h with ⟨rfl, rfl⟩ | h | h
    · exact .inl ⟨.inl rfl, rfl⟩
    · have hmem := fst_mem_of_mem_slots h
      have hroots : ¬ (number = n.id ∨ number ∈ next.rootIds) := by
        rintro (rfl | hroot)
        · exact hninner hmem
        · exact hapart _ hmem (next.rootIds_subset hroot)
      rcases ih hinner h with ⟨-, hparent⟩ | ⟨-, q, hq, hparent⟩
      · exact .inr ⟨hroots, n.id, List.mem_cons_self, hparent⟩
      · exact .inr ⟨hroots, q, List.mem_cons_of_mem _ (List.mem_append_left _ hq), hparent⟩
    · have hne : number ≠ n.id := fun he => hnnext (he ▸ fst_mem_of_mem_slots h)
      rcases ih' hnext h with ⟨hroot, hparent⟩ | ⟨hroot, q, hq, hparent⟩
      · exact .inl ⟨.inr hroot, hparent⟩
      · exact .inr ⟨fun h => h.elim hne hroot, q, List.mem_cons_of_mem _ (List.mem_append_right _ hq), hparent⟩

lemma children_subset (h : (number, s) ∈ f.slots parent) : s.children ⊆ f.ids := by
  induction f generalizing parent with
  | nil => cases h
  | cons n inner next ih ih' =>
    rw [ids_cons]
    rcases mem_slots_cons.1 h with ⟨rfl, rfl⟩ | h | h
    · exact fun i hi => List.mem_cons_of_mem _ (List.mem_append_left _ (inner.rootIds_subset hi))
    · exact fun i hi => List.mem_cons_of_mem _ (List.mem_append_left _ (ih h hi))
    · exact fun i hi => List.mem_cons_of_mem _ (List.mem_append_right _ (ih' h hi))

/-- A forest that is put below another node: its first level has a new parent. -/
lemma slots_setParent (parent : Nat) (hnodup : f.ids.Nodup) : f.slots parent' =
    (f.slots parent).map fun e => (e.1, if e.1 ∈ f.rootIds then e.2.setParent parent' else e.2) := by
  induction f with
  | nil => rfl
  | cons n inner next _ ih =>
    obtain ⟨hninner, hnnext, -, hnext, hapart⟩ := nodup_ids_cons hnodup
    rw [slots, slots, List.map_cons, List.map_append, rootIds_cons, ih hnext]
    refine congrArg₂ _ ?_ (congrArg₂ _ ?_ ?_)
    · simp [Slot.setParent]
    · refine (List.map_id _).symm.trans (List.map_congr_left fun e he => ?_)
      have hmem := fst_mem_of_mem_slots he
      have hroots : e.1 ∉ n.id :: next.rootIds := by
        rw [List.mem_cons]
        rintro (he | hroot)
        · exact hninner (he ▸ hmem)
        · exact hapart _ hmem (next.rootIds_subset hroot)
      rw [if_neg hroots]
      rfl
    · refine List.map_congr_left fun e he => ?_
      have hne : e.1 ≠ n.id := fun h => hnnext (h ▸ fst_mem_of_mem_slots he)
      have hroot : e.1 ∈ n.id :: next.rootIds ↔ e.1 ∈ next.rootIds := by rw [List.mem_cons, or_iff_right hne]
      simp only [hroot]

lemma hoist_of_notMem (h : id ∉ f.ids) : f.hoist id = f := by
  induction f with
  | nil => rfl
  | cons n inner next ih ih' =>
    rw [ids_cons, List.mem_cons, List.mem_append] at h
    rw [hoist, if_neg fun he => h (.inl he.symm), ih fun hm => h (.inr (.inl hm)), ih' fun hm => h (.inr (.inr hm))]

lemma eq_of_mem_slots_cons (hnodup : (cons n inner next).ids.Nodup)
    (h : (n.id, s) ∈ (cons n inner next).slots parent) : s = ⟨n.kind, n.span, some parent, inner.rootIds⟩ := by
  obtain ⟨hninner, hnnext, -⟩ := nodup_ids_cons hnodup
  rcases mem_slots_cons.1 h with ⟨-, rfl⟩ | h | h
  · rfl
  · exact absurd (fst_mem_of_mem_slots h) hninner
  · exact absurd (fst_mem_of_mem_slots h) hnnext

lemma rootIds_hoist (hnodup : f.ids.Nodup) (h : (id, s) ∈ f.slots parent) :
    (f.hoist id).rootIds = if id ∈ f.rootIds then spliceAfter id s.children f.rootIds else f.rootIds := by
  induction f with
  | nil => cases h
  | cons n inner next _ ih =>
    obtain ⟨hninner, hnnext, hinner, hnext, hapart⟩ := nodup_ids_cons hnodup
    rw [hoist, rootIds_cons]
    by_cases hid : n.id = id
    · subst hid
      rw [eq_of_mem_slots_cons hnodup h, if_pos rfl, if_pos List.mem_cons_self, rootIds_cons, rootIds_append,
        spliceAfter_cons_self]
    · have hroot : id ∈ n.id :: next.rootIds ↔ id ∈ next.rootIds := by rw [List.mem_cons, or_iff_right (Ne.symm hid)]
      rw [if_neg hid, rootIds_cons, spliceAfter_cons_of_ne hid]
      simp only [hroot]
      rcases mem_slots_cons.1 h with ⟨he, -⟩ | h | h
      · exact absurd he.symm hid
      · have hother := hapart _ (fst_mem_of_mem_slots h)
        rw [hoist_of_notMem hother, if_neg fun hroot => hother (next.rootIds_subset hroot)]
      · rw [ih hnext h]
        split_ifs <;> rfl

lemma eq_or_mem_of_parent {q : Nat} (hnodup : f.ids.Nodup) (h : (id, s) ∈ f.slots parent) (hq : s.parent = some q) :
    (q = parent ∧ id ∈ f.rootIds) ∨ (q ∈ f.ids ∧ id ∉ f.rootIds) := by
  rcases parent_of_mem_slots hnodup h with ⟨hroot, hparent⟩ | ⟨hroot, q', hq', hparent⟩
  · exact .inl ⟨Option.some_inj.1 (hq.symm.trans hparent), hroot⟩
  · obtain rfl : q = q' := Option.some_inj.1 (hq.symm.trans hparent)
    exact .inr ⟨hq', hroot⟩

lemma map_hoisted_of_notMem {row : List Nat} {q : Nat} (hid : id ∉ f.ids) (hq : q ∉ f.ids)
    (hrow : ∀ i ∈ row, i ∉ f.ids) :
    (f.slots parent).map (fun e => (e.1, e.2.hoisted id q row e.1)) = f.slots parent := by
  refine (List.map_congr_left fun e he => ?_).trans (List.map_id _)
  have hmem := fst_mem_of_mem_slots he
  have hne : e.1 ≠ id := fun h => hid (h ▸ hmem)
  have hne' : e.1 ≠ q := fun h => hq (h ▸ hmem)
  rw [Slot.hoisted_of_ne hne hne' fun h => hrow _ h hmem]
  rfl

lemma slots_released (hnodup : f.ids.Nodup) (hid : id ∉ f.ids) (hparent : parent ∉ f.ids) :
    f.slots parent = (f.slots id).map fun e => (e.1, e.2.hoisted id parent f.rootIds e.1) := by
  rw [slots_setParent id hnodup]
  refine List.map_congr_left fun e he => ?_
  have hmem := fst_mem_of_mem_slots he
  have hne : e.1 ≠ id := fun h => hid (h ▸ hmem)
  have hne' : e.1 ≠ parent := fun h => hparent (h ▸ hmem)
  rw [Slot.hoisted, if_neg hne, if_neg hne']
  split_ifs <;> rfl

/-- What is below a node goes to its parent: the rows of the node, of its children and of its parent change. -/
theorem slots_hoist {q : Nat} (hnodup : f.ids.Nodup) (hparent : parent ∉ f.ids) (h : (id, s) ∈ f.slots parent)
    (hq : s.parent = some q) :
    (f.hoist id).slots parent = (f.slots parent).map fun e => (e.1, e.2.hoisted id q s.children e.1) := by
  induction f generalizing parent with
  | nil => cases h
  | cons n inner next ih ih' =>
    obtain ⟨hninner, hnnext, hinner, hnext, hapart⟩ := nodup_ids_cons hnodup
    rw [ids_cons, List.mem_cons, List.mem_append, not_or, not_or] at hparent
    obtain ⟨hpn, hpinner, hpnext⟩ := hparent
    rw [hoist]
    by_cases hid : n.id = id
    · subst hid
      obtain rfl := eq_of_mem_slots_cons hnodup h
      obtain rfl : parent = q := Option.some_inj.1 hq
      have hrest : (next.slots parent).map (fun e => (e.1, e.2.hoisted n.id parent inner.rootIds e.1)) = next.slots parent :=
        map_hoisted_of_notMem hnnext hpnext fun i hi => hapart i (inner.rootIds_subset hi)
      simp only [if_true, slots, slots_append, List.nil_append, List.map_cons, List.map_append, hrest,
        ← slots_released hinner hninner hpinner]
      simp [Slot.hoisted, rootIds, roots]
    · rw [if_neg hid]
      simp only [slots, List.map_cons, List.map_append]
      rcases mem_slots_cons.1 h with ⟨he, -⟩ | h | h
      · exact absurd he.symm hid
      · have hsub := children_subset h
        have hother : id ∉ next.ids := hapart _ (fst_mem_of_mem_slots h)
        have hrow : n.id ∉ s.children := fun hm => hninner (hsub hm)
        have hq' := eq_or_mem_of_parent hinner h hq
        have hqnext : q ∉ next.ids := by
          rcases hq' with ⟨rfl, -⟩ | ⟨hq', -⟩
          · exact hnnext
          · exact hapart q hq'
        rw [hoist_of_notMem hother, map_hoisted_of_notMem hother hqnext fun i hi => hapart i (hsub hi),
          ih hinner hninner h, rootIds_hoist hinner h, Slot.hoisted, if_neg hrow, if_neg hid]
        rcases hq' with ⟨rfl, hroot⟩ | ⟨hq', hroot⟩
        · rw [if_pos hroot, if_pos rfl]
        · have hne : n.id ≠ q := fun he => hninner (he ▸ hq')
          rw [if_neg hroot, if_neg hne]
      · have hsub := children_subset h
        have hmem := fst_mem_of_mem_slots h
        have hother : id ∉ inner.ids := fun hm => hapart _ hm hmem
        have hqmem : q = parent ∨ q ∈ next.ids := (eq_or_mem_of_parent hnext h hq).imp And.left And.left
        have hqinner : q ∉ inner.ids := by
          rcases hqmem with rfl | hqmem
          · exact hpinner
          · exact fun hm => hapart q hm hqmem
        have hqn : n.id ≠ q := by
          rcases hqmem with rfl | hqmem
          · exact Ne.symm hpn
          · exact fun he => hnnext (he ▸ hqmem)
        rw [hoist_of_notMem hother, map_hoisted_of_notMem hother hqinner fun i hi hm => hapart i hm (hsub hi),
          ih' hnext hpnext h, Slot.hoisted_of_ne hid hqn fun hm => hnnext (hsub hm)]

lemma rootIds_addBelow : (f.addBelow id new).rootIds = f.rootIds := by
  induction f with
  | nil => rfl
  | cons n inner next _ ih =>
    rw [addBelow]
    split_ifs
    · rfl
    · rw [rootIds_cons, rootIds_cons, ih]

lemma map_addChild_of_notMem (h : id ∉ f.ids) :
    (f.slots parent).map (fun e => (e.1, if e.1 = id then e.2.addChild number else e.2)) = f.slots parent := by
  refine (List.map_congr_left fun e he => ?_).trans (List.map_id _)
  have hne : e.1 ≠ id := fun hid => h (hid ▸ fst_mem_of_mem_slots he)
  rw [if_neg hne]
  rfl

/-- A node added below a node has a row of its own, and the row of that node gets its number. -/
theorem slots_addBelow (hnodup : f.ids.Nodup) (h : id ∈ f.ids) : ((f.addBelow id new).slots parent).Perm
    ((new.id, ⟨new.kind, new.span, some id, []⟩) ::
      (f.slots parent).map fun e => (e.1, if e.1 = id then e.2.addChild new.id else e.2)) := by
  induction f generalizing parent with
  | nil => cases h
  | cons n inner next ih ih' =>
    obtain ⟨hninner, hnnext, hinner, hnext, hapart⟩ := nodup_ids_cons hnodup
    rw [addBelow]
    by_cases hid : n.id = id
    · subst hid
      simp only [if_true, slots, slots_append, List.map_cons, List.map_append, map_addChild_of_notMem hninner,
        map_addChild_of_notMem hnnext, rootIds_append, List.append_assoc]
      refine List.Perm.trans (List.Perm.cons _ ?_) (List.Perm.swap _ _ _)
      exact List.perm_middle
    · rw [ids_cons, List.mem_cons, List.mem_append] at h
      simp only [if_neg hid, slots, List.map_cons, List.map_append]
      rcases h with rfl | h | h
      · exact absurd rfl hid
      · have hother := hapart id h
        rw [addBelow_of_notMem hother, map_addChild_of_notMem hother, rootIds_addBelow]
        exact (((ih hinner h).append_right _).cons _).trans (List.Perm.swap _ _ _)
      · have hother : id ∉ inner.ids := fun hm => hapart id hm h
        rw [addBelow_of_notMem hother, map_addChild_of_notMem hother]
        exact ((((ih' hnext h).append_left _).trans List.perm_middle).cons _).trans (List.Perm.swap _ _ _)

end Forest

namespace Tree

variable {t : Tree} {id parent q number : Nat} {kind : Kind} {span : Span} {s : Slot} {x : Placed}

def slots (t : Tree) : List (Nat × Slot) :=
  (t.root.id, ⟨t.root.kind, t.root.span, none, t.forest.rootIds⟩) :: t.forest.slots t.root.id

lemma map_slot_placed (t : Tree) : t.placed.map (fun x => (x.node.id, x.slot)) = t.slots := by
  rw [placed, List.map_cons, Forest.map_slot_placedOnto]
  rfl

lemma map_fst_slots (t : Tree) : t.slots.map Prod.fst = t.preorder.map (·.id) := by
  rw [slots, List.map_cons, Forest.map_fst_slots, preorder, List.map_cons]
  rfl

lemma mem_slots_iff : (number, s) ∈ t.slots ↔ ∃ x ∈ t.placed, x.node.id = number ∧ x.slot = s := by
  simp [← map_slot_placed]

namespace Numbered

lemma root_notMem (h : t.Numbered) : t.root.id ∉ t.forest.ids := by
  have hn := h.nodup
  rw [preorder, List.map_cons, List.nodup_cons] at hn
  exact hn.1

lemma slots_add (h : t.Numbered) (hparent : parent < t.size) (kind : Kind) (span : Span) : (t.add parent kind span).slots.Perm
    ((t.size, ⟨kind, span, some parent, []⟩) ::
      t.slots.map fun e => (e.1, if e.1 = parent then e.2.addChild t.size else e.2)) := by
  rw [Tree.add]
  by_cases hroot : parent = t.root.id
  · subst hroot
    simp only [if_true, slots, List.map_cons, Forest.map_addChild_of_notMem h.root_notMem, Forest.slots_append,
      Forest.rootIds_append]
    exact ((List.perm_append_singleton _ _).cons _).trans (List.Perm.swap _ _ _)
  · have hmem := h.mem_ids_forest hparent hroot
    simp only [if_neg hroot, if_neg (Ne.symm hroot), slots, List.map_cons, Forest.rootIds_addBelow]
    exact ((Forest.slots_addBelow h.nodup_forest hmem).cons _).trans (List.Perm.swap _ _ _)

lemma slots_hoist (h : t.Numbered) (hs : (id, s) ∈ t.slots) (hq : s.parent = some q) :
    (t.hoist id).slots = t.slots.map fun e => (e.1, e.2.hoisted id q s.children e.1) := by
  rcases List.mem_cons.1 hs with he | hs
  · rw [Prod.mk.injEq] at he
    rw [he.2] at hq
    cases hq
  · have hne : t.root.id ≠ id := fun he => h.root_notMem (he ▸ Forest.fst_mem_of_mem_slots hs)
    have hrow : t.root.id ∉ s.children := fun hm => h.root_notMem (Forest.children_subset hs hm)
    rw [Tree.hoist, if_neg hne.symm, slots, slots, List.map_cons,
      Forest.slots_hoist h.nodup_forest h.root_notMem hs hq, Forest.rootIds_hoist h.nodup_forest hs, Slot.hoisted,
      if_neg hrow, if_neg hne]
    rcases Forest.eq_or_mem_of_parent h.nodup_forest hs hq with ⟨rfl, hroot⟩ | ⟨hmem, hroot⟩
    · rw [if_pos hroot, if_pos rfl]
    · have hroot' : t.root.id ≠ q := fun he => h.root_notMem (he ▸ hmem)
      rw [if_neg hroot, if_neg hroot']

end Numbered
end Tree
end AbbrevSite
