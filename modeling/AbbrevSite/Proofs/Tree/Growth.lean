import AbbrevSite.Proofs.Tree.Links
import Mathlib.Data.List.Nodup
import Mathlib.Order.Nat

/-! Trees grown node by node. Whatever is added below its nodes and moved to after them, a tree keeps its numbers: each
node has one of its own, larger than that of its parent. So its nodes can be looked up by number, and what is moved
keeps its place in preorder. -/
namespace AbbrevSite

namespace Forest

variable {f inner next : Forest} {id bound : Nat} {new n : Node} {x : Placed}

def ids (f : Forest) : List Nat := f.preorder.map (·.id)

lemma ids_cons : (cons n inner next).ids = n.id :: (inner.ids ++ next.ids) := by simp [ids, preorder]

lemma nodup_ids_cons (h : (cons n inner next).ids.Nodup) : n.id ∉ inner.ids ∧ n.id ∉ next.ids ∧
    inner.ids.Nodup ∧ next.ids.Nodup ∧ ∀ i ∈ inner.ids, i ∉ next.ids := by
  rw [ids_cons, List.nodup_cons, List.nodup_append] at h
  obtain ⟨hn, hinner, hnext, hapart⟩ := h
  exact ⟨fun h => hn (List.mem_append_left _ h), fun h => hn (List.mem_append_right _ h), hinner, hnext,
    fun i hi hi' => hapart i hi i hi' rfl⟩

lemma addBelow_of_notMem (h : id ∉ f.ids) : f.addBelow id new = f := by
  induction f with
  | nil => rfl
  | cons n inner next ih ih' =>
    simp only [ids_cons, List.mem_cons, List.mem_append, not_or] at h
    obtain ⟨hn, hinner, hnext⟩ := h
    rw [addBelow, if_neg (Ne.symm hn), ih hinner, ih' hnext]

/-- A node added below a node is one node more. -/
lemma preorder_addBelow (hnodup : f.ids.Nodup) (h : id ∈ f.ids) :
    (f.addBelow id new).preorder.Perm (new :: f.preorder) := by
  induction f with
  | nil => cases h
  | cons n inner next ih ih' =>
    obtain ⟨-, -, hinner, hnext, hapart⟩ := nodup_ids_cons hnodup
    rw [addBelow]
    split_ifs with hid
    · rw [preorder, preorder, preorder_append, List.append_assoc]
      refine List.Perm.trans (List.Perm.cons n ?_) (List.Perm.swap new n _)
      exact List.perm_middle
    · rw [ids_cons, List.mem_cons, List.mem_append] at h
      rw [preorder, preorder]
      refine List.Perm.trans (List.Perm.cons n ?_) (List.Perm.swap new n _)
      rcases h with rfl | h | h
      · exact absurd rfl hid
      · rw [addBelow_of_notMem (hapart id h)]
        exact (ih hinner h).append_right _
      · have hother : id ∉ inner.ids := fun h' => hapart id h' h
        rw [addBelow_of_notMem hother]
        exact ((ih' hnext h).append_left _).trans List.perm_middle

/-- The numbers grow from each node to those below it; on the first level they are above the bound. -/
def Ascends (bound : Nat) : Forest → Prop
  | nil => True
  | cons n inner next => bound < n.id ∧ inner.Ascends n.id ∧ next.Ascends bound

namespace Ascends

lemma mono {low : Nat} (h : f.Ascends bound) (hlow : low ≤ bound) : f.Ascends low := by
  induction f with
  | nil => trivial
  | cons n inner next _ ih => exact ⟨lt_of_le_of_lt hlow h.1, h.2.1, ih h.2.2⟩

lemma append {g : Forest} (h : f.Ascends bound) (hg : g.Ascends bound) : (f ++ g).Ascends bound := by
  induction f with
  | nil => exact hg
  | cons n inner next _ ih => exact ⟨h.1, h.2.1, ih h.2.2⟩

lemma addBelow (h : f.Ascends bound) (hnew : id < new.id) : (f.addBelow id new).Ascends bound := by
  induction f generalizing bound with
  | nil => trivial
  | cons n inner next ih ih' =>
    obtain ⟨hn, hinner, hnext⟩ := h
    rw [Forest.addBelow]
    split_ifs with hid
    · exact ⟨hn, hinner.append ⟨hid ▸ hnew, trivial, trivial⟩, hnext⟩
    · exact ⟨hn, ih hinner, ih' hnext⟩

lemma hoist (h : f.Ascends bound) (id : Nat) : (f.hoist id).Ascends bound := by
  induction f generalizing bound with
  | nil => trivial
  | cons n inner next ih ih' =>
    obtain ⟨hn, hinner, hnext⟩ := h
    rw [Forest.hoist]
    split_ifs
    · exact ⟨hn, trivial, (hinner.mono (le_of_lt hn)).append hnext⟩
    · exact ⟨hn, ih hinner, ih' hnext⟩

lemma parent_lt {parent p : Node} (h : f.Ascends parent.id) (hx : x ∈ f.placedOnto parent [])
    (hp : x.parent = some p) : p.id < x.node.id := by
  induction f generalizing parent with
  | nil => cases hx
  | cons n inner next ih ih' =>
    obtain ⟨hn, hinner, hnext⟩ := h
    rw [placedOnto_cons] at hx
    rcases List.mem_cons.1 hx with rfl | hx
    · obtain rfl : parent = p := Option.some_inj.1 hp
      exact hn
    · rcases List.mem_append.1 hx with hx | hx
      · exact ih hinner hx
      · exact ih' hnext hx

end Ascends

end Forest

namespace Tree

variable {t : Tree} {id parent : Nat} {kind : Kind} {span : Span} {x y : Placed} {n : Node}

/-- The trees that come from a root alone by adding nodes below nodes and moving what is below a node to after it. -/
inductive Grown : Tree → Prop where
  | new (kind : Kind) (span : Span) : Grown (.new kind span)
  | add {t : Tree} {parent : Nat} (kind : Kind) (span : Span) (h : Grown t) (hparent : parent < t.size) :
      Grown (t.add parent kind span)
  | hoist {t : Tree} {id : Nat} (h : Grown t) (hid : id < t.size) : Grown (t.hoist id)

/-- The root has number 0 and the others those up to the size of the tree, one each, growing from each node to those
below it. -/
structure Numbered (t : Tree) : Prop where
  root : t.root.id = 0
  ids : (t.preorder.map (·.id)).Perm (List.range t.size)
  ascends : t.forest.Ascends 0

@[simp] lemma root_hoist (t : Tree) (id : Nat) : (t.hoist id).root = t.root := by
  unfold hoist
  split_ifs <;> rfl

@[simp] lemma preorder_hoist (t : Tree) (id : Nat) : (t.hoist id).preorder = t.preorder := by
  unfold hoist
  split_ifs
  · rfl
  · simp [preorder]

lemma length_preorder (t : Tree) : t.preorder.length = t.size := by
  rw [preorder, List.length_cons, Forest.length_preorder, size]

@[simp] lemma size_hoist (t : Tree) (id : Nat) : (t.hoist id).size = t.size := by
  rw [← length_preorder, preorder_hoist, length_preorder]

lemma map_node_placed (t : Tree) : t.placed.map (·.node) = t.preorder := by
  rw [placed, List.map_cons, Forest.map_node_placedOnto, preorder]

namespace Numbered

lemma new (kind : Kind) (span : Span) : (Tree.new kind span).Numbered :=
  ⟨rfl, List.Perm.refl _, trivial⟩

lemma nodup (h : t.Numbered) : (t.preorder.map (·.id)).Nodup := h.ids.nodup_iff.2 List.nodup_range

lemma nodup_forest (h : t.Numbered) : t.forest.ids.Nodup := by
  have hn := h.nodup
  rw [preorder, List.map_cons, List.nodup_cons] at hn
  exact hn.2

lemma mem_ids_forest (h : t.Numbered) (hid : id < t.size) (hroot : id ≠ t.root.id) : id ∈ t.forest.ids := by
  have hmem : id ∈ t.preorder.map (·.id) := h.ids.mem_iff.2 (List.mem_range.2 hid)
  rw [preorder, List.map_cons, List.mem_cons] at hmem
  exact hmem.resolve_left hroot

lemma preorder_add (h : t.Numbered) (hparent : parent < t.size) (kind : Kind) (span : Span) :
    (t.add parent kind span).preorder.Perm (⟨t.size, kind, span⟩ :: t.preorder) := by
  unfold add
  split_ifs with hroot
  · rw [preorder, preorder, Forest.preorder_append]
    refine List.Perm.trans (List.Perm.cons _ ?_) (List.Perm.swap _ _ _)
    exact List.perm_append_singleton _ _
  · rw [preorder, preorder]
    refine List.Perm.trans (List.Perm.cons _ ?_) (List.Perm.swap _ _ _)
    exact Forest.preorder_addBelow h.nodup_forest (h.mem_ids_forest hparent hroot)

lemma add (h : t.Numbered) (hparent : parent < t.size) (kind : Kind) (span : Span) :
    (t.add parent kind span).Numbered := by
  have hperm := h.preorder_add hparent kind span
  have hsize : (t.add parent kind span).size = t.size + 1 := by
    rw [← length_preorder, hperm.length_eq, List.length_cons, length_preorder]
  refine ⟨?_, ?_, ?_⟩
  · unfold Tree.add
    split_ifs <;> exact h.root
  · rw [hsize, List.range_succ]
    refine (hperm.map (·.id)).trans ?_
    rw [List.map_cons]
    exact (h.ids.cons t.size).trans (List.perm_append_singleton _ _).symm
  · unfold Tree.add
    split_ifs with hroot
    · have hpos : 0 < t.size := by rw [size]; omega
      exact h.ascends.append ⟨hpos, trivial, trivial⟩
    · exact h.ascends.addBelow hparent

lemma hoist (h : t.Numbered) (id : Nat) : (t.hoist id).Numbered := by
  refine ⟨?_, ?_, ?_⟩
  · rw [root_hoist]
    exact h.root
  · rw [preorder_hoist, size_hoist]
    exact h.ids
  · unfold Tree.hoist
    split_ifs
    · exact h.ascends
    · exact h.ascends.hoist id

lemma eq_of_id (h : t.Numbered) (hx : x ∈ t.placed) (hy : y ∈ t.placed) (hid : x.node.id = y.node.id) : x = y := by
  have hn := h.nodup
  rw [← map_node_placed, List.map_map] at hn
  exact List.inj_on_of_nodup_map hn hx hy hid

lemma get?_eq_some_iff (h : t.Numbered) : t.get? id = some x ↔ x ∈ t.placed ∧ x.node.id = id := by
  constructor
  · intro hx
    exact ⟨List.mem_of_find?_eq_some hx, by simpa using List.find?_some hx⟩
  · rintro ⟨hx, rfl⟩
    cases hy : t.get? x.node.id with
    | none =>
      have := List.find?_eq_none.1 hy x hx
      simp at this
    | some y =>
      have hid : y.node.id = x.node.id := by simpa using List.find?_some hy
      rw [h.eq_of_id (List.mem_of_find?_eq_some hy) hx hid]

lemma get?_of_mem (h : t.Numbered) (hx : x ∈ t.placed) : t.get? x.node.id = some x :=
  h.get?_eq_some_iff.2 ⟨hx, rfl⟩

lemma exists_get? (h : t.Numbered) (hid : id < t.size) : ∃ x, t.get? id = some x := by
  have hmem : id ∈ t.preorder.map (·.id) := h.ids.mem_iff.2 (List.mem_range.2 hid)
  rw [← map_node_placed, List.map_map, List.mem_map] at hmem
  obtain ⟨x, hx, rfl⟩ := hmem
  exact ⟨x, h.get?_of_mem hx⟩

lemma id_lt (h : t.Numbered) (hx : x ∈ t.placed) : x.node.id < t.size := by
  rw [← List.mem_range, ← h.ids.mem_iff, ← map_node_placed, List.map_map]
  exact List.mem_map_of_mem (f := fun y : Placed => y.node.id) hx

end Numbered

lemma Grown.numbered (h : t.Grown) : t.Numbered := by
  induction h with
  | new kind span => exact .new kind span
  | add kind span _ hparent ih => exact ih.add hparent kind span
  | hoist _ _ ih => exact ih.hoist _

/-- Every node in preorder with its depth, which is 0 for the root. -/
def levels (t : Tree) : List (Nat × Node) := (0, t.root) :: t.forest.levels 1

lemma map_snd_levels (t : Tree) : t.levels.map Prod.snd = t.preorder := by
  rw [levels, List.map_cons, Forest.map_snd_levels, preorder]

lemma outline_eq (t : Tree) : t.outline = "\n".intercalate (t.levels.map fun e => outlineLine e.1 e.2) := by
  rw [outline, Forest.outlineOnto_eq, List.append_nil, levels, List.map_cons]

lemma mem_placed_iff : x ∈ t.placed ↔ x = ⟨t.root, none, t.forest.roots, none⟩ ∨ x ∈ t.forest.placedOnto t.root [] :=
  List.mem_cons

lemma perm_children (t : Tree) : (t.placed.flatMap (·.children)).Perm t.forest.preorder := by
  rw [placed, List.flatMap_cons]
  exact Forest.perm_children _ _

lemma exists_child (hx : x ∈ t.placed) {k : Nat} (hk : x.children[k]? = some n) :
    ∃ y ∈ t.placed, y.node = n ∧ y.parent = some x.node ∧ y.next = x.children[k + 1]? := by
  rcases mem_placed_iff.1 hx with rfl | hx
  · obtain ⟨y, hy, hlinks⟩ := Forest.exists_placed_root t.root hk
    exact ⟨y, List.mem_cons_of_mem _ hy, hlinks⟩
  · obtain ⟨y, hy, hlinks⟩ := Forest.exists_placed_child hx hk
    exact ⟨y, List.mem_cons_of_mem _ hy, hlinks⟩

namespace Numbered

lemma eq_root_iff (h : t.Numbered) (hx : x ∈ t.placed) :
    x.node.id = 0 ↔ x = ⟨t.root, none, t.forest.roots, none⟩ := by
  constructor
  · intro hid
    exact h.eq_of_id hx (mem_placed_iff.2 (.inl rfl)) (hid.trans h.root.symm)
  · rintro rfl
    exact h.root

lemma exists_parent (h : t.Numbered) (hx : x ∈ t.placed) (hid : x.node.id ≠ 0) :
    ∃ y ∈ t.placed, x.parent = some y.node ∧ x.node ∈ y.children := by
  rcases mem_placed_iff.1 hx with rfl | hx
  · exact absurd h.root hid
  · rcases Forest.exists_placed_parent hx with ⟨hparent, hroots⟩ | ⟨y, hy, hlinks⟩
    · exact ⟨_, List.mem_cons_self, hparent, hroots⟩
    · exact ⟨y, List.mem_cons_of_mem _ hy, hlinks⟩

lemma parentless_iff (h : t.Numbered) (hx : x ∈ t.placed) : x.parent = none ↔ x.node.id = 0 := by
  constructor
  · intro hparent
    by_contra hid
    obtain ⟨y, -, hy, -⟩ := h.exists_parent hx hid
    rw [hparent] at hy
    cases hy
  · intro hid
    rw [(h.eq_root_iff hx).1 hid]

lemma parent_lt (h : t.Numbered) (hx : x ∈ t.placed) (hp : x.parent = some n) : n.id < x.node.id := by
  rcases mem_placed_iff.1 hx with rfl | hx
  · cases hp
  · have hascends : t.forest.Ascends t.root.id := by
      rw [h.root]
      exact h.ascends
    exact hascends.parent_lt hx hp

end Numbered

end Tree
end AbbrevSite
