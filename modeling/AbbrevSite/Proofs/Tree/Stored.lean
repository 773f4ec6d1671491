import AbbrevSite.Parse
import AbbrevSite.Proofs.Markup.Nesting
import AbbrevSite.Proofs.Sheet.Cover
import AbbrevSite.Proofs.Tree.Arena

/-! The trees of documents as tables of nodes. A forest that is not empty has a last node in preorder, with nothing below
it and nothing after it. So a tree numbered in preorder is grown by adding its nodes one by one, and the trees that
documents are read to are among them. -/
namespace AbbrevSite

lemma Forest.exists_last {f : Forest} (hnil : f ≠ nil) (hnodup : f.ids.Nodup) : ∃ (g : Forest) (n : Node),
    f.preorder = g.preorder ++ [n] ∧ (f = g ++ cons n nil nil ∨ ∃ id ∈ g.ids, f = g.addBelow id n) := by
  induction f with
  | nil => exact absurd rfl hnil
  | cons m inner next ih ih' =>
    obtain ⟨hm, hm', hinner, hnext, hapart⟩ := nodup_ids_cons hnodup
    by_cases hnil' : next = nil
    · subst hnil'
      by_cases hempty : inner = nil
      · subst hempty
        exact ⟨nil, m, rfl, .inl rfl⟩
      · obtain ⟨g, n, hpre, hlast⟩ := ih hempty hinner
        refine ⟨cons m g nil, n, by simp [preorder, hpre], .inr ?_⟩
        rcases hlast with rfl | ⟨id, hid, rfl⟩
        · exact ⟨m.id, by simp [ids_cons], by simp [addBelow]⟩
        · have hne : m.id ≠ id := by
            rintro rfl
            refine hm ?_
            rw [ids, hpre, List.map_append]
            exact List.mem_append_left _ hid
          exact ⟨id, by simp [ids_cons, hid], by rw [addBelow, if_neg hne, addBelow]⟩
    · obtain ⟨g, n, hpre, hlast⟩ := ih' hnil' hnext
      refine ⟨cons m inner g, n, by simp [preorder, hpre], ?_⟩
      rcases hlast with rfl | ⟨id, hid, rfl⟩
      · exact .inl rfl
      · have hmem : id ∈ (g.addBelow id n).ids := by
          rw [ids, hpre, List.map_append]
          exact List.mem_append_left _ hid
        have hne : m.id ≠ id := fun he => hm' (he ▸ hmem)
        have hother : id ∉ inner.ids := fun h => hapart id h hmem
        exact .inr ⟨id, by simp [ids_cons, hid], by rw [addBelow, if_neg hne, addBelow_of_notMem hother]⟩

lemma Tree.exists_grown (kind : Kind) (span : Span) (f : Forest) (h : 0 :: f.ids = List.range (f.size + 1)) :
    ∃ t : Tree, t.Grown ∧ t.root = ⟨0, kind, span⟩ ∧ t.forest = f := by
  induction hsize : f.size generalizing f with
  | zero =>
    cases f with
    | nil => exact ⟨_, .new kind span, rfl, rfl⟩
    | cons n inner next => cases hsize
  | succ k ih =>
    have hnodup : (0 :: f.ids).Nodup := h ▸ List.nodup_range
    have hnil : f ≠ .nil := by
      rintro rfl
      cases hsize
    obtain ⟨g, n, hpre, hlast⟩ := f.exists_last hnil (List.nodup_cons.1 hnodup).2
    have hg : g.size = k := by
      have hlength := congrArg List.length hpre
      rw [Forest.length_preorder, List.length_append, Forest.length_preorder, hsize] at hlength
      exact (Nat.succ.inj hlength).symm
    have hids : 0 :: g.ids ++ [n.id] = List.range (g.size + 1) ++ [g.size + 1] := by
      rw [← List.range_succ, hg, ← hsize, ← h, Forest.ids, Forest.ids, hpre, List.map_append]
      rfl
    obtain ⟨hids, hn⟩ := List.append_inj' hids rfl
    obtain ⟨t, ht, hroot, rfl⟩ := ih g hids hg
    have hnew : (⟨t.size, n.kind, n.span⟩ : Node) = n := by
      rw [Tree.size, ← List.singleton_inj.1 hn]
    rcases hlast with rfl | ⟨id, hid, rfl⟩
    · refine ⟨t.add 0 n.kind n.span, ht.add n.kind n.span (Nat.succ_pos _), ?_⟩
      rw [Tree.add, if_pos (by rw [hroot]), hnew]
      exact ⟨hroot, rfl⟩
    · have hlt : id < t.size := List.mem_range.1 (hids ▸ List.mem_cons_of_mem _ hid)
      have hne : id ≠ t.root.id := by
        rintro rfl
        rw [hroot] at hid
        exact (List.nodup_cons.1 (hids ▸ List.nodup_range : (0 :: t.forest.ids).Nodup)).1 hid
      refine ⟨t.add id n.kind n.span, ht.add n.kind n.span hlt, ?_⟩
      rw [Tree.add, if_neg hne, hnew]
      exact ⟨hroot, rfl⟩

namespace Arena

variable {a : Arena} {t u : Tree}

lemma Stores.congr (h : a.Stores t) (hroot : t.root = u.root) (hforest : t.forest = u.forest) : a.Stores u := by
  refine ⟨?_, fun e he => h.row e ?_⟩
  · rw [h.size, Tree.size, Tree.size, hforest]
  · rwa [Tree.slots, hroot, hforest]

lemma exists_stores_of_grown (h : t.Grown) : ∃ a : Arena, a.Grown ∧ a.Stores t := by
  induction h with
  | new kind span => exact ⟨_, .new kind span, .new kind span⟩
  | add kind span hgrown hparent ih =>
    obtain ⟨a, ha, hstores⟩ := ih
    have hlt := hstores.size.symm ▸ hparent
    exact ⟨_, ha.addChild kind span hlt, hstores.addChild hgrown.numbered hlt⟩
  | hoist hgrown hid ih =>
    obtain ⟨a, ha, hstores⟩ := ih
    have hlt := hstores.size.symm ▸ hid
    exact ⟨_, ha.hoistChildren hlt, hstores.hoistChildren hgrown.numbered hlt⟩

/-- A tree numbered in preorder is one that a table grows to. -/
theorem exists_stores_of_preorder (h : t.preorder.map (·.id) = List.range t.size) :
    ∃ a : Arena, a.Grown ∧ a.Stores t ∧ a.Linked := by
  have hids : t.root.id :: t.forest.ids = List.range (t.forest.size + 1) := h
  have hroot : t.root.id = 0 := by
    rw [List.range_succ_eq_map, List.cons.injEq] at hids
    exact hids.1
  obtain ⟨u, hu, huroot, hforest⟩ := Tree.exists_grown t.root.kind t.root.span t.forest (hroot ▸ hids)
  obtain ⟨a, ha, hstores⟩ := exists_stores_of_grown hu
  refine ⟨a, ha, hstores.congr ?_ hforest, hstores.linked hu.numbered⟩
  rw [huroot, ← hroot]

end Arena

/-- The tree that a window of a document is read to is stored by a table grown node by node, whose links are those of
the tree. -/
theorem Cursor.exists_stores_of_parse {d : Document} {window : Span} {dialect : Dialect} {t : Tree}
    (ha : d.Valid window.start) (hb : d.Valid window.stop)
    (h : (Cursor.within d window.start window).parse dialect = .ok t) :
    ∃ a : Arena, a.Grown ∧ a.Stores t ∧ a.Linked := by
  refine Arena.exists_stores_of_preorder ?_
  rw [Cursor.parse] at h
  split_ifs at h with hsheet
  · exact (Sheet.covers_within ha hb h).numbered
  · cases h
    exact (Markup.wellNested_within dialect ha hb).numbered

end AbbrevSite
