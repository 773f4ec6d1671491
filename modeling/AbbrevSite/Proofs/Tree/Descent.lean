import AbbrevSite.Proofs.Tree.Layout
import AbbrevSite.Proofs.Tree.Sight

/-! Where a lookup ends. The trees of a level follow each other and lie inside the body of their node, so a
position behind the start of a node, up to its end, is found in that node or below it, and in the node itself if the
position is outside its body. -/
namespace AbbrevSite

namespace Forest

variable {gap : Position → Position → Prop} {body : Node → Option (Position × Position)} {holds : Node → Bool}
  {f : Forest} {a b p : Position} {n parent : Node} {above : Option Found}

lemma descend_of_none (h : ∀ m ∈ f.roots, holds m = false) : f.descend holds parent above = above := by
  induction f generalizing above with
  | nil => rfl
  | cons m inner next _ ih =>
    rw [roots, List.forall_mem_cons] at h
    rw [descend, h.1, if_neg Bool.false_ne_true]
    exact ih h.2

lemma mem_preorder_of_mem_roots (h : n ∈ f.roots) : n ∈ f.preorder := by
  induction f with
  | nil => cases h
  | cons m inner next _ ih =>
    rw [preorder, List.mem_cons, List.mem_append]
    rcases List.mem_cons.1 h with rfl | h
    · exact .inl rfl
    · exact .inr (.inr (ih h))

lemma mem_of_descend {found : Found} (h : f.descend holds parent above = some found) :
    above = some found ∨ found.node ∈ f.preorder := by
  induction f generalizing parent above with
  | nil => exact .inl h
  | cons m inner next ih ih' =>
    rw [descend] at h
    rw [preorder, List.mem_cons, List.mem_append]
    split_ifs at h
    · rcases ih h with h | h
      · cases h
        exact .inr (.inl rfl)
      · exact .inr (.inr (.inl h))
    · exact (ih' h).imp_right fun h => .inr (.inr h)

lemma LaidOut.not_contains_roots (hg : IsGap gap) (h : f.LaidOut gap body a b) (hp : p < a ∨ b < p) :
    ∀ m ∈ f.roots, m.span.contains p = false := by
  intro m hm
  obtain ⟨hstart, -, hstop⟩ := h.bounds hg (mem_preorder_of_mem_roots hm)
  rcases hp with hp | hp
  · exact Span.contains_of_lt_start (hp.trans_le hstart)
  · exact Span.contains_of_stop_lt (hstop.trans_lt hp)

/-- Behind the start of a node, up to its end and outside its body, the lookup ends at the node. -/
theorem LaidOut.descend_eq (hg : IsGap gap) (h : f.LaidOut gap body a b) (hn : n ∈ f.preorder)
    (hstart : n.span.start < p) (hstop : p ≤ n.span.stop) (hout : ∀ x y, body n = some (x, y) → p < x ∨ y < p) :
    ∃ found, f.descend (fun m => m.span.contains p) parent above = some found ∧ found.node = n := by
  induction f generalizing a b parent above with
  | nil => cases hn
  | cons m inner next ih ih' =>
    rw [preorder, List.mem_cons, List.mem_append] at hn
    rw [descend]
    rcases hn with rfl | hn | hn
    · -- at the node itself none of its children holds the position
      rw [if_pos (Span.contains_iff.2 ⟨le_of_lt hstart, hstop⟩)]
      refine ⟨_, descend_of_none fun m hm => ?_, rfl⟩
      obtain ⟨x, y, hb, -, -, hinner⟩ := h.inner (mem_preorder_of_mem_roots hm)
      exact hinner.not_contains_roots hg (hout x y hb) m hm
    · -- below a node the position lies in its body, so the node holds it
      obtain ⟨x, y, -, hx, hy, hinner⟩ := h.inner hn
      obtain ⟨hxn, -, hny⟩ := hinner.bounds hg hn
      have hmp : m.span.start ≤ p := le_of_lt ((hx.trans_le hxn).trans hstart)
      have hpm : p ≤ m.span.stop := hstop.trans (hny.trans hy)
      rw [if_pos (Span.contains_iff.2 ⟨hmp, hpm⟩)]
      exact ih hinner hn
    · -- a tree before the node ends before the position
      have hmn := (h.2.2.2.bounds hg hn).1
      rw [Span.contains_of_stop_lt (hmn.trans_lt hstart), if_neg Bool.false_ne_true]
      exact ih' h.2.2.2 hn

end Forest

lemma Tree.nodeAt_true (t : Tree) (p : Position) :
    t.nodeAt p true = t.forest.descend (fun n => n.span.contains p) t.root none := by
  unfold nodeAt
  simp only [Span.holds_true]

lemma Tree.mem_of_nodeAt {t : Tree} {p : Position} {ends : Bool} {found : Found} (h : t.nodeAt p ends = some found) :
    found.node ∈ t.forest.preorder := (Forest.mem_of_descend h).resolve_left nofun

end AbbrevSite
