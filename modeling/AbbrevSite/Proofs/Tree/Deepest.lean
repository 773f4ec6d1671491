import AbbrevSite.Proofs.Markup.Nesting
import AbbrevSite.Proofs.Sheet.Cover
import AbbrevSite.Proofs.Tree.Descent

/-! Which node a lookup finds. A search goes down one line of nodes and never back, and still ends at the deepest
node around a position: the trees of a level follow each other and lie inside their node, so a position strictly
inside a node is strictly inside all nodes above it and in no tree before them. -/
namespace AbbrevSite

namespace Forest

/-- For every node of a forest the line of nodes from the first level down to it, in preorder. -/
def lines : Forest → List (List Node)
  | nil => []
  | cons n inner next => [n] :: (inner.lines.map (n :: ·) ++ next.lines)

/-- The line of nodes a search goes down: the first of the level to satisfy `holds`, the first below it, and so on. -/
def trail (holds : Node → Bool) : Forest → List Node
  | nil => []
  | cons n inner next => if holds n then n :: inner.trail holds else next.trail holds

/-- The only deepest of the nodes that satisfy `holds`, at the end of its line: the line of every such node is a part
of this line from its start on. -/
structure Deepest (f : Forest) (holds : Node → Bool) (line : List Node) (n : Node) : Prop where
  mem : line ∈ f.lines
  ends : line.getLast? = some n
  satisfies : holds n = true
  above : ∀ other ∈ f.lines, (∀ m ∈ other.getLast?, holds m = true) → other <+: line

/-- A node is another one or below it: the line of the other is a part of its line. -/
def AtOrBelow (f : Forest) (m n : Node) : Prop :=
  ∃ upper ∈ f.lines, ∃ line ∈ f.lines, upper.getLast? = some n ∧ line.getLast? = some m ∧ upper <+: line

variable {gap : Position → Position → Prop} {body : Node → Option (Position × Position)} {holds : Node → Bool}
  {f : Forest} {a b p : Position} {n m parent : Node} {above : Option Found} {found : Found} {line other : List Node}

lemma mem_lines_cons {inner next : Forest} :
    line ∈ (cons n inner next).lines ↔ line = [n] ∨ (∃ l ∈ inner.lines, n :: l = line) ∨ line ∈ next.lines := by
  simp only [lines, List.mem_cons, List.mem_append, List.mem_map]

lemma ne_nil_of_mem_lines (h : line ∈ f.lines) : line ≠ [] := by
  induction f with
  | nil => cases h
  | cons n inner next _ ih =>
    rcases mem_lines_cons.1 h with rfl | ⟨l, -, rfl⟩ | h
    · exact List.cons_ne_nil _ _
    · exact List.cons_ne_nil _ _
    · exact ih h

theorem getLast?_lines (f : Forest) : f.lines.map List.getLast? = f.preorder.map some := by
  induction f with
  | nil => rfl
  | cons n inner next ih ih' =>
    have hinner : inner.lines.map (fun l => (n :: l).getLast?) = inner.lines.map List.getLast? := by
      refine List.map_congr_left fun l hl => ?_
      rw [List.getLast?_cons_of_ne_nil (ne_nil_of_mem_lines hl)]
    simp only [lines, preorder, List.map_cons, List.map_append, List.map_map, Function.comp_def, hinner, ih, ih',
      List.getLast?_singleton]

lemma mem_preorder_of_line (h : line ∈ f.lines) (hn : line.getLast? = some n) : n ∈ f.preorder := by
  have hmem : some n ∈ f.preorder.map some := by
    rw [← getLast?_lines]
    exact List.mem_map.2 ⟨line, h, hn⟩
  simpa using hmem

lemma exists_line (h : n ∈ f.preorder) : ∃ line ∈ f.lines, line.getLast? = some n := by
  have hmem : some n ∈ f.lines.map List.getLast? := by
    rw [getLast?_lines]
    exact List.mem_map_of_mem h
  exact List.mem_map.1 hmem

lemma mem_placedOnto {x : Placed} {rest : List Placed} (h : x ∈ rest) : x ∈ f.placedOnto parent rest := by
  induction f generalizing parent rest with
  | nil => exact h
  | cons n inner next ih ih' => exact List.mem_cons_of_mem _ (ih (ih' h))

lemma trail_eq_nil : f.trail holds = [] ↔ ∀ m ∈ f.roots, holds m = false := by
  induction f with
  | nil => simp [trail, roots]
  | cons n inner next _ ih =>
    rw [trail, roots, List.forall_mem_cons]
    cases holds n <;> simp [ih]

lemma trail_mem_lines (h : f.trail holds ≠ []) : f.trail holds ∈ f.lines := by
  induction f with
  | nil => exact absurd rfl h
  | cons n inner next ih ih' =>
    rw [trail] at h ⊢
    rw [mem_lines_cons]
    split_ifs at h ⊢ with hn
    · by_cases hi : inner.trail holds = []
      · exact .inl (by rw [hi])
      · exact .inr (.inl ⟨_, ih hi, rfl⟩)
    · exact .inr (.inr (ih' h))

lemma holds_of_mem_trail (h : n ∈ f.trail holds) : holds n = true := by
  induction f with
  | nil => cases h
  | cons m inner next ih ih' =>
    rw [trail] at h
    split_ifs at h with hm
    · rcases List.mem_cons.1 h with rfl | h
      · exact hm
      · exact ih h
    · exact ih' h

lemma node_descend (holds : Node → Bool) (f : Forest) (parent : Node) (above : Option Found) :
    (f.descend holds parent above).map (·.node) = (f.trail holds).getLast?.or (above.map (·.node)) := by
  induction f generalizing parent above with
  | nil => rfl
  | cons n inner next ih ih' =>
    rw [descend, trail]
    split_ifs with hn
    · rw [ih, List.getLast?_cons]
      cases (inner.trail holds).getLast? <;> rfl
    · exact ih' parent above

lemma descend_stands (rest : List Placed) (h : f.descend holds parent above = some found) :
    above = some found ∧ f.trail holds = [] ∨
      (∃ next, ⟨found.node, some found.parent, found.children, next⟩ ∈ f.placedOnto parent rest) ∧
        ∀ m ∈ found.children, holds m = false := by
  induction f generalizing parent above rest with
  | nil => exact .inl ⟨h, rfl⟩
  | cons n inner next ih ih' =>
    rw [descend] at h
    rw [trail, placedOnto]
    split_ifs at h ⊢ with hn
    · rcases ih (next.placedOnto parent rest) h with ⟨hfound, htrail⟩ | ⟨⟨after, hmem⟩, hchildren⟩
      · cases hfound
        exact .inr ⟨⟨_, List.mem_cons_self⟩, trail_eq_nil.1 htrail⟩
      · exact .inr ⟨⟨after, List.mem_cons_of_mem _ hmem⟩, hchildren⟩
    · rcases ih' rest h with hnone | ⟨⟨after, hmem⟩, hchildren⟩
      · exact .inl hnone
      · exact .inr ⟨⟨after, List.mem_cons_of_mem _ (mem_placedOnto hmem)⟩, hchildren⟩

namespace LaidOut

/-- Each line that ends around a position is a part of the line a search goes down, if the search takes all nodes around
the position and no node the position is outside of. -/
theorem prefix_trail (hg : IsGap gap) (h : f.LaidOut gap body a b)
    (henclosing : ∀ m, m.span.encloses p = true → holds m = true)
    (hcontaining : ∀ m, holds m = true → m.span.contains p = true) (hline : line ∈ f.lines)
    (hn : line.getLast? = some n) (hp : n.span.encloses p = true) : line <+: f.trail holds := by
  induction f generalizing a b line with
  | nil => cases hline
  | cons m inner next ih ih' =>
    obtain ⟨hstart, hstop⟩ := Span.encloses_iff.1 hp
    rw [trail]
    rcases mem_lines_cons.1 hline with rfl | ⟨l, hl, rfl⟩ | hl
    · -- the node itself
      obtain rfl : m = n := by simpa using hn
      rw [if_pos (henclosing m hp)]
      exact ⟨_, rfl⟩
    · -- a node below it: what is around the inner node is around the outer one
      rw [List.getLast?_cons_of_ne_nil (ne_nil_of_mem_lines hl)] at hn
      obtain ⟨hbefore, hafter⟩ := h.inner_bounds hg (mem_preorder_of_line hl hn)
      have hm : m.span.encloses p = true :=
        Span.encloses_iff.2 ⟨hbefore.trans hstart, hstop.trans_le hafter⟩
      rw [if_pos (henclosing m hm), List.cons_prefix_cons]
      obtain ⟨x, y, -, -, -, hinner⟩ := h.inner (mem_preorder_of_line hl hn)
      exact ⟨rfl, ih hinner hl hn⟩
    · -- a node of a later tree: the position is beyond the node
      have hmn : m.span.stop ≤ n.span.start := (h.2.2.2.bounds hg (mem_preorder_of_line hl hn)).1
      have hm : holds m = false := by
        by_contra hm
        have := Span.contains_of_stop_lt (hmn.trans_lt hstart)
        rw [hcontaining m (by simpa using hm)] at this
        cases this
      rw [hm, if_neg Bool.false_ne_true]
      exact ih' h.2.2.2 hl hn

lemma encloses_of_roots (hg : IsGap gap) (h : f.LaidOut gap body a b)
    (hroots : ∀ m ∈ f.roots, m.span.encloses p = false) : ∀ m ∈ f.preorder, m.span.encloses p = false := by
  intro m hm
  by_contra hp
  obtain ⟨line, hline, hends⟩ := exists_line hm
  have hprefix := h.prefix_trail hg (fun _ => id) (fun _ => Span.contains_of_encloses) hline hends (by simpa using hp)
  rw [trail_eq_nil.2 hroots, List.prefix_nil] at hprefix
  exact ne_nil_of_mem_lines hline hprefix

lemma deepest_trail (hg : IsGap gap) (h : f.LaidOut gap body a b)
    (hn : (f.trail fun m => m.span.encloses p).getLast? = some n) :
    f.Deepest (fun m => m.span.encloses p) (f.trail fun m => m.span.encloses p) n where
  mem := trail_mem_lines (by rw [← List.getLast?_isSome, hn]; rfl)
  ends := hn
  satisfies := holds_of_mem_trail (List.mem_of_getLast? hn)
  above := by
    intro other hother hp
    obtain ⟨m, hm⟩ := Option.isSome_iff_exists.1 (List.getLast?_isSome.2 (ne_nil_of_mem_lines hother))
    exact h.prefix_trail hg (fun _ => id) (fun _ => Span.contains_of_encloses) hother hm (hp m hm)

end LaidOut
end Forest

/-- A node that is found stands in the tree, below its parent and with its children. -/
def Found.StandsIn (found : Found) (t : Tree) : Prop :=
  ∃ next, ⟨found.node, some found.parent, found.children, next⟩ ∈ t.placed

namespace Tree

/-- What lookups at a position find. Without the ends of nodes it is the only deepest of the nodes around the
position; with them a node that holds the position and has no child that does, at or below the other one. -/
structure FindsDeepest (t : Tree) (p : Position) : Prop where
  nodup : t.forest.preorder.Nodup
  none_iff : t.nodeAt p false = none ↔ ∀ n ∈ t.forest.preorder, n.span.encloses p = false
  deepest {found : Found} (h : t.nodeAt p false = some found) :
    found.StandsIn t ∧ ∃ line, t.forest.Deepest (fun n => n.span.encloses p) line found.node
  none_iff_of_ends : t.nodeAt p true = none ↔ ∀ n ∈ t.forest.roots, n.span.contains p = false
  lowest {found : Found} (h : t.nodeAt p true = some found) :
    found.StandsIn t ∧ found.node.span.contains p = true ∧ ∀ m ∈ found.children, m.span.contains p = false
  atOrBelow {inner found : Found} (h : t.nodeAt p false = some inner) (h' : t.nodeAt p true = some found) :
    t.forest.AtOrBelow found.node inner.node

variable {t : Tree} {p : Position} {holds : Node → Bool} {found : Found}
  {gap : Position → Position → Prop} {body : Node → Option (Position × Position)} {a b : Position}

lemma nodeAt_false (t : Tree) (p : Position) :
    t.nodeAt p false = t.forest.descend (fun n => n.span.encloses p) t.root none := by
  unfold nodeAt
  simp only [Span.holds, Bool.false_and, Bool.or_false]

lemma node_eq_getLast? (h : t.forest.descend holds t.root none = some found) :
    (t.forest.trail holds).getLast? = some found.node := by
  have hnode := t.forest.node_descend holds t.root none
  rw [h] at hnode
  simpa using hnode.symm

lemma descend_eq_none : t.forest.descend holds t.root none = none ↔ ∀ m ∈ t.forest.roots, holds m = false := by
  rw [← Forest.trail_eq_nil, ← List.getLast?_eq_none_iff]
  have hnode := t.forest.node_descend holds t.root none
  simp only [Option.map_none, Option.or_none] at hnode
  rw [← hnode, Option.map_eq_none_iff]

lemma stands_of_descend (h : t.forest.descend holds t.root none = some found) :
    found.StandsIn t ∧ ∀ m ∈ found.children, holds m = false := by
  rcases Forest.descend_stands [] h with ⟨h, -⟩ | ⟨⟨next, hmem⟩, hchildren⟩
  · cases h
  · exact ⟨⟨next, List.mem_cons_of_mem _ hmem⟩, hchildren⟩

/-- A tree laid out in a text finds the deepest nodes. -/
theorem findsDeepest_of_laidOut (hg : IsGap gap) (h : t.forest.LaidOut gap body a b) (p : Position) :
    t.FindsDeepest p where
  nodup := List.Nodup.of_map _ ((h.increasing hg).imp ne_of_lt)
  none_iff := by
    rw [nodeAt_false, descend_eq_none]
    exact ⟨h.encloses_of_roots hg, fun hp m hm => hp m (Forest.mem_preorder_of_mem_roots hm)⟩
  deepest hfound := by
    rw [nodeAt_false] at hfound
    exact ⟨(stands_of_descend hfound).1, _, h.deepest_trail hg (node_eq_getLast? hfound)⟩
  none_iff_of_ends := by rw [nodeAt_true, descend_eq_none]
  lowest hfound := by
    rw [nodeAt_true] at hfound
    obtain ⟨hstands, hchildren⟩ := stands_of_descend hfound
    exact ⟨hstands, Forest.holds_of_mem_trail (List.mem_of_getLast? (node_eq_getLast? hfound)), hchildren⟩
  atOrBelow hinner hfound := by
    rw [nodeAt_false] at hinner
    rw [nodeAt_true] at hfound
    have hdeepest := h.deepest_trail hg (node_eq_getLast? hinner)
    have hends := node_eq_getLast? hfound
    refine ⟨_, hdeepest.mem, _, Forest.trail_mem_lines ?_, hdeepest.ends, hends, ?_⟩
    · rw [← List.getLast?_isSome, hends]
      rfl
    · exact h.prefix_trail hg (fun _ => Span.contains_of_encloses) (fun _ => id) hdeepest.mem hdeepest.ends
        hdeepest.satisfies

end Tree

namespace Document

variable {d : Document} {dialect : Dialect} {t : Tree}

lemma laidOut_of_parse? (h : d.parse? dialect = some t) :
    ∃ gap body, IsGap gap ∧ t.forest.LaidOut gap body t.root.span.start t.root.span.stop := by
  unfold parse? Cursor.parse at h
  split_ifs at h with hsheet
  · have hparse : Sheet.parse (Cursor.within d d.span.start d.span) dialect = .ok t := Sheet.toOption_eq_some.1 h
    exact ⟨_, _, Sheet.isGap_filler, (Sheet.covers_within d.valid_origin d.valid_stop hparse).laidOut⟩
  · have hparse : Markup.parse (Cursor.within d d.span.start d.span) dialect = t := Option.some_inj.1 h
    exact ⟨_, _, isGap_le, hparse ▸ (Markup.wellNested_within dialect d.valid_origin d.valid_stop).laidOut⟩

/-- In the tree of a document lookups find the deepest nodes, at every position and whether or not the document
holds it. -/
theorem findsDeepest_of_parse? (h : d.parse? dialect = some t) (p : Position) : t.FindsDeepest p := by
  obtain ⟨gap, body, hg, hlaid⟩ := laidOut_of_parse? h
  exact Tree.findsDeepest_of_laidOut hg hlaid p

/-- In `<a><b>x<i/>|<u/>y</a>` the element `b` is left unclosed, so what follows it stands beside it in `a`; at the place
where two elements touch the lookups find `a` and the first of the two. -/
theorem findsDeepest_touching_elements :
    let d := Document.ofText "html" "<a><b>x<i/><u/>y</a>"
    ∃ t, d.parse? .html = some t ∧ (t.nodeAt ⟨0, 11⟩ false).any (·.node.kind.isElementNamed "a") = true ∧
      (t.nodeAt ⟨0, 11⟩ true).any (·.node.kind.isElementNamed "i") = true ∧ t.FindsDeepest ⟨0, 11⟩ := by
  intro d
  have hread : (d.parse? .html).any (fun t => (t.nodeAt ⟨0, 11⟩ false).any (·.node.kind.isElementNamed "a") &&
      (t.nodeAt ⟨0, 11⟩ true).any (·.node.kind.isElementNamed "i")) = true := by cbv
  simp only [Option.any_eq_true, Bool.and_eq_true] at hread
  obtain ⟨t, ht, ⟨outer, houter, ha⟩, inner, hinner, hi⟩ := hread
  refine ⟨t, ht, ?_, ?_, findsDeepest_of_parse? ht ⟨0, 11⟩⟩
  · rw [houter]
    exact ha
  · rw [hinner]
    exact hi

end Document
end AbbrevSite
