import AbbrevSite.Proofs.Text.Order
import AbbrevSite.Proofs.Tree.Listing

/-! How the trees of a forest lie in a text: one after the other, each with its inner trees between two places of
its own, and nothing but gaps between them. A builder that has read up to a place keeps that up level by level,
whether a node is closed or left unclosed. -/
namespace AbbrevSite

/-- What may lie between two trees: a gap can be empty, gaps join, and a gap never goes backwards. -/
structure IsGap (gap : Position → Position → Prop) : Prop where
  refl (x : Position) : gap x x
  trans {x y z : Position} (h : gap x y) (h' : gap y z) : gap x z
  le {x y : Position} (h : gap x y) : x ≤ y

lemma isGap_le : IsGap (· ≤ ·) := ⟨le_refl, le_trans, id⟩

namespace Forest

variable (gap : Position → Position → Prop) (body : Node → Option (Position × Position))

/-- The trees of a level lie between two places, one after the other, with gaps around them. The inner trees of
a node with a body lie in that body, a node without a body has none. -/
def LaidOut : Forest → Position → Position → Prop
  | nil, a, b => gap a b
  | cons n inner next, a, b =>
    gap a n.span.start ∧ n.span.start < n.span.stop ∧
      (match body n with
        | none => inner = nil
        | some (x, y) => n.span.start < x ∧ y ≤ n.span.stop ∧ inner.LaidOut x y) ∧
      next.LaidOut n.span.stop b

variable {gap body} {f g : Forest} {n m : Node} {a b x y z : Position}

lemma laidOut_leaf (hg : IsGap gap) (hn : n.span.start < n.span.stop) (hb : body n = none) :
    (cons n nil nil).LaidOut gap body n.span.start n.span.stop :=
  ⟨hg.refl _, hn, by rw [hb], hg.refl _⟩

lemma laidOut_node (hg : IsGap gap) (hb : body n = some (x, y)) (hx : n.span.start < x)
    (hy : y ≤ n.span.stop) (h : f.LaidOut gap body x y) (hxy : x ≤ y) :
    (cons n f nil).LaidOut gap body n.span.start n.span.stop := by
  refine ⟨hg.refl _, (hx.trans_le hxy).trans_le hy, ?_, hg.refl _⟩
  rw [hb]
  exact ⟨hx, hy, h⟩

namespace LaidOut

lemma le (hg : IsGap gap) (h : f.LaidOut gap body a b) : a ≤ b := by
  induction f generalizing a with
  | nil => exact hg.le h
  | cons n inner next _ ih =>
    obtain ⟨h1, h2, -, h4⟩ := h
    exact ((hg.le h1).trans (le_of_lt h2)).trans (ih h4)

lemma behind (hg : IsGap gap) (hz : gap z a) (h : f.LaidOut gap body a b) : f.LaidOut gap body z b := by
  cases f with
  | nil => exact hg.trans hz h
  | cons n inner next => exact ⟨hg.trans hz h.1, h.2⟩

lemma append (hg : IsGap gap) (h : f.LaidOut gap body a x) (h' : g.LaidOut gap body x b) :
    (f ++ g).LaidOut gap body a b := by
  induction f generalizing a with
  | nil => exact h'.behind hg h
  | cons n inner next _ ih => exact ⟨h.1, h.2.1, h.2.2.1, ih h.2.2.2⟩

lemma before (hg : IsGap gap) (h : f.LaidOut gap body a b) (hz : gap b z) : f.LaidOut gap body a z := by
  have := append hg (g := nil) h hz
  rwa [append_nil] at this

lemma inner {inner next : Forest} (h : (cons n inner next).LaidOut gap body a b) (hm : m ∈ inner.preorder) :
    ∃ x y, body n = some (x, y) ∧ n.span.start < x ∧ y ≤ n.span.stop ∧ inner.LaidOut gap body x y := by
  obtain ⟨-, -, h, -⟩ := h
  cases hb : body n with
  | none =>
    rw [hb] at h
    obtain rfl : inner = nil := h
    cases hm
  | some xy =>
    rw [hb] at h
    exact ⟨xy.1, xy.2, rfl, h⟩

lemma bounds (hg : IsGap gap) (h : f.LaidOut gap body a b) (hn : n ∈ f.preorder) :
    a ≤ n.span.start ∧ n.span.start < n.span.stop ∧ n.span.stop ≤ b := by
  induction f generalizing a b with
  | nil => cases hn
  | cons m inner next ih ih' =>
    have ha := hg.le h.1
    have hb := h.2.2.2.le hg
    simp only [preorder, List.mem_cons, List.mem_append] at hn
    rcases hn with rfl | hn | hn
    · exact ⟨ha, h.2.1, hb⟩
    · obtain ⟨x, y, -, hx, hy, hinner⟩ := h.inner hn
      obtain ⟨hs, hlt, he⟩ := ih hinner hn
      exact ⟨(ha.trans (le_of_lt hx)).trans hs, hlt, (he.trans hy).trans hb⟩
    · obtain ⟨hs, hlt, he⟩ := ih' h.2.2.2 hn
      exact ⟨(ha.trans (le_of_lt h.2.1)).trans hs, hlt, he⟩

lemma inner_bounds (hg : IsGap gap) {inner next : Forest} (h : (cons n inner next).LaidOut gap body a b)
    (hm : m ∈ inner.preorder) : n.span.start < m.span.start ∧ m.span.stop ≤ n.span.stop := by
  obtain ⟨x, y, -, hx, hy, hinner⟩ := h.inner hm
  obtain ⟨hs, -, he⟩ := hinner.bounds hg hm
  exact ⟨hx.trans_le hs, he.trans hy⟩

/-- Along the preorder every node starts after the one before it. -/
theorem increasing (hg : IsGap gap) (h : f.LaidOut gap body a b) :
    (f.preorder.map (·.span.start)).Pairwise (· < ·) := by
  induction f generalizing a b with
  | nil => exact List.Pairwise.nil
  | cons m inner next ih ih' =>
    have hnext : ∀ n ∈ next.preorder, m.span.stop ≤ n.span.start := fun n hn => (h.2.2.2.bounds hg hn).1
    have hin : (inner.preorder.map (·.span.start)).Pairwise (· < ·) := by
      by_cases hnil : inner.preorder = []
      · rw [hnil]
        exact List.Pairwise.nil
      · obtain ⟨n, hn⟩ := List.exists_mem_of_ne_nil _ hnil
        obtain ⟨x, y, -, -, -, hinner⟩ := h.inner hn
        exact ih hinner
    have hstart : ∀ n ∈ inner.preorder, m.span.start < n.span.start ∧ n.span.start < m.span.stop := by
      intro n hn
      obtain ⟨x, y, -, hx, hy, hinner⟩ := h.inner hn
      obtain ⟨hs, hlt, he⟩ := hinner.bounds hg hn
      exact ⟨hx.trans_le hs, (hlt.trans_le he).trans_le hy⟩
    rw [preorder, List.map_cons, List.map_append, List.pairwise_cons, List.pairwise_append]
    refine ⟨?_, hin, ih' h.2.2.2, ?_⟩
    · simp only [List.mem_append, List.mem_map]
      rintro _ (⟨n, hn, rfl⟩ | ⟨n, hn, rfl⟩)
      · exact (hstart n hn).1
      · exact h.2.1.trans_le (hnext n hn)
    · simp only [List.mem_map]
      rintro _ ⟨n, hn, rfl⟩ _ ⟨n', hn', rfl⟩
      exact (hstart n hn).2.trans_le (hnext n' hn')

end LaidOut
end Forest

namespace Builder

variable (gap : Position → Position → Prop) (body : Node → Option (Position × Position)) (a : Position)

/-- Where the level inside open nodes starts: a node that is open ends where its inside starts. -/
def levelStart : List OpenNode → Position
  | [] => a
  | o :: _ => o.node.span.stop

/-- The trees before each open node lie between the start of its level and the node. -/
def Opened : List OpenNode → Prop
  | [] => True
  | o :: rest =>
    (Forest.ofReversed o.before).LaidOut gap body (levelStart a rest) o.node.span.start ∧
      o.node.span.start < o.node.span.stop ∧ Opened rest

/-- What a builder holds when a text is read from one place to another. -/
structure LaidOut (b : Builder) (x : Position) : Prop where
  opened : Opened gap body a b.enclosing
  finished : (Forest.ofReversed b.finished).LaidOut gap body (levelStart a b.enclosing) x

variable {gap body a} {b : Builder} {x y : Position} {kind : Kind} {span : Span}

lemma laidOut_start (hg : IsGap gap) : start.LaidOut gap body a a := ⟨trivial, hg.refl a⟩

namespace LaidOut

lemma before (hg : IsGap gap) (h : b.LaidOut gap body a x) (hy : gap x y) : b.LaidOut gap body a y :=
  ⟨h.opened, h.finished.before hg hy⟩

lemma leaf (hg : IsGap gap) (h : b.LaidOut gap body a span.start)
    (hn : (Forest.cons ⟨b.count, kind, span⟩ .nil .nil).LaidOut gap body span.start span.stop) :
    (b.leaf kind span).LaidOut gap body a span.stop := by
  refine ⟨h.opened, ?_⟩
  rw [Builder.leaf, Forest.ofReversed_cons]
  exact h.finished.append hg hn

lemma enter (hg : IsGap gap) (h : b.LaidOut gap body a span.start) (hs : span.start < span.stop) :
    (b.enter kind span).LaidOut gap body a span.stop :=
  ⟨⟨h.finished, hs, h.opened⟩, hg.refl _⟩

lemma leave (hg : IsGap gap) (h : b.LaidOut gap body a x) {o : OpenNode} {rest : List OpenNode}
    (he : b.enclosing = o :: rest) {final : Node → Node}
    (hstart : (final o.node).span.start = o.node.span.start) (hx : x ≤ (final o.node).span.stop)
    (hbody : body (final o.node) = some (o.node.span.stop, x)) :
    (b.leave final).LaidOut gap body a (final o.node).span.stop := by
  obtain ⟨hopened, hfinished⟩ := h
  rw [he] at hopened hfinished
  obtain ⟨hbefore, hlt, hrest⟩ := hopened
  rw [leave_of_cons he]
  refine ⟨hrest, ?_⟩
  rw [Forest.ofReversed_cons]
  refine hbefore.append hg ?_
  rw [← hstart]
  exact Forest.laidOut_node hg hbody (by rwa [hstart]) hx hfinished (hfinished.le hg)

lemma abandon (hg : IsGap gap) (h : b.LaidOut gap body a x) {o : OpenNode} {rest : List OpenNode}
    (he : b.enclosing = o :: rest) (hbody : body o.node = none) :
    (b.abandon o rest).LaidOut gap body a x := by
  obtain ⟨hopened, hfinished⟩ := h
  rw [he] at hopened hfinished
  obtain ⟨hbefore, hlt, hrest⟩ := hopened
  refine ⟨hrest, ?_⟩
  rw [Builder.abandon, Forest.ofReversed_append, Forest.ofReversed_cons, Forest.append_assoc]
  exact hbefore.append hg ((Forest.laidOut_leaf hg hlt hbody).append hg hfinished)

lemma forest (h : b.LaidOut gap body a x) (he : b.enclosing = []) : b.forest.LaidOut gap body a x := by
  have hf := h.finished
  rw [he] at hf
  exact hf

end LaidOut
variable (gap body a) (done opened : Node → Prop)

/-- What a builder holds when a text is read from one place to another: its nodes are numbered as they were met
and laid out, each of them satisfies what a finished node does, and an open one what an open node does. -/
structure WellBuilt (b : Builder) (x : Position) : Prop where
  numbered : b.Numbered
  nodes {n : Node} (hn : n ∈ b.nodes) : done n
  laidOut : b.LaidOut gap body a x
  enclosing {o : OpenNode} (ho : o ∈ b.enclosing) : opened o.node

variable {gap body a done opened} {o : OpenNode} {rest : List OpenNode}

lemma mem_nodes_of_enclosing (he : b.enclosing = o :: rest) : o.node ∈ b.nodes := by
  simp [nodes, around, he]

namespace WellBuilt

lemma start (hg : IsGap gap) : WellBuilt gap body a done opened .start a where
  numbered := numbered_start
  nodes := nofun
  laidOut := laidOut_start hg
  enclosing := nofun

lemma before (hg : IsGap gap) (h : b.WellBuilt gap body a done opened x) (hy : gap x y) :
    b.WellBuilt gap body a done opened y :=
  ⟨h.numbered, h.nodes, h.laidOut.before hg hy, h.enclosing⟩

lemma leaf (hg : IsGap gap) (h : b.WellBuilt gap body a done opened span.start)
    (hn : done ⟨b.count, kind, span⟩)
    (hlaid : (Forest.cons ⟨b.count, kind, span⟩ .nil .nil).LaidOut gap body span.start span.stop) :
    (b.leaf kind span).WellBuilt gap body a done opened span.stop where
  numbered := h.numbered.leaf kind span
  nodes := by
    intro n hmem
    rw [nodes_leaf, List.mem_append, List.mem_singleton] at hmem
    rcases hmem with hmem | rfl
    · exact h.nodes hmem
    · exact hn
  laidOut := h.laidOut.leaf hg hlaid
  enclosing := h.enclosing

lemma enter (hg : IsGap gap) (h : b.WellBuilt gap body a done opened span.start)
    (hn : done ⟨b.count, kind, span⟩) (hlt : span.start < span.stop) (ho : opened ⟨b.count, kind, span⟩) :
    (b.enter kind span).WellBuilt gap body a done opened span.stop where
  numbered := h.numbered.enter kind span
  nodes := by
    intro n hmem
    rw [nodes_enter, List.mem_append, List.mem_singleton] at hmem
    rcases hmem with hmem | rfl
    · exact h.nodes hmem
    · exact hn
  laidOut := h.laidOut.enter hg hlt
  enclosing := by
    intro o hmem
    rcases List.mem_cons.1 hmem with rfl | hmem
    · exact ho
    · exact h.enclosing hmem

lemma leave (hg : IsGap gap) (h : b.WellBuilt gap body a done opened x) (he : b.enclosing = o :: rest)
    {final : Node → Node} (hid : ∀ n, (final n).id = n.id) (hn : done (final o.node))
    (hstart : (final o.node).span.start = o.node.span.start) (hx : x ≤ (final o.node).span.stop)
    (hbody : body (final o.node) = some (o.node.span.stop, x)) :
    (b.leave final).WellBuilt gap body a done opened (final o.node).span.stop where
  numbered := h.numbered.leave hid
  nodes := by
    intro n hmem
    obtain ⟨front, back, hb, hl⟩ := nodes_leave he final
    rw [hl] at hmem
    rcases List.mem_append.1 hmem with hmem | hmem
    · exact h.nodes (by simp [hb, hmem])
    · rcases List.mem_cons.1 hmem with rfl | hmem
      · exact hn
      · exact h.nodes (by simp [hb, hmem])
  laidOut := h.laidOut.leave hg he hstart hx hbody
  enclosing := by
    intro o' hmem
    rw [leave_of_cons he] at hmem
    exact h.enclosing (by rw [he]; exact List.mem_cons_of_mem _ hmem)

lemma abandonWhile (hg : IsGap gap) (h : b.WellBuilt gap body a done opened x)
    (hbody : ∀ n, opened n → body n = none) (p : Node → Bool) :
    (b.abandonWhile p).WellBuilt gap body a done opened x := by
  refine abandonWhile_induction (motive := fun c => c.WellBuilt gap body a done opened x) h
    fun c o rest he hc => ⟨?_, ?_, ?_, ?_⟩
  · rw [Numbered, nodes_abandon he]
    exact hc.numbered
  · rw [nodes_abandon he]
    exact hc.nodes
  · exact hc.laidOut.abandon hg he (hbody _ (hc.enclosing (o := o) (by simp [he])))
  · exact fun ho => hc.enclosing (by rw [he]; exact List.mem_cons_of_mem _ ho)

lemma open_stop_le (hg : IsGap gap) (h : b.WellBuilt gap body a done opened x) (he : b.enclosing = o :: rest) :
    o.node.span.stop ≤ x := by
  have hf := h.laidOut.finished.le hg
  rwa [he] at hf

end WellBuilt
end Builder
end AbbrevSite
