import AbbrevSite.Tree.Builder
import Mathlib.Tactic.Common

/-! Forests up to a part of what their nodes hold. Building a forest looks at nothing in a node, so builders
that agree in a part of every node build forests that agree in it: builders that differ in the numbers of their
nodes alone build forests that differ in numbers alone. -/
namespace AbbrevSite

namespace Forest

def mapNodes (f : Node → Node) : Forest → Forest
  | nil => nil
  | cons n inner next => cons (f n) (inner.mapNodes f) (next.mapNodes f)

def mapTree (f : Node → Node) (t : Node × Forest) : Node × Forest := (f t.1, t.2.mapNodes f)

variable {f : Node → Node}

@[simp] lemma mapNodes_append (t u : Forest) :
    (t ++ u).mapNodes f = t.mapNodes f ++ u.mapNodes f := by
  induction t with
  | nil => rfl
  | cons n inner next _ ih => simp [mapNodes, ih]

lemma mapNodes_ofReversed (trees : List (Node × Forest)) :
    (ofReversed trees).mapNodes f = ofReversed (trees.map (mapTree f)) := by
  induction trees with
  | nil => rfl
  | cons t trees ih =>
    rw [ofReversed_cons, mapNodes_append, ih, List.map_cons, ofReversed_cons]
    rfl

end Forest

def OpenNode.mapNodes (f : Node → Node) (o : OpenNode) : OpenNode :=
  ⟨f o.node, o.before.map (Forest.mapTree f)⟩

namespace Builder

/-- Two builders whose nodes, finished and open, agree in a part of each. -/
structure AgreeIn (f : Node → Node) (b c : Builder) : Prop where
  finished : b.finished.map (Forest.mapTree f) = c.finished.map (Forest.mapTree f)
  enclosing : b.enclosing.map (OpenNode.mapNodes f) = c.enclosing.map (OpenNode.mapNodes f)

namespace AgreeIn

variable {b c : Builder} {f : Node → Node} {kind kind' : Kind} {span span' : Span}

lemma leaf (h : AgreeIn f b c) (hf : f ⟨b.count, kind, span⟩ = f ⟨c.count, kind', span'⟩) :
    AgreeIn f (b.leaf kind span) (c.leaf kind' span') :=
  ⟨by simp [Builder.leaf, Forest.mapTree, hf, h.finished], h.enclosing⟩

lemma enter (h : AgreeIn f b c) (hf : f ⟨b.count, kind, span⟩ = f ⟨c.count, kind', span'⟩) :
    AgreeIn f (b.enter kind span) (c.enter kind' span') :=
  ⟨rfl, by simp [Builder.enter, OpenNode.mapNodes, hf, h.finished, h.enclosing]⟩

lemma leave (h : AgreeIn f b c) {final : Node → Node} (hf : ∀ m n : Node, f m = f n → f (final m) = f (final n)) :
    AgreeIn f (b.leave final) (c.leave final) := by
  have henc := h.enclosing
  unfold Builder.leave
  cases hb : b.enclosing with
  | nil =>
    rw [hb, List.map_nil, eq_comm, List.map_eq_nil_iff] at henc
    simpa only [henc] using h
  | cons o rest =>
    rw [hb, List.map_cons] at henc
    obtain ⟨o', rest', hc, ho, hrest⟩ := List.map_eq_cons_iff.1 henc.symm
    simp only [OpenNode.mapNodes, OpenNode.mk.injEq] at ho
    simp only [hc]
    refine ⟨?_, hrest.symm⟩
    simp only [List.map_cons, ho.2, Forest.mapTree, Forest.mapNodes_ofReversed, hf _ _ ho.1]
    rw [h.finished]

end AgreeIn
end Builder

def Node.unnumbered (n : Node) : Node := { n with id := 0 }

namespace Forest

/-- The forest without the numbers of its nodes: what they are, where they stand and their order. -/
def unnumbered : Forest → Forest
  | nil => nil
  | cons n inner next => cons n.unnumbered inner.unnumbered next.unnumbered

lemma unnumbered_eq_mapNodes (f : Forest) : f.unnumbered = f.mapNodes Node.unnumbered := by
  induction f with
  | nil => rfl
  | cons n inner next ih ih' => rw [unnumbered, ih, ih', mapNodes]

@[simp] lemma unnumbered_append (f g : Forest) :
    (f ++ g).unnumbered = f.unnumbered ++ g.unnumbered := by simp [unnumbered_eq_mapNodes]

lemma unnumbered_eq_nil {f : Forest} : f.unnumbered = nil ↔ f = nil := by
  cases f <;> simp [unnumbered]

def unnumberedTree (t : Node × Forest) : Node × Forest := (t.1.unnumbered, t.2.unnumbered)

lemma unnumberedTree_eq_mapTree : unnumberedTree = mapTree Node.unnumbered :=
  funext fun t => Prod.ext rfl t.2.unnumbered_eq_mapNodes

lemma unnumbered_ofReversed (trees : List (Node × Forest)) :
    (ofReversed trees).unnumbered = ofReversed (trees.map unnumberedTree) := by
  rw [unnumbered_eq_mapNodes, mapNodes_ofReversed, unnumberedTree_eq_mapTree]

lemma unnumbered_ofReversed_congr {trees others : List (Node × Forest)}
    (h : trees.map unnumberedTree = others.map unnumberedTree) :
    (ofReversed trees).unnumbered = (ofReversed others).unnumbered := by
  rw [unnumbered_ofReversed, unnumbered_ofReversed, h]

end Forest

open Forest (unnumberedTree)

def OpenNode.unnumbered (o : OpenNode) : OpenNode :=
  ⟨o.node.unnumbered, o.before.map unnumberedTree⟩

lemma OpenNode.unnumbered_eq_mapNodes : OpenNode.unnumbered = OpenNode.mapNodes Node.unnumbered := by
  funext o
  rw [unnumbered, Forest.unnumberedTree_eq_mapTree, mapNodes]

namespace Builder

def unnumbered (b : Builder) : Builder :=
  ⟨0, b.finished.map unnumberedTree, b.enclosing.map OpenNode.unnumbered⟩

variable {b c : Builder}

lemma unnumbered_eq_iff : b.unnumbered = c.unnumbered ↔
    b.finished.map unnumberedTree = c.finished.map unnumberedTree ∧
      b.enclosing.map OpenNode.unnumbered = c.enclosing.map OpenNode.unnumbered := by
  simp [unnumbered]

lemma unnumbered_eq_iff_agreeIn : b.unnumbered = c.unnumbered ↔ AgreeIn Node.unnumbered b c := by
  rw [unnumbered_eq_iff, Forest.unnumberedTree_eq_mapTree, OpenNode.unnumbered_eq_mapNodes]
  exact ⟨fun h => ⟨h.1, h.2⟩, fun h => ⟨h.finished, h.enclosing⟩⟩

lemma leaf_congr (h : b.unnumbered = c.unnumbered) (kind : Kind) (span : Span) :
    (b.leaf kind span).unnumbered = (c.leaf kind span).unnumbered := by
  rw [unnumbered_eq_iff_agreeIn] at h ⊢
  exact h.leaf rfl

lemma enter_congr (h : b.unnumbered = c.unnumbered) (kind : Kind) (span : Span) :
    (b.enter kind span).unnumbered = (c.enter kind span).unnumbered := by
  rw [unnumbered_eq_iff_agreeIn] at h ⊢
  exact h.enter rfl

lemma leave_congr (h : b.unnumbered = c.unnumbered) {final : Node → Node}
    (hf : ∀ m n : Node, m.unnumbered = n.unnumbered →
      (final m).unnumbered = (final n).unnumbered) :
    (b.leave final).unnumbered = (c.leave final).unnumbered := by
  rw [unnumbered_eq_iff_agreeIn] at h ⊢
  exact h.leave hf

end Builder
end AbbrevSite
