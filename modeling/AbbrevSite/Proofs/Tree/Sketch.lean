import AbbrevSite.Proofs.Tree.Closing

/-! Sketches of nodes. The sketch of a node leaves out the texts of its tokens, or of one node all but the number.
Builders that agree in it, and in how many nodes they have, build forests that agree in it. -/
namespace AbbrevSite

namespace Builder

def mapNodes (f : Node → Node) (b : Builder) : Builder :=
  ⟨b.count, b.finished.map (Forest.mapTree f), b.enclosing.map (OpenNode.mapNodes f)⟩

variable {b c : Builder} {f : Node → Node} {kind kind' : Kind} {span span' : Span} {stop : Position}

lemma mapNodes_eq_iff : b.mapNodes f = c.mapNodes f ↔ b.count = c.count ∧ AgreeIn f b c := by
  rw [mapNodes, mapNodes, mk.injEq]
  exact and_congr_right fun _ => ⟨fun h => ⟨h.1, h.2⟩, fun h => ⟨h.finished, h.enclosing⟩⟩

lemma mapNodes_leaf_congr (h : b.mapNodes f = c.mapNodes f)
    (hf : f ⟨b.count, kind, span⟩ = f ⟨b.count, kind', span'⟩) :
    (b.leaf kind span).mapNodes f = (c.leaf kind' span').mapNodes f := by
  obtain ⟨hcount, hagree⟩ := mapNodes_eq_iff.1 h
  exact mapNodes_eq_iff.2 ⟨by simp [leaf, hcount], hagree.leaf (hcount ▸ hf)⟩

lemma mapNodes_enter_congr (h : b.mapNodes f = c.mapNodes f)
    (hf : f ⟨b.count, kind, span⟩ = f ⟨b.count, kind', span'⟩) :
    (b.enter kind span).mapNodes f = (c.enter kind' span').mapNodes f := by
  obtain ⟨hcount, hagree⟩ := mapNodes_eq_iff.1 h
  exact mapNodes_eq_iff.2 ⟨by simp [enter, hcount], hagree.enter (hcount ▸ hf)⟩

lemma mapNodes_leave_congr (h : b.mapNodes f = c.mapNodes f) {final : Node → Node}
    (hf : ∀ m n : Node, f m = f n → f (final m) = f (final n)) :
    (b.leave final).mapNodes f = (c.leave final).mapNodes f := by
  obtain ⟨hcount, hagree⟩ := mapNodes_eq_iff.1 h
  exact mapNodes_eq_iff.2 ⟨by rw [count_leave, count_leave, hcount], hagree.leave hf⟩

lemma mapNodes_leaveAll_congr (h : b.mapNodes f = c.mapNodes f) {final : Node → Node}
    (hf : ∀ m n : Node, f m = f n → f (final m) = f (final n)) :
    (b.leaveAll final).mapNodes f = (c.leaveAll final).mapNodes f := by
  have hlen : b.enclosing.length = c.enclosing.length := by
    simpa using congrArg List.length (mapNodes_eq_iff.1 h).2.enclosing
  fun_induction leaveAll b final generalizing c with
  | case1 b hb =>
    rw [hb, List.length_nil, eq_comm, List.length_eq_zero_iff] at hlen
    rwa [leaveAll, dif_pos hlen]
  | case2 b hb ih =>
    have hc : c.enclosing ≠ [] := by
      rintro hc
      rw [hc, List.length_nil, List.length_eq_zero_iff] at hlen
      exact hb hlen
    rw [leaveAll.eq_def c, dif_neg hc]
    have hleave := mapNodes_leave_congr h hf
    exact ih hleave (by simpa using congrArg List.length (mapNodes_eq_iff.1 hleave).2.enclosing)

lemma mapNodes_forest_congr (h : b.mapNodes f = c.mapNodes f) :
    b.forest.mapNodes f = c.forest.mapNodes f := by
  unfold forest
  rw [Forest.mapNodes_ofReversed, Forest.mapNodes_ofReversed, (mapNodes_eq_iff.1 h).2.finished]

end Builder

def Token.untexted (t : Token) : Token := ⟨t.span, ""⟩

def Kind.untexted : Kind → Kind
  | .rule selector opening closing =>
    .rule selector.untexted opening.untexted (closing.map .untexted)
  | .atRule name expression opening closing =>
    .atRule name.untexted (expression.map .untexted) (opening.map .untexted) (closing.map .untexted)
  | .property name separator value terminator =>
    .property name.untexted (separator.map .untexted) (value.map .untexted) (terminator.map .untexted)
  | .element name opening closing attributes =>
    .element name.untexted opening.untexted (closing.map .untexted)
      (attributes.map fun a => ⟨a.name.untexted, a.value.map .untexted⟩)
  | k => k

lemma Kind.untexted_close (closing : Token) (k : Kind) :
    (k.close closing).untexted = k.untexted.close closing.untexted := by
  cases k <;> rfl

/-- The node without the texts of its tokens; of the node of number `hidden` only the number is left. -/
def Node.sketch (hidden : Option Nat) (n : Node) : Node :=
  if hidden = some n.id then ⟨n.id, .document, .emptyAt .origin⟩ else { n with kind := n.kind.untexted }

namespace Node

variable {hidden : Option Nat} {m n : Node}

@[simp] lemma sketch_id : (n.sketch hidden).id = n.id := by
  unfold sketch
  split_ifs <;> rfl

lemma sketch_eq_iff : m.sketch hidden = n.sketch hidden ↔
    m.id = n.id ∧ (hidden = some n.id ∨ m.kind.untexted = n.kind.untexted ∧ m.span = n.span) := by
  constructor
  · intro h
    have hid : m.id = n.id := by simpa using congrArg Node.id h
    refine ⟨hid, or_iff_not_imp_left.2 fun hh => ?_⟩
    rw [sketch, sketch, hid, if_neg hh, if_neg hh, Node.mk.injEq] at h
    exact h.2
  · rintro ⟨hid, hh⟩
    rw [sketch, sketch, hid]
    split_ifs with hc
    · rfl
    · obtain ⟨hk, hs⟩ := hh.resolve_left hc
      rw [hk, hs]

end Node
end AbbrevSite
