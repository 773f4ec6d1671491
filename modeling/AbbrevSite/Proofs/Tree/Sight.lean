import AbbrevSite.Proofs.Text.Order
import AbbrevSite.Proofs.Tree.Closing
import AbbrevSite.Tree.Lookup

/-! What a lookup sees of the node it finds: what the node is, its closing token left out, and whether its
parent is a block. Trees that come after a position, numbers and the places at which nodes around it end
have no part in that. -/
namespace AbbrevSite

/-- The same node without its closing token. -/
def Kind.opened : Kind → Kind
  | .rule selector opening _ => .rule selector opening none
  | .atRule name expression opening _ => .atRule name expression opening none
  | .element name opening _ attributes => .element name opening none attributes
  | k => k

lemma Kind.opened_close (token : Token) (k : Kind) : (k.close token).opened = k.opened := by
  cases k <;> rfl

@[simp] lemma Kind.isBlock_opened (k : Kind) : k.opened.isBlock = k.isBlock := by cases k <;> rfl

def Found.sight (f : Found) : Kind × Bool := (f.node.kind.opened, f.parent.kind.isBlock)

lemma Span.holds_true (s : Span) (p : Position) : s.holds p true = s.contains p := by
  unfold Span.holds
  by_cases h : s.encloses p = true
  · rw [h, contains_of_encloses h]
    rfl
  · simp [h]

namespace Forest

variable {p stop stop' : Position} {f g : Forest} {n m : Node}

/-- What a lookup at a position sees, the ends of nodes included; `above` if it finds nothing. -/
def sight (p : Position) (inBlock : Bool) (above : Option (Kind × Bool)) :
    Forest → Option (Kind × Bool)
  | nil => above
  | cons n inner next =>
    if n.span.contains p then inner.sight p n.kind.isBlock (some (n.kind.opened, inBlock))
    else next.sight p inBlock above

theorem sight_descend (parent : Node) (above : Option Found) :
    (f.descend (fun n => n.span.holds p true) parent above).map Found.sight =
      f.sight p parent.kind.isBlock (above.map Found.sight) := by
  induction f generalizing parent above with
  | nil => rfl
  | cons n inner next ih ih' =>
    rw [descend, sight, Span.holds_true]
    split_ifs with h
    · exact ih n _
    · exact ih' parent above

/-- Whether a tree of the first level reaches a position. -/
def reaches (p : Position) (f : Forest) : Bool := f.roots.any fun n => n.span.contains p

lemma sight_append (inBlock : Bool) (above : Option (Kind × Bool)) :
    (f ++ g).sight p inBlock above =
      if f.reaches p then f.sight p inBlock above else g.sight p inBlock above := by
  induction f with
  | nil => simp [reaches, roots]
  | cons n inner next _ ih =>
    rw [cons_append, sight, sight, ih]
    cases h : n.span.contains p <;> simp [reaches, roots, h]

lemma sight_of_not_reaches {inBlock : Bool} {above : Option (Kind × Bool)}
    (h : f.reaches p = false) : f.sight p inBlock above = above := by
  have ha := sight_append (f := f) (g := nil) (p := p) inBlock above
  rwa [append_nil, h, if_neg Bool.false_ne_true] at ha

lemma sight_eq_or (inBlock : Bool) (above : Option (Kind × Bool)) :
    f.sight p inBlock above = (f.sight p inBlock none).or above := by
  induction f generalizing inBlock above with
  | nil => rfl
  | cons n inner next ih ih' =>
    rw [sight, sight]
    split_ifs with h
    · rw [ih]
      cases inner.sight p n.kind.isBlock none <;> rfl
    · exact ih' inBlock above

lemma sight_unnumbered (inBlock : Bool) (above : Option (Kind × Bool)) :
    f.unnumbered.sight p inBlock above = f.sight p inBlock above := by
  induction f generalizing inBlock above with
  | nil => rfl
  | cons n inner next ih ih' =>
    rw [unnumbered, sight, sight, ih, ih']
    rfl

/-- At a position two forests show the same. -/
def AgreeAt (p : Position) (f g : Forest) : Prop :=
  ∀ (inBlock : Bool) (above : Option (Kind × Bool)),
    f.sight p inBlock above = g.sight p inBlock above

lemma AgreeAt.refl (p : Position) (f : Forest) : AgreeAt p f f := fun _ _ => rfl

lemma AgreeAt.symm (h : AgreeAt p f g) : AgreeAt p g f := fun b a => (h b a).symm

lemma AgreeAt.trans {e : Forest} (h : AgreeAt p e f) (h' : AgreeAt p f g) : AgreeAt p e g :=
  fun b a => (h b a).trans (h' b a)

lemma agreeAt_of_unnumbered (h : f.unnumbered = g.unnumbered) : AgreeAt p f g := by
  intro b a
  rw [← sight_unnumbered, h, sight_unnumbered]

lemma AgreeAt.append_left (e : Forest) (h : AgreeAt p f g) : AgreeAt p (e ++ f) (e ++ g) := by
  intro b a
  rw [sight_append, sight_append, h]

lemma AgreeAt.cons (hs : n.span.contains p = m.span.contains p)
    (hk : n.kind.opened = m.kind.opened) (h : AgreeAt p f g) :
    AgreeAt p (.cons n f .nil) (.cons m g .nil) := by
  intro b a
  have hb : n.kind.isBlock = m.kind.isBlock := by
    rw [← Kind.isBlock_opened, hk, Kind.isBlock_opened]
  rw [sight, sight, hs, hk, hb, h]
  rfl

lemma agreeAt_concat (h : n.span.contains p = false) (f g : Forest) :
    AgreeAt p (f ++ .cons n g .nil) f := by
  intro b a
  rw [sight_append]
  cases hf : f.reaches p with
  | true => rfl
  | false =>
    rw [sight_of_not_reaches hf]
    simp [sight, h]

end Forest

namespace Forest

variable {p stop stop' : Position} {f g : Forest}

lemma AgreeAt.inside (es : List OpenNode) (hs : p < stop) (hs' : p < stop') (h : AgreeAt p f g) :
    AgreeAt p (.inside stop es f) (.inside stop' es g) := by
  induction es generalizing f g with
  | nil => exact h
  | cons o es ih =>
    refine ih (.append_left _ (.cons ?_ rfl h))
    rw [Node.endingAt, Node.endingAt, Span.contains_between_of_lt hs,
      Span.contains_between_of_lt hs']

/-- An open node that has started before the position, and after all trees before it. -/
def Surrounds (p : Position) (o : OpenNode) : Prop :=
  o.node.span.start ≤ p ∧ ∀ t ∈ o.before, t.1.span.contains p = false

lemma roots_ofReversed (trees : List (Node × Forest)) :
    (ofReversed trees).roots = (trees.map (·.1)).reverse := by
  induction trees with
  | nil => rfl
  | cons t trees ih =>
    rw [ofReversed_cons, roots_append, ih]
    simp [roots]

lemma Surrounds.not_reaches {o : OpenNode} (h : Surrounds p o) :
    (ofReversed o.before).reaches p = false := by
  simp only [reaches, roots_ofReversed, List.any_reverse, List.any_map, List.any_eq_false,
    Function.comp_apply, Bool.not_eq_true]
  exact fun t ht => h.2 t ht

/-- A lookup inside open nodes that surround the position goes down into the innermost. -/
theorem sight_inside (hp : p ≤ stop) (o : OpenNode) (es : List OpenNode)
    (h : ∀ e ∈ o :: es, Surrounds p e) (inBlock : Bool) (above : Option (Kind × Bool)) :
    (inside stop (o :: es) f).sight p inBlock above =
      f.sight p o.node.kind.isBlock (some (o.node.kind.opened,
        (es.head?.map (·.node.kind.isBlock)).getD inBlock)) := by
  induction es generalizing o f with
  | nil =>
    have ho := h o (by simp)
    rw [inside, inside, sight_append, ho.not_reaches]
    simp [sight, Node.endingAt, Span.contains_between ho.1 hp]
  | cons e es ih =>
    have ho := h o (by simp)
    rw [inside, ih e fun x hx => h x (by simp [hx]), sight_append, ho.not_reaches]
    simp [sight, Node.endingAt, Span.contains_between ho.1 hp]

end Forest

namespace Builder

open Forest (AgreeAt)

variable {b : Builder} {p stop stop' : Position}

lemma agreeAt_closedAt (hs : p < stop) (hs' : p < stop') :
    AgreeAt p (b.closedAt stop) (b.closedAt stop') :=
  .inside _ hs hs' (.refl p _)

lemma agreeAt_leaf {kind : Kind} {span : Span} (hs : p < stop) (hs' : p < stop')
    (h : p < span.start) : AgreeAt p (b.closedAt stop) ((b.leaf kind span).closedAt stop') := by
  refine .inside _ hs hs' ?_
  rw [leaf, Forest.ofReversed_cons]
  exact (Forest.agreeAt_concat (Span.contains_of_lt_start h) _ _).symm

lemma agreeAt_enter {kind : Kind} {span : Span} (hs : p < stop) (hs' : p < stop')
    (h : p < span.start) : AgreeAt p (b.closedAt stop) ((b.enter kind span).closedAt stop') := by
  refine .inside _ hs hs' ?_
  exact (Forest.agreeAt_concat (Span.contains_of_lt_start (Span.lt_between_start h hs')) _ _).symm

lemma agreeAt_leave {final : Node → Node} (hs : p < stop) (hs' : p < stop')
    (hk : ∀ n, (final n).kind.opened = n.kind.opened)
    (hn : ∀ n, (final n).span.contains p = (n.endingAt stop).span.contains p) :
    AgreeAt p (b.closedAt stop) ((b.leave final).closedAt stop') := by
  unfold leave
  split
  · exact agreeAt_closedAt hs hs'
  · rename_i o rest he
    rw [closedAt, he]
    refine .inside rest hs hs' ?_
    rw [Forest.ofReversed_cons]
    exact .append_left _ (.cons (hn o.node).symm (hk o.node).symm (.refl p _))

end Builder
end AbbrevSite
