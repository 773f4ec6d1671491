import AbbrevSite.Proofs.Markup.Nesting

/-! What the pieces of a markup text make of the nodes of its tree. A property that holds of every node a piece adds,
and still holds of an element that a closing tag closes, holds of the whole tree. -/
namespace AbbrevSite.Markup

/-- A piece that adds nodes with a property `P`, or closes an element with it. Elements that are left open also have a
property `Q`. -/
def Piece.Gives (P Q : Node → Prop) : Piece → Prop
  | .comment span => ∀ id, P ⟨id, .comment, span⟩
  | .closing name whole => ∀ n, P n → Q n → n.kind.isElementNamed name.text = true → P (closeNode whole n)
  | .opening name whole attributes body =>
    match body with
    | .open => ∀ id, P ⟨id, .element name whole none attributes, whole.span⟩ ∧
        Q ⟨id, .element name whole none attributes, whole.span⟩
    | .empty | .raw none => ∀ id, P ⟨id, .element name whole none attributes, whole.span⟩
    | .raw (some tag) =>
      ∀ id, P ⟨id, .element name whole (some tag) attributes, .between whole.span.start tag.span.stop⟩

/-- A builder with a property of all its nodes and another one of those still open. -/
structure NodesHold (P Q : Node → Prop) (B : Builder) : Prop where
  nodes : ∀ n ∈ B.nodes, P n
  enclosing : ∀ o ∈ B.enclosing, Q o.node

namespace NodesHold

variable {P Q : Node → Prop} {B : Builder} {kind : Kind} {span : Span} {name whole : Token}

lemma leaf (hB : NodesHold P Q B) (hP : P ⟨B.count, kind, span⟩) : NodesHold P Q (B.leaf kind span) := by
  refine ⟨?_, hB.enclosing⟩
  rw [Builder.nodes_leaf, List.forall_mem_append, List.forall_mem_singleton]
  exact ⟨hB.nodes, hP⟩

lemma enter (hB : NodesHold P Q B) (hP : P ⟨B.count, kind, span⟩) (hQ : Q ⟨B.count, kind, span⟩) :
    NodesHold P Q (B.enter kind span) := by
  refine ⟨?_, ?_⟩
  · rw [Builder.nodes_enter, List.forall_mem_append, List.forall_mem_singleton]
    exact ⟨hB.nodes, hP⟩
  · rw [Builder.enter, List.forall_mem_cons]
    exact ⟨hQ, hB.enclosing⟩

lemma abandonWhile (hB : NodesHold P Q B) (p : Node → Bool) : NodesHold P Q (B.abandonWhile p) := by
  refine ⟨?_, fun o ho => hB.enclosing o ((List.dropWhile_suffix _).subset ho)⟩
  rw [Builder.nodes_abandonWhile]
  exact hB.nodes

lemma leave (hB : NodesHold P Q B) {final : Node → Node}
    (hfinal : ∀ o ∈ B.enclosing.head?, P o.node → P (final o.node)) : NodesHold P Q (B.leave final) := by
  refine ⟨Builder.forall_nodes_leave_of_open hB.nodes hfinal, ?_⟩
  unfold Builder.leave
  split
  · exact hB.enclosing
  · rename_i o rest he
    exact fun o ho => hB.enclosing o (by rw [he]; exact List.mem_cons_of_mem _ ho)

lemma closeElement (hB : NodesHold P Q B)
    (hclose : ∀ n, P n → Q n → n.kind.isElementNamed name.text = true → P (closeNode whole n)) :
    NodesHold P Q (closeElement name whole B) := by
  unfold Markup.closeElement
  dsimp only
  split_ifs
  · refine (hB.abandonWhile _).leave fun o ho hP => ?_
    have hnamed := List.head?_dropWhile_not (fun o : OpenNode => !o.node.kind.isElementNamed name.text) B.enclosing
    have hmem : o ∈ B.enclosing := (List.dropWhile_suffix _).subset (List.mem_of_mem_head? ho)
    rw [Builder.abandonWhile, Option.mem_def] at ho
    rw [ho] at hnamed
    exact hclose o.node hP (hB.enclosing o hmem) (by simpa using hnamed)
  · exact hB

theorem addPiece (hB : NodesHold P Q B) {p : Piece} (hp : p.Gives P Q) : NodesHold P Q (addPiece B p) := by
  cases p with
  | comment span => exact hB.leaf (hp _)
  | closing name whole => exact hB.closeElement hp
  | opening name whole attributes body =>
    cases body with
    | «open» => exact hB.enter (hp _).1 (hp _).2
    | empty => exact hB.leaf (hp _)
    | raw closing =>
      cases closing with
      | none => exact hB.leaf (hp _)
      | some closing => exact hB.leaf (hp _)

theorem foldl_addPiece {ps : List Piece} (hps : ∀ p ∈ ps, p.Gives P Q) (hB : NodesHold P Q B) :
    NodesHold P Q (ps.foldl Markup.addPiece B) := by
  induction ps generalizing B with
  | nil => exact hB
  | cons p ps ih =>
    rw [List.forall_mem_cons] at hps
    exact ih hps.2 (hB.addPiece hps.1)

end NodesHold

theorem forall_nodes_parse {d : Document} {w : Span} {dialect : Dialect} {P Q : Node → Prop}
    (hps : ∀ p ∈ pieces w.stop dialect.hasVoidElements d (d.glyphs w.start w.stop), p.Gives P Q) :
    ∀ n ∈ (parse (Cursor.within d w.start w) dialect).forest.preorder, P n := by
  rw [parse_within_eq]
  have hstart : NodesHold P Q .start := ⟨by simp, by simp [Builder.start]⟩
  have hnodes := (hstart.foldl_addPiece hps).nodes
  rw [← Builder.nodes_abandonWhile fun _ => true] at hnodes
  exact Builder.nodes_of_enclosing_nil (Builder.enclosing_abandonAll _) ▸ hnodes

/-- What holds of every piece of a rest of a window holds of every piece in it, if it holds of the one that is read
at each angle bracket. -/
theorem forall_pieces {d : Document} {b x : Position} (hb : d.Valid b) (voids : Bool) {P : Piece → Prop}
    (hP : ∀ {x : Position} {g : Glyph} {gs : List Glyph}, RestAt d b x (g :: gs) → g.char = '<' →
      ∀ p ∈ (pieceAt b voids d g gs).1, P p)
    {gs : List Glyph} (h : RestAt d b x gs) : ∀ p ∈ pieces b voids d gs, P p := by
  match gs with
  | [] => simp [pieces, piecesOnto]
  | g :: gs =>
    by_cases hangle : g.char = '<'
    · obtain ⟨y, hy, -, -⟩ := pieceAt_reads voids hb h
      have := length_pieceAt b voids d g gs
      have hothers := forall_pieces hb voids hP hy
      rw [pieces_of_angle hangle, List.forall_mem_append]
      exact ⟨fun p hp => hP h hangle p (Option.mem_toList.1 hp), hothers⟩
    · obtain ⟨y, hy, -, -⟩ := h.suffix hb (List.suffix_cons g gs)
      rw [pieces_of_ne hangle]
      exact forall_pieces hb voids hP hy
termination_by gs.length

end AbbrevSite.Markup
