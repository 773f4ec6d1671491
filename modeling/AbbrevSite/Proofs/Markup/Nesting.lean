import AbbrevSite.Markup.Parse
import AbbrevSite.Proofs.Markup.Pieces
import AbbrevSite.Proofs.Tree.Layout

/-! The tree of a markup text is well nested, whatever the text. A closing tag may leave any number of elements
unclosed; each of them shrinks to its opening tag, and what it held comes after it on the same level, where it
stood in the text anyway. -/
namespace AbbrevSite.Markup

open Document

def bodyOf (n : Node) : Option (Position × Position) := n.kind.innerSpan?.map fun s => (s.start, s.stop)

/-- An element that reaches from its opening tag to its closing tag, or over its opening tag alone, with its tags in
order in it and its name and its attributes in order in the opening tag. -/
def WellTagged (d : Document) (n : Node) : Prop :=
  match n.kind with
  | .element name opening closing attributes =>
    n.span.start = opening.span.start ∧
      n.span.stop = (closing.map (·.span.stop)).getD opening.span.stop ∧
      d.InOrder n.span.start (opening :: closing.toList) n.span.stop ∧
      d.InOrder opening.span.start (name :: attributes.flatMap Attribute.tokens) opening.span.stop
  | _ => True

/-- A well-nested tree: the numbers follow the preorder and so do the places where nodes start; the trees of a level
follow each other within the inside of their element, those of the first level within the span of the tree, and
nothing but a closed element holds any; every element is well tagged. -/
structure WellNested (d : Document) (t : Tree) : Prop where
  numbered : t.preorder.map (·.id) = List.range t.size
  increasing : (t.forest.preorder.map (·.span.start)).Pairwise (· < ·)
  laidOut : t.forest.LaidOut (· ≤ ·) bodyOf t.root.span.start t.root.span.stop
  wellTagged {n : Node} (hn : n ∈ t.preorder) : WellTagged d n

variable {d : Document} {a x y : Position} {b : Builder} {n : Node} {whole : Token}

def Unclosed (n : Node) : Prop := ∃ name opening attributes, n.kind = .element name opening none attributes

/-- What a builder holds when a markup text is read from one place up to another. -/
abbrev Built (d : Document) (a : Position) (b : Builder) (x : Position) : Prop :=
  b.WellBuilt (· ≤ ·) bodyOf a (WellTagged d) Unclosed x

lemma Unclosed.bodyOf (h : Unclosed n) : bodyOf n = none := by
  obtain ⟨name, opening, attributes, hk⟩ := h
  simp only [Markup.bodyOf, hk, Kind.innerSpan?, Option.map_none]

lemma Unclosed.closeNode (h : Unclosed n) (ht : WellTagged d n) (hstop : n.span.stop ≤ whole.span.start)
    (htext : whole.text = d.textOf whole.span) :
    WellTagged d (closeNode whole n) ∧ (closeNode whole n).span.start = n.span.start ∧
      (closeNode whole n).span.stop = whole.span.stop ∧
      Markup.bodyOf (closeNode whole n) = some (n.span.stop, whole.span.start) := by
  obtain ⟨id, kind, span⟩ := n
  obtain ⟨name, opening, attributes, rfl⟩ := h
  obtain ⟨hstart, hend, htags, hparts⟩ := ht
  have hend : span.stop = opening.span.stop := hend
  have hle : span.start ≤ whole.span.stop := (span.ordered.trans hstop).trans whole.span.ordered
  unfold Markup.closeNode
  rw [Span.between_of_le hle]
  refine ⟨⟨hstart, rfl, ?_, hparts⟩, rfl, rfl, ?_⟩
  · have hwhole : d.InOrder span.stop [whole] whole.span.stop := .cons htext hstop (le_refl _)
    exact htags.append hwhole
  · show some _ = _
    rw [Span.between_of_le (show opening.span.stop ≤ whole.span.start from hend ▸ hstop)]
    exact congrArg (fun z => some (z, whole.span.start)) hend.symm

lemma Built.closeElement (h : Built d a b x) {name : Token} (ht : d.InOrder x [whole] y) :
    Built d a (closeElement name whole b) y := by
  obtain ⟨hx, htext, hy⟩ := ht
  unfold Markup.closeElement
  dsimp only
  split_ifs with hnamed
  · -- what stands inside the element is left unclosed, the element then closes
    have hab := (h.before isGap_le hx).abandonWhile isGap_le (fun _ => Unclosed.bodyOf)
      fun n => !n.kind.isElementNamed name.text
    generalize b.abandonWhile (fun n => !n.kind.isElementNamed name.text) = c at hab
    cases he : c.enclosing with
    | nil =>
      have hl : c.leave (closeNode whole) = c := by simp only [Builder.leave, he]
      rw [hl]
      exact hab.before isGap_le (whole.span.ordered.trans hy)
    | cons o rest =>
      obtain ⟨htagged, hstart, hstop, hbody⟩ := (hab.enclosing (by rw [he]; exact List.mem_cons_self)).closeNode
        (hab.nodes (Builder.mem_nodes_of_enclosing he)) (hab.open_stop_le isGap_le he) htext
      have hle : whole.span.start ≤ (closeNode whole o.node).span.stop := by
        rw [hstop]
        exact whole.span.ordered
      have hleft : Built d a (c.leave (closeNode whole)) (closeNode whole o.node).span.stop :=
        hab.leave isGap_le he (fun _ => rfl) htagged hstart hle hbody
      rw [hstop] at hleft
      exact hleft.before isGap_le hy
  · exact h.before isGap_le ((hx.trans whole.span.ordered).trans hy)

/-- A piece keeps what is read up to it, up to its end. -/
theorem Built.addPiece (h : Built d a b x) {p : Piece} (hp : p.Stands d x y) : Built d a (addPiece b p) y := by
  cases hp with
  | @comment span start lt stop =>
    refine Builder.WellBuilt.before isGap_le ?_ stop
    exact (h.before isGap_le start).leaf isGap_le trivial (Forest.laidOut_leaf isGap_le lt rfl)
  | closing tag _ => exact h.closeElement tag
  | @opening name whole attributes body tags lt parts =>
    obtain ⟨hx, htext, hclosing⟩ := tags
    have hb := h.before isGap_le hx
    have htagged : WellTagged d ⟨b.count, .element name whole none attributes, whole.span⟩ :=
      ⟨rfl, rfl, .cons htext (le_refl _) (le_refl _), parts⟩
    have hleaf : Built d a (b.leaf (.element name whole none attributes) whole.span) whole.span.stop :=
      hb.leaf isGap_le htagged (Forest.laidOut_leaf isGap_le lt rfl)
    unfold Markup.addPiece
    dsimp only
    split
    · exact (hb.enter isGap_le htagged lt ⟨_, _, _, rfl⟩).before isGap_le hclosing.le
    · exact hleaf.before isGap_le hclosing.le
    · exact hleaf.before isGap_le hclosing.le
    · rename_i closing
      obtain ⟨hcx, hctext, hcy⟩ := hclosing
      have hle : whole.span.start ≤ closing.span.stop :=
        (whole.span.ordered.trans hcx).trans closing.span.ordered
      rw [Span.between_of_le hle]
      have hbody : bodyOf ⟨b.count, .element name whole (some closing) attributes,
          ⟨whole.span.start, closing.span.stop, hle⟩⟩ = some (whole.span.stop, closing.span.start) := by
        show some _ = _
        rw [Span.between_of_le hcx]
      have hclosed : Built d a (b.leaf (.element name whole (some closing) attributes)
          ⟨whole.span.start, closing.span.stop, hle⟩) closing.span.stop :=
        hb.leaf isGap_le ⟨rfl, rfl, .cons htext (le_refl _) (.cons hctext hcx (le_refl _)), parts⟩
          (Forest.laidOut_node isGap_le hbody lt closing.span.ordered hcx hcx)
      exact hclosed.before isGap_le hcy

theorem Built.foldl_addPiece {ps : List Piece} (h : Built d a b x) (hps : PiecesIn d x ps y) :
    Built d a (ps.foldl Markup.addPiece b) y := by
  induction hps generalizing b with
  | nil hxy => exact h.before isGap_le hxy
  | cons first _ ih => exact ih (h.addPiece first)

lemma parse_within_eq (d : Document) (window : Span) (dialect : Dialect) :
    parse (Cursor.within d window.start window) dialect = ⟨⟨0, .document, window⟩,
      forestOf (pieces window.stop dialect.hasVoidElements d (d.glyphs window.start window.stop)), []⟩ := by
  have hstop : (if (Cursor.within d window.start window).atEnd then window.start else window.stop) =
      window.stop := by
    split_ifs with h
    · exact le_antisymm window.ordered (of_decide_eq_true h)
    · rfl
  unfold parse
  simp only [Cursor.within, Cursor.ahead] at hstop ⊢
  rw [hstop]

lemma wellNested_within {window : Span} (dialect : Dialect) (ha : d.Valid window.start) (hb : d.Valid window.stop) :
    WellNested d (parse (Cursor.within d window.start window) dialect) := by
  have hps := pieces_in dialect.hasVoidElements ha hb window.ordered
  have hstart : Built d window.start .start window.start := .start isGap_le
  have hbuilt := (hstart.foldl_addPiece hps).abandonWhile isGap_le (fun _ => Unclosed.bodyOf) fun _ => true
  have henc := Builder.enclosing_abandonAll
    ((pieces window.stop dialect.hasVoidElements d (d.glyphs window.start window.stop)).foldl addPiece .start)
  have hforest := hbuilt.laidOut.forest henc
  have hpre := Builder.nodes_of_enclosing_nil henc
  rw [parse_within_eq]
  refine ⟨hbuilt.numbered.preorder henc, hforest.increasing isGap_le, hforest, fun hn => ?_⟩
  rcases List.mem_cons.1 hn with rfl | hn
  · trivial
  · exact hbuilt.nodes (hpre.symm ▸ hn)

/-- The tree of a window of a markup text is well nested. -/
theorem wellNested_parse {window : Span} (dialect : Dialect) (ha : d.Valid window.start)
    (hb : d.Valid window.stop) :
    (parse (Cursor.within d window.start window) dialect).root = ⟨0, .document, window⟩ ∧
      WellNested d (parse (Cursor.within d window.start window) dialect) := by
  refine ⟨?_, wellNested_within dialect ha hb⟩
  rw [parse_within_eq]

/-- In `<a><b x=1><i/><c>t</b></d><p` the element `c` is left unclosed inside `b`, and `a` around it; a closing tag
of no open element and a tag that the text cuts off leave no node. -/
theorem wellNested_unclosed_elements :
    let d := Document.ofText "html" "<a><b x=1><i/><c>t</b></d><p"
    let window : Span := ⟨⟨0, 0⟩, ⟨0, 28⟩, by decide⟩
    d.Valid window.start ∧ d.Valid window.stop ∧
      (parse (Cursor.within d window.start window) .html).root = ⟨0, .document, window⟩ ∧
      WellNested d (parse (Cursor.within d window.start window) .html) := by
  intro d window
  have ha : d.Valid window.start := by decide
  have hb : d.Valid window.stop := by decide
  exact ⟨ha, hb, wellNested_parse .html ha hb⟩

end AbbrevSite.Markup
