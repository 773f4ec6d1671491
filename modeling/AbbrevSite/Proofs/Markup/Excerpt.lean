import AbbrevSite.Proofs.Markup.Nesting
import AbbrevSite.Proofs.Tree.Behind

/-! Reading an excerpt of markup. The readers look at characters alone, and the tokens they cut out are cut out of the
window as they are of a document with its text, every place moved behind the start of the window. -/
namespace AbbrevSite

def Attribute.behind (a : Attribute) (o : Position) : Attribute := ⟨a.name.behind o, a.value.map (·.behind o)⟩

namespace Markup

open Document

variable {o : Position} {limit : Position} {g : Glyph} {gs rest : List Glyph}

def Body.behind (b : Body) (o : Position) : Body :=
  match b with
  | raw closing => raw (closing.map (·.behind o))
  | b => b

def Piece.behind (p : Piece) (o : Position) : Piece :=
  match p with
  | comment span => comment (span.behind o)
  | opening name whole attributes body =>
    opening (name.behind o) (whole.behind o) (attributes.map (·.behind o)) (body.behind o)
  | closing name whole => closing (name.behind o) (whole.behind o)

lemma place_behind : place (limit.behind o) (gs.map (·.behind o)) = (place limit gs).behind o := by
  cases gs <;> rfl

lemma startsWith_behind (o : Position) (cs : List Char) (gs : List Glyph) :
    startsWith cs (gs.map (·.behind o)) = startsWith cs gs := by
  induction cs generalizing gs with
  | nil => cases gs <;> rfl
  | cons c cs ih =>
    cases gs with
    | nil => rfl
    | cons g gs => exact congrArg (c.toLower == g.char.toLower && ·) (ih gs)

lemma skipPast_behind (o : Position) (cs : List Char) (gs : List Glyph) :
    skipPast cs (gs.map (·.behind o)) = (skipPast cs gs).map (·.behind o) := by
  induction gs with
  | nil => rfl
  | cons g gs ih =>
    have hstarts : startsWith cs (g.behind o :: gs.map (·.behind o)) = startsWith cs (g :: gs) :=
      startsWith_behind o cs (g :: gs)
    rw [List.map_cons, skipPast, skipPast, hstarts]
    split_ifs
    · show ((g :: gs).map (·.behind o)).drop cs.length = _
      rw [List.map_drop]
    · exact ih

lemma skipWhile_behind (o : Position) (p : Char → Bool) (gs : List Glyph) :
    skipWhile p (gs.map (·.behind o)) = (skipWhile p gs).map (·.behind o) := List.dropWhile_map

lemma skipAttributeName_behind :
    skipAttributeName (gs.map (·.behind o)) = (skipAttributeName gs).map (·.behind o) := by
  cases gs with
  | nil => rfl
  | cons g gs =>
    rw [List.map_cons, skipAttributeName, skipAttributeName, Glyph.behind_char, skipWhile_behind]
    split_ifs <;> rfl

section Excerpt

variable {d e : Document} {w : Span} {x y : Position}

def IsRest (e : Document) (gs : List Glyph) : Prop := ∃ x, RestAt e e.stop x gs

lemma IsRest.suffix (hgs : IsRest e gs) (hs : rest <:+ gs) : IsRest e rest := by
  obtain ⟨x, hx⟩ := hgs
  obtain ⟨y, hy, -, -⟩ := hx.suffix e.valid_stop hs
  exact ⟨y, hy⟩

lemma IsRest.of_reads {ts : List Token} (h : ReadsTokens e e.stop x ts rest) : IsRest e rest :=
  ⟨h.choose, h.choose_spec.1⟩

variable (h : d.Excerpt w e)
include h

lemma tokenUpTo_behind (hgs : IsRest e gs) (hrest : IsRest e rest) :
    tokenUpTo w.stop d (gs.map (·.behind w.start)) (rest.map (·.behind w.start)) =
      (tokenUpTo e.stop e gs rest).behind w.start := by
  obtain ⟨x, hx⟩ := hgs
  obtain ⟨y, hy⟩ := hrest
  have hvalid := between_valid hx.valid hy.valid
  unfold tokenUpTo
  dsimp only
  rw [← h.stop, place_behind, place_behind, hx.place_eq e.valid_stop, hy.place_eq e.valid_stop, Span.between_behind,
    h.textOf _ hvalid.1 hvalid.2]
  rfl

lemma attributeValue?_behind (hgs : IsRest e gs) :
    attributeValue? w.stop d (gs.map (·.behind w.start)) =
      (attributeValue? e.stop e gs).map fun r => (r.1.behind w.start, r.2.map (·.behind w.start)) := by
  cases gs with
  | nil => rfl
  | cons g gs =>
    have htail := hgs.suffix (List.suffix_cons g gs)
    have hbare := skipWhile_behind w.start isBareValueChar (g :: gs)
    have hvalue := tokenUpTo_behind h hgs (hgs.suffix (skipWhile_suffix isBareValueChar (g :: gs)))
    rw [List.map_cons] at hbare hvalue ⊢
    rw [attributeValue?, attributeValue?, hbare]
    dsimp only
    rw [hvalue, skipWhile_behind]
    split_ifs
    · have hquote := htail.suffix (skipWhile_suffix (· != g.char) gs)
      cases hs : skipWhile (· != g.char) gs with
      | nil => rfl
      | cons q after =>
        rw [hs] at hquote
        exact congrArg (fun t => some (t, after.map (·.behind w.start))) (tokenUpTo_behind h htail hquote)
    · rfl

lemma attribute?_behind (hgs : IsRest e gs) :
    attribute? w.stop d (gs.map (·.behind w.start)) =
      (attribute? e.stop e gs).map fun r => (r.1.behind w.start, r.2.map (·.behind w.start)) := by
  have hafter := hgs.suffix (skipAttributeName_suffix gs)
  have hname := tokenUpTo_behind h hgs hafter
  have hblank := hafter.suffix (skipWhile_suffix CharClass.isBlank _)
  unfold attribute?
  dsimp only
  rw [skipAttributeName_behind, hname, skipWhile_behind]
  cases hs : skipWhile CharClass.isBlank (skipAttributeName gs) with
  | nil => rfl
  | cons g rest =>
    rw [hs] at hblank
    have hvalue := attributeValue?_behind h
      ((hblank.suffix (List.suffix_cons g rest)).suffix (skipWhile_suffix CharClass.isBlank rest))
    simp only [List.map_cons]
    split_ifs
    · rw [skipWhile_behind, hvalue, Option.map_map, Option.map_map]
      rfl
    · rfl

lemma attributes?_behind {gs : List Glyph} (hgs : IsRest e gs) (acc : List Attribute) :
    attributes? w.stop d (acc.map (·.behind w.start)) (gs.map (·.behind w.start)) =
      (attributes? e.stop e acc gs).map fun r =>
        (r.1.map (·.behind w.start), r.2.1, r.2.2.map (·.behind w.start)) := by
  have hblank := hgs.suffix (skipWhile_suffix CharClass.isBlank gs)
  have hskip := skipWhile_behind w.start CharClass.isBlank gs
  cases hs : skipWhile CharClass.isBlank gs with
  | nil =>
    rw [hs] at hskip
    rw [attributes?_of_nil hs, attributes?_of_nil hskip]
    rfl
  | cons g rest =>
    have hlength : rest.length < gs.length := by
      have := length_skipWhile CharClass.isBlank gs
      rw [hs, List.length_cons] at this
      omega
    rw [hs] at hskip hblank
    have hread := attribute?_behind h hblank
    have hrest := attributes?_behind (hblank.suffix (List.suffix_cons g rest)) acc
    rw [List.map_cons] at hread
    rw [attributes?_of_cons hs, attributes?_of_cons hskip, startsWith_behind, hread]
    split_ifs
    · rw [← List.map_reverse]
      rfl
    · rw [← List.map_reverse, ← List.map_drop]
      rfl
    · exact hrest
    · rw [← List.map_reverse]
      rfl
    · cases ha : attribute? e.stop e (g :: rest) with
      | none => rfl
      | some found =>
        obtain ⟨a, after⟩ := found
        have hafter : IsRest e after := .of_reads (attribute?_reads e.valid_stop hblank.choose_spec ha)
        have := length_attribute? ha
        exact attributes?_behind hafter (a :: acc)
termination_by gs.length

lemma closingTag?_behind (hgs : IsRest e gs) :
    closingTag? w.stop d (gs.map (·.behind w.start)) =
      (closingTag? e.stop e gs).map fun r =>
        (r.1.behind w.start, r.2.1.behind w.start, r.2.2.map (·.behind w.start)) := by
  have hname := hgs.suffix (List.drop_suffix 2 gs)
  have hafter := hname.suffix (skipWhile_suffix isNameChar _)
  have hend := hafter.suffix (skipWhile_suffix (fun c => c != '>' && c != '<') _)
  unfold closingTag?
  dsimp only
  rw [← List.map_drop, skipWhile_behind, skipWhile_behind, tokenUpTo_behind h hname hafter]
  cases hs : skipWhile (fun c => c != '>' && c != '<') (skipWhile isNameChar (gs.drop 2)) with
  | nil => rfl
  | cons g rest =>
    rw [hs] at hend
    have hwhole := tokenUpTo_behind h hgs (hend.suffix (List.suffix_cons g rest))
    simp only [List.map_cons]
    split_ifs
    · rw [hwhole]
      rfl
    · rfl

lemma openingTag?_behind (hgs : IsRest e gs) :
    openingTag? w.stop d (gs.map (·.behind w.start)) =
      (openingTag? e.stop e gs).map fun r =>
        (r.1.behind w.start, r.2.1.map (·.behind w.start), r.2.2.1, r.2.2.2.map (·.behind w.start)) := by
  have hname := hgs.suffix (List.drop_suffix 1 gs)
  have hafter := hname.suffix (skipWhile_suffix isNameChar _)
  have hattributes := attributes?_behind h hafter []
  rw [List.map_nil] at hattributes
  unfold openingTag?
  dsimp only
  rw [← List.map_drop, skipWhile_behind, tokenUpTo_behind h hname hafter, hattributes]
  cases gs.drop 1 with
  | nil => rfl
  | cons g rest =>
    simp only [List.map_cons]
    split_ifs
    · rw [Option.map_map, Option.map_map]
      rfl
    · rfl

lemma rawBody_behind (hgs : IsRest e gs) (name : String) :
    rawBody w.stop d name (gs.map (·.behind w.start)) =
      ((rawBody e.stop e name gs).1.map (·.behind w.start), (rawBody e.stop e name gs).2.map (·.behind w.start)) := by
  induction gs with
  | nil => rfl
  | cons g gs ih =>
    have hstarts := startsWith_behind w.start ('<' :: '/' :: name.toList) (g :: gs)
    have hskip := skipPast_behind w.start ['>'] (g :: gs)
    have htoken := tokenUpTo_behind h hgs (hgs.suffix (skipPast_suffix ['>'] (g :: gs)))
    rw [List.map_cons] at hstarts hskip htoken ⊢
    rw [rawBody, rawBody, hstarts, hskip]
    split_ifs
    · exact congrArg (fun t => (some t, _)) htoken
    · exact ih (hgs.suffix (List.suffix_cons g gs))

lemma pieceAt_behind (voids : Bool) (hgs : IsRest e (g :: gs)) :
    pieceAt w.stop voids d (g.behind w.start) (gs.map (·.behind w.start)) =
      ((pieceAt e.stop voids e g gs).1.map (·.behind w.start),
        (pieceAt e.stop voids e g gs).2.map (·.behind w.start)) := by
  have hall : g.behind w.start :: gs.map (·.behind w.start) = (g :: gs).map (·.behind w.start) := rfl
  unfold pieceAt
  dsimp only
  rw [hall]
  simp only [startsWith_behind, ← List.map_drop, skipPast_behind, closingTag?_behind h hgs, openingTag?_behind h hgs]
  split_ifs
  · -- a comment
    have hspan (rest : List Glyph) : Span.between (place w.stop ((g :: gs).map (·.behind w.start)))
        (place w.stop (rest.map (·.behind w.start))) =
        (Span.between (place e.stop (g :: gs)) (place e.stop rest)).behind w.start := by
      rw [← h.stop, place_behind, place_behind, Span.between_behind]
    rw [hspan]
    rfl
  · rfl
  · rfl
  · cases closingTag? e.stop e (g :: gs) <;> rfl
  · cases ho : openingTag? e.stop e (g :: gs) with
    | none => rfl
    | some found =>
      obtain ⟨name, attributes, selfClosing, rest⟩ := found
      obtain ⟨y, hy, -, -⟩ := openingTag?_reads e.valid_stop hgs.choose_spec ho
      dsimp only [Option.map_some, Token.behind]
      rw [tokenUpTo_behind h hgs ⟨y, hy⟩]
      split_ifs
      · rfl
      · rw [rawBody_behind h ⟨y, hy⟩]
        rfl
      · rfl

theorem pieces_behind (voids : Bool) {gs : List Glyph} (hgs : IsRest e gs) :
    pieces w.stop voids d (gs.map (·.behind w.start)) = (pieces e.stop voids e gs).map (·.behind w.start) := by
  match gs with
  | [] => simp [pieces, piecesOnto]
  | g :: gs =>
    by_cases hangle : g.char = '<'
    · obtain ⟨y, hy, -, -⟩ := pieceAt_reads voids e.valid_stop hgs.choose_spec
      have := length_pieceAt e.stop voids e g gs
      rw [List.map_cons, pieces_of_angle (g := g.behind w.start) hangle, pieces_of_angle hangle,
        pieceAt_behind h voids hgs]
      dsimp only
      rw [pieces_behind voids ⟨y, hy⟩, List.map_append]
      cases (pieceAt e.stop voids e g gs).1 <;> rfl
    · rw [List.map_cons, pieces_of_ne (g := g.behind w.start) hangle, pieces_of_ne hangle,
        pieces_behind voids (hgs.suffix (List.suffix_cons g gs))]
termination_by gs.length

end Excerpt

lemma closeNode_behind (whole : Token) (n : Node) :
    (closeNode whole n).behind o = closeNode (whole.behind o) (n.behind o) :=
  congrArg₂ (Node.mk n.id) (Kind.mapTokens_close _ _ _) Span.between_behind.symm

lemma closeElement_behind (name whole : Token) (b : Builder) :
    closeElement (name.behind o) (whole.behind o) (b.behind o) = (closeElement name whole b).behind o := by
  have hnamed (n : Node) : (n.behind o).kind.isElementNamed name.text = n.kind.isElementNamed name.text :=
    Kind.isElementNamed_behind _ _
  have hany : (b.behind o).enclosing.any (·.node.kind.isElementNamed name.text) =
      b.enclosing.any (·.node.kind.isElementNamed name.text) := by
    show (b.enclosing.map _).any _ = _
    rw [List.any_map]
    exact congrArg b.enclosing.any (funext fun n => hnamed n.node)
  unfold closeElement
  dsimp only [Token.behind]
  rw [hany]
  split_ifs
  · have habandon : (b.abandonWhile fun n => !n.kind.isElementNamed name.text).behind o =
        (b.behind o).abandonWhile fun n => !n.kind.isElementNamed name.text :=
      Builder.mapNodes_abandonWhile fun n => congrArg (!·) (hnamed n)
    rw [← habandon]
    exact (Builder.mapNodes_leave (closeNode_behind whole)).symm
  · rfl

lemma addPiece_behind (b : Builder) (p : Piece) : addPiece (b.behind o) (p.behind o) = (addPiece b p).behind o := by
  cases p with
  | comment span => rfl
  | closing name whole => exact closeElement_behind name whole b
  | opening name whole attributes body =>
    cases body with
    | «open» => rfl
    | empty => rfl
    | raw closing =>
      cases closing with
      | none => rfl
      | some closing => exact congrArg (Builder.leaf (b.behind o) _) Span.between_behind

lemma forestOf_behind (ps : List Piece) : forestOf (ps.map (·.behind o)) = (forestOf ps).mapNodes (·.behind o) := by
  have hfold (b : Builder) : (ps.map (·.behind o)).foldl addPiece (b.behind o) = (ps.foldl addPiece b).behind o := by
    induction ps generalizing b with
    | nil => rfl
    | cons p ps ih => rw [List.map_cons, List.foldl_cons, List.foldl_cons, addPiece_behind, ih]
  unfold forestOf
  rw [Builder.mapNodes_forest, Builder.mapNodes_abandonAll]
  exact congrArg (fun b => b.abandonAll.forest) (hfold .start)

theorem parse_excerpt {d e : Document} {w : Span} (h : d.Excerpt w e) (dialect : Dialect) :
    parse (Cursor.within d w.start w) dialect = (parse (Cursor.whole e .origin) dialect).behind w.start := by
  have hwhole : parse (Cursor.whole e .origin) dialect =
      ⟨⟨0, .document, e.span⟩,
        forestOf (pieces e.stop dialect.hasVoidElements e (e.glyphs .origin e.stop)), []⟩ :=
    parse_within_eq e e.span dialect
  have hrest : IsRest e (e.glyphs .origin e.stop) := ⟨.origin, e.valid_origin, Position.origin_le _, rfl⟩
  rw [parse_within_eq, hwhole, h.glyphs, pieces_behind h _ hrest, forestOf_behind]
  exact congrArg (fun s => (⟨⟨0, .document, s⟩, _, []⟩ : Tree)) h.span_behind.symm

end Markup
end AbbrevSite
