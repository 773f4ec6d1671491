import AbbrevSite.Proofs.Markup.Scan

/-! The pieces of a markup text stand in it one after the other, each with its tags and the tokens of its opening
tag in order. -/
namespace AbbrevSite.Markup

open Document

def Body.closing? : Body → Option Token
  | .raw closing => closing
  | _ => none

/-- A piece between two places of a text. -/
inductive Piece.Stands (d : Document) (x y : Position) : Piece → Prop
  | comment {span : Span} (start : x ≤ span.start) (lt : span.start < span.stop) (stop : span.stop ≤ y) :
      Stands d x y (.comment span)
  | closing {name whole : Token} (tag : d.InOrder x [whole] y) (lt : whole.span.start < whole.span.stop) :
      Stands d x y (.closing name whole)
  | opening {name whole : Token} {attributes : List Attribute} {body : Body}
      (tags : d.InOrder x (whole :: body.closing?.toList) y) (lt : whole.span.start < whole.span.stop)
      (parts : d.InOrder whole.span.start (name :: attributes.flatMap Attribute.tokens) whole.span.stop) :
      Stands d x y (.opening name whole attributes body)

/-- Pieces that stand between two places of a text, each behind the one before. -/
inductive PiecesIn (d : Document) : Position → List Piece → Position → Prop
  | nil {x y : Position} (h : x ≤ y) : PiecesIn d x [] y
  | cons {x y z : Position} {p : Piece} {ps : List Piece} (first : p.Stands d x y) (others : PiecesIn d y ps z) :
      PiecesIn d x (p :: ps) z

variable {d : Document} {b x y : Position} {gs rest : List Glyph} {g : Glyph}

section

variable {limit : Position} {voids : Bool} {acc : List Piece}

lemma piecesOnto_append (front back : List Piece) :
    piecesOnto limit voids d (front ++ back) gs = back.reverse ++ piecesOnto limit voids d front gs := by
  fun_induction piecesOnto limit voids d front gs with
  | case1 front => simp [piecesOnto]
  | case2 front g gs hg found ih =>
    rw [piecesOnto, if_pos hg]
    dsimp only
    rw [← List.append_assoc, ih]
  | case3 front g gs hg ih => rw [piecesOnto, if_neg hg, ih]

lemma piecesOnto_eq : piecesOnto limit voids d acc gs = acc.reverse ++ pieces limit voids d gs :=
  piecesOnto_append [] acc

lemma pieces_of_ne (h : g.char ≠ '<') : pieces limit voids d (g :: gs) = pieces limit voids d gs := by
  rw [pieces, piecesOnto, if_neg h]
  rfl

lemma pieces_of_angle (h : g.char = '<') : pieces limit voids d (g :: gs) =
    (pieceAt limit voids d g gs).1.toList ++ pieces limit voids d (pieceAt limit voids d g gs).2 := by
  rw [pieces, piecesOnto, if_pos h]
  dsimp only
  rw [piecesOnto_eq, List.append_nil]
  cases (pieceAt limit voids d g gs).1 <;> rfl

end

lemma PiecesIn.behind {z : Position} {ps : List Piece} (hx : x ≤ y) (h : PiecesIn d y ps z) : PiecesIn d x ps z := by
  cases h with
  | nil h => exact .nil (hx.trans h)
  | cons first others =>
    refine .cons ?_ others
    cases first with
    | comment start lt stop => exact .comment (hx.trans start) lt stop
    | closing tag lt => exact .closing (tag.mono hx (le_refl _)) lt
    | opening tags lt parts => exact .opening (tags.mono hx (le_refl _)) lt parts

def ReadsPiece (d : Document) (b x : Position) (found : Option Piece × List Glyph) : Prop :=
  ∃ y, RestAt d b y found.2 ∧ x ≤ y ∧ ∀ p, found.1 = some p → p.Stands d x y

lemma RestAt.noPiece (hb : d.Valid b) (h : RestAt d b x gs) (hs : rest <:+ gs) : ReadsPiece d b x (none, rest) := by
  obtain ⟨y, hy, hxy, -⟩ := h.suffix hb hs
  exact ⟨y, hy, hxy, nofun⟩

lemma openingPiece_reads (hb : d.Valid b) (h : RestAt d b x gs) {name : Token} {attributes : List Attribute}
    {selfClosing : Bool} (ho : openingTag? b d gs = some (name, attributes, selfClosing, rest)) {body : Body}
    {after : List Glyph}
    (hbody : ∀ y, RestAt d b y rest → ReadsTokens d b y body.closing?.toList after) :
    ReadsPiece d b x (some (.opening name (tokenUpTo b d gs rest) attributes body), after) := by
  obtain ⟨y, hy, hxy, hparts⟩ := openingTag?_reads hb h ho
  obtain ⟨z, hz, hclosing⟩ := hbody y hy
  have hwhole := tokenUpTo_eq hb h hy (le_of_lt hxy)
  refine ⟨z, hz, (le_of_lt hxy).trans hclosing.le, ?_⟩
  rintro p ⟨⟩
  rw [hwhole]
  exact .opening (.cons rfl (le_refl x) hclosing) hxy hparts

theorem pieceAt_reads (voids : Bool) (hb : d.Valid b) (h : RestAt d b x (g :: gs)) :
    ReadsPiece d b x (pieceAt b voids d g gs) := by
  have hrest := List.suffix_cons g gs
  unfold pieceAt
  dsimp only
  split_ifs with hcomment hcdata hdecl hclose
  · -- a comment, up to its end
    have hs : skipPast ['-', '-', '>'] ((g :: gs).drop 4) <:+ g :: gs :=
      (skipPast_suffix _ _).trans (List.drop_suffix 4 _)
    obtain ⟨y, hy, -, hlt⟩ := h.suffix hb hs
    have hxy : x < y := by
      refine hlt (Nat.lt_of_le_of_lt (length_skipPast _ _) ?_)
      rw [List.length_drop, List.length_cons]
      omega
    refine ⟨y, hy, le_of_lt hxy, ?_⟩
    rintro p ⟨⟩
    rw [h.place_eq hb, hy.place_eq hb, Span.between_of_le (le_of_lt hxy)]
    exact .comment (le_refl x) hxy (le_refl y)
  · exact h.noPiece hb (skipPast_suffix _ _)
  · exact h.noPiece hb (skipPast_suffix _ _)
  · split
    · rename_i name whole rest hc
      obtain ⟨y, hxy, hy, rfl⟩ := closingTag?_reads hb h hc
      refine ⟨y, hy, le_of_lt hxy, ?_⟩
      rintro p ⟨⟩
      exact .closing (.cons rfl (le_refl x) (le_refl y)) hxy
    · exact h.noPiece hb hrest
  · split
    · exact h.noPiece hb hrest
    · rename_i name attributes selfClosing rest ho
      split_ifs with hempty hraw
      · exact openingPiece_reads hb h ho fun y hy => hy.noTokens
      · exact openingPiece_reads hb h ho fun y hy => rawBody_reads hb hy _
      · exact openingPiece_reads hb h ho fun y hy => hy.noTokens

theorem piecesOnto_reads (voids : Bool) (hb : d.Valid b) (h : RestAt d b x gs) (acc : List Piece) :
    ∃ ps, piecesOnto b voids d acc gs = acc.reverse ++ ps ∧ PiecesIn d x ps b := by
  fun_induction piecesOnto b voids d acc gs generalizing x with
  | case1 acc => exact ⟨[], by simp, .nil h.le⟩
  | case2 acc g gs hg found =>
    rename_i ih
    obtain ⟨y, hy, hxy, hp⟩ := pieceAt_reads voids hb h
    obtain ⟨ps, he, hps⟩ := ih hy
    rw [he]
    cases hf : found.1 with
    | none => exact ⟨ps, by simp, hps.behind hxy⟩
    | some p => exact ⟨p :: ps, by simp, .cons (hp p hf) hps⟩
  | case3 acc g gs hg ih =>
    obtain ⟨y, hy, hxy, -⟩ := h.suffix hb (List.suffix_cons g gs)
    obtain ⟨ps, he, hps⟩ := ih hy
    exact ⟨ps, he, hps.behind hxy⟩

theorem pieces_in (voids : Bool) (hx : d.Valid x) (hb : d.Valid b) (hxb : x ≤ b) :
    PiecesIn d x (pieces b voids d (d.glyphs x b)) b := by
  obtain ⟨ps, he, hps⟩ := piecesOnto_reads voids hb ⟨hx, hxb, rfl⟩ []
  rw [pieces, he]
  exact hps

end AbbrevSite.Markup
