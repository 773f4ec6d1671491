import AbbrevSite.Text.Document

/-! Located characters. A window of a document is read as the list of its characters, each with the
place before it and the place after it; every line ends in a newline of its own. Readers of a window
are then functions on that list. -/
namespace AbbrevSite

/-- A character with the places on both sides of it. -/
structure Glyph where
  char : Char
  start : Position
  stop : Position
deriving DecidableEq, Repr

namespace Document

/-- The character read at a position: past the end of a line, the newline that ends it. -/
def readAt (d : Document) (p : Position) : Char := (d.charAt p).getD '\n'

/-- The position after the character read at a position. -/
def after (d : Document) (p : Position) : Position :=
  if p.column < d.lineLength p.line then ⟨p.line, p.column + 1⟩ else ⟨p.line + 1, 0⟩

theorem lt_after (d : Document) (p : Position) : p < d.after p := by
  unfold after
  split <;> simp [Position.lt_def]

/-- The position after a character of a window: never beyond the end of the window. -/
def afterWithin (d : Document) (limit p : Position) : Position :=
  if d.after p < limit then d.after p else limit

/-- Lines left to the limit, then characters left of the line. -/
def readingMeasure (d : Document) (limit p : Position) : Nat × Nat :=
  (limit.line + 1 - p.line, d.lineLength p.line + limit.column + 1 - p.column)

theorem afterWithin_decreases (d : Document) {limit p : Position} (h : p < limit) :
    Prod.Lex (· < ·) (· < ·) (d.readingMeasure limit (d.afterWithin limit p))
      (d.readingMeasure limit p) := by
  have hl : p.line < limit.line ∨ (p.line = limit.line ∧ p.column < limit.column) := h
  unfold afterWithin
  split
  · rename_i h'
    unfold after at h' ⊢
    split
    · exact Prod.Lex.right _ (by simp only; omega)
    · rename_i hc
      rw [if_neg hc] at h'
      simp only [Position.lt_def] at h'
      exact Prod.Lex.left _ _ (by simp only; omega)
  · rcases hl with hl | ⟨hl, hc⟩
    · exact Prod.Lex.left _ _ (by omega)
    · unfold readingMeasure
      rw [← hl]
      exact Prod.Lex.right _ (by omega)

/-- Puts the characters from `p` to `limit` onto `acc`, the last one first. -/
def glyphsOnto (d : Document) (limit p : Position) (acc : List Glyph) : List Glyph :=
  if p < limit then
    glyphsOnto d limit (d.afterWithin limit p) (⟨d.readAt p, p, d.afterWithin limit p⟩ :: acc)
  else acc
termination_by d.readingMeasure limit p
decreasing_by exact d.afterWithin_decreases ‹_›

/-- The characters of a window, from a position up to the limit. -/
def glyphs (d : Document) (p limit : Position) : List Glyph := (d.glyphsOnto limit p []).reverse

theorem glyphsOnto_append (d : Document) (limit p : Position) (front back : List Glyph) :
    d.glyphsOnto limit p (front ++ back) = d.glyphsOnto limit p front ++ back := by
  induction p, front using glyphsOnto.induct d limit with
  | case1 p front hp ih =>
    rw [glyphsOnto, if_pos hp, glyphsOnto.eq_1 d limit p front, if_pos hp, ← ih]
    rfl
  | case2 p front hp =>
    rw [glyphsOnto, if_neg hp, glyphsOnto.eq_1 d limit p front, if_neg hp]

theorem glyphsOnto_eq (d : Document) (limit p : Position) (acc : List Glyph) :
    d.glyphsOnto limit p acc = (d.glyphs p limit).reverse ++ acc := by
  rw [glyphs, List.reverse_reverse, ← glyphsOnto_append, List.nil_append]

theorem glyphs_of_lt {d : Document} {p limit : Position} (h : p < limit) :
    d.glyphs p limit =
      ⟨d.readAt p, p, d.afterWithin limit p⟩ :: d.glyphs (d.afterWithin limit p) limit := by
  rw [glyphs, glyphsOnto, if_pos h, glyphsOnto_eq]
  simp

theorem glyphs_of_le {d : Document} {p limit : Position} (h : limit ≤ p) :
    d.glyphs p limit = [] := by
  rw [glyphs, glyphsOnto, if_neg (Position.not_lt.2 h)]
  rfl

end Document
end AbbrevSite
