import AbbrevSite.Proofs.Text.Lines

/-! Texts cut out of a document. A window and a document that holds nothing but its text have the same characters, one
by one; a place of the second names the place of the first that is as far behind the start of the window. -/
namespace AbbrevSite

namespace Position

variable {p q o : Position} {c : Char}

/-- The place of a document for a place of a text that starts at `o`: on the first line columns count from `o` on. -/
def behind (p o : Position) : Position :=
  if p.line = 0 then ⟨o.line, o.column + p.column⟩ else ⟨o.line + p.line, p.column⟩

@[simp] lemma origin_behind (o : Position) : origin.behind o = o := rfl

@[simp] lemma behind_lt_behind : p.behind o < q.behind o ↔ p < q := by
  simp only [behind, lt_def]
  split_ifs
  all_goals
    dsimp only
    omega

@[simp] lemma behind_le_behind : p.behind o ≤ q.behind o ↔ p ≤ q := by
  rw [← not_lt, behind_lt_behind, not_lt]

lemma behind_advance : (p.advance c).behind o = (p.behind o).advance c := by
  unfold advance behind
  split_ifs <;> simp_all <;> omega

lemma behind_along (cs : List Char) : (p.along cs).behind o = (p.behind o).along cs := by
  induction cs generalizing p with
  | nil => rfl
  | cons c cs ih => rw [along_cons, along_cons, ih, behind_advance]

lemma behind_column (n : Nat) :
    Position.behind ⟨p.line, p.column + n⟩ o = ⟨(p.behind o).line, (p.behind o).column + n⟩ := by
  unfold behind
  split_ifs <;> simp [Nat.add_assoc]

end Position

namespace Span

def behind (s : Span) (o : Position) : Span :=
  ⟨s.start.behind o, s.stop.behind o, Position.behind_le_behind.2 s.ordered⟩

variable {p q o : Position}

@[simp] lemma behind_start (s : Span) : (s.behind o).start = s.start.behind o := rfl

@[simp] lemma behind_stop (s : Span) : (s.behind o).stop = s.stop.behind o := rfl

lemma between_behind : between (p.behind o) (q.behind o) = (between p q).behind o := by
  unfold between
  simp only [Position.behind_lt_behind]
  split_ifs <;> rfl

end Span

abbrev Glyph.behind (g : Glyph) (o : Position) : Glyph := ⟨g.char, g.start.behind o, g.stop.behind o⟩

@[simp] lemma Glyph.behind_char (g : Glyph) (o : Position) : (g.behind o).char = g.char := rfl

@[simp] lemma Glyph.behind_start (g : Glyph) (o : Position) : (g.behind o).start = g.start.behind o := rfl

@[simp] lemma Glyph.behind_stop (g : Glyph) (o : Position) : (g.behind o).stop = g.stop.behind o := rfl

lemma glyphsFrom_behind {p o : Position} (cs : List Char) :
    glyphsFrom (p.behind o) cs = (glyphsFrom p cs).map (·.behind o) := by
  induction cs generalizing p with
  | nil => rfl
  | cons c cs ih => rw [glyphsFrom, glyphsFrom, ← Position.behind_advance, ih, List.map_cons, Glyph.behind]

namespace Document

/-- A document that holds the text of a window of another one. -/
structure Excerpt (d : Document) (w : Span) (e : Document) : Prop where
  stop : e.stop.behind w.start = w.stop
  glyphs : d.glyphs w.start w.stop = (e.glyphs .origin e.stop).map (·.behind w.start)
  textOf (s : Span) (hstart : e.Valid s.start) (hstop : e.Valid s.stop) : d.textOf (s.behind w.start) = e.textOf s

variable {d e : Document} {w : Span} {p q r : Position} {cs : List Char} {languageId text : String}

lemma between_valid (hp : d.Valid p) (hq : d.Valid q) :
    d.Valid (Span.between p q).start ∧ d.Valid (Span.between p q).stop := by
  unfold Span.between
  split_ifs
  · exact ⟨hq, hp⟩
  · exact ⟨hp, hq⟩

lemma spells_charsBetween (hline : ∀ n, '\n' ∉ (d.line n).toList) (hp : d.Valid p) (hq : d.Valid q) (h : p ≤ q) :
    d.Spells p (d.charsBetween p q) ∧ p.along (d.charsBetween p q) = q :=
  Spells.of_glyphs hp hq h (glyphs_eq_glyphsFrom hline hp hq h)

lemma behind_eq_along (hline : ∀ n, '\n' ∉ (d.line n).toList) (hp : d.Valid p) (hq : d.Valid q) (h : p ≤ q)
    (o : Position) : q.behind o = (p.behind o).along (d.charsBetween p q) := by
  rw [← Position.behind_along, (spells_charsBetween hline hp hq h).2]

/-- Two documents in which the same characters stand, in one of them throughout. -/
lemma Excerpt.of_spells (hline : ∀ n, '\n' ∉ (e.line n).toList)
    (hd : d.Spells w.start (e.charsBetween .origin e.stop))
    (hstop : w.start.along (e.charsBetween .origin e.stop) = w.stop) : d.Excerpt w e := by
  have horigin := e.valid_origin
  refine ⟨?_, ?_, fun s hs hs' => ?_⟩
  · rw [behind_eq_along hline horigin e.valid_stop (Position.origin_le _), Position.origin_behind, hstop]
  · rw [← hstop, hd.glyphs, glyphs_eq_glyphsFrom hline horigin e.valid_stop (Position.origin_le _),
      ← glyphsFrom_behind, Position.origin_behind]
  · -- the characters before the span, in it and behind it
    have hspan : s.behind w.start =
        .along (w.start.along (e.charsBetween .origin s.start)) (e.charsBetween s.start s.stop) := by
      have hbefore := behind_eq_along hline horigin hs (Position.origin_le _) w.start
      have hinside := behind_eq_along hline hs hs' s.ordered w.start
      rw [Position.origin_behind] at hbefore
      refine Span.eq_of hbefore ?_
      rw [Span.behind_stop, hinside, hbefore]
      rfl
    rw [charsBetween_append horigin hs e.valid_stop (Position.origin_le _) (le_stop hs),
      charsBetween_append hs hs' e.valid_stop s.ordered (le_stop hs')] at hd
    rw [hspan, hd.right.left.textOf_along]
    rfl

lemma Excerpt.span_behind (h : d.Excerpt w e) : e.span.behind w.start = w := Span.eq_of rfl h.stop

lemma readAt_mem (d : Document) (p : Position) : d.readAt p = '\n' ∨ d.readAt p ∈ (d.line p.line).toList := by
  by_cases h : p.column < d.lineLength p.line
  · right
    rw [readAt_eq_getElem h]
    exact Array.mem_toList_iff.2 (Array.getElem_mem h)
  · exact .inl (readAt_of_lineLength_le (not_lt.1 h))

lemma return_not_mem_charsBetween (h : ∀ n, '\r' ∉ (d.line n).toList) (hp : d.Valid p) (hq : d.Valid q) (hpq : p ≤ q) :
    '\r' ∉ d.charsBetween p q := by
  rw [← map_char_glyphs hp hq hpq, List.mem_map]
  rintro ⟨g, hg, hc⟩
  obtain ⟨x, -, -, -, rfl⟩ := (mem_glyphs hq hp hpq).1 hg
  rw [glyphAt_char] at hc
  rcases d.readAt_mem x with hx | hx
  · rw [hx] at hc
    cases hc
  · exact h x.line (hc ▸ hx)

/-- Without carriage returns, the text of a window makes a document that is an excerpt. -/
theorem excerpt_ofText (hline : ∀ n, '\n' ∉ (d.line n).toList) (hreturn : ∀ n, '\r' ∉ (d.line n).toList)
    (hstart : d.Valid w.start) (hstop : d.Valid w.stop) (languageId : String) :
    d.Excerpt w (ofText languageId (d.textOf w)) := by
  have hchars : (ofText languageId (d.textOf w)).charsBetween .origin (ofText languageId (d.textOf w)).stop =
      d.charsBetween w.start w.stop := by
    rw [ofText, charsBetween_ofChars, textOf, String.toList_ofList,
      dropReturns_eq (return_not_mem_charsBetween hreturn hstart hstop w.ordered)]
  have hspells := spells_charsBetween hline hstart hstop w.ordered
  refine .of_spells (newline_not_mem_line languageId _) ?_ ?_ <;> rw [hchars]
  · exact hspells.1
  · exact hspells.2

end Document
end AbbrevSite
