import AbbrevSite.Proofs.Text.Offsets

/-! The characters of a text, and the places they are given. A newline is read at the end of a line alone, so a
place is known from the characters before it, and the lines of a document joined again are its text. -/
namespace AbbrevSite

namespace Position

variable {p : Position} {cs ds : List Char}

def advance (p : Position) (c : Char) : Position :=
  if c = '\n' then ⟨p.line + 1, 0⟩ else ⟨p.line, p.column + 1⟩

def along (p : Position) (cs : List Char) : Position := cs.foldl advance p

@[simp] lemma along_nil : p.along [] = p := rfl

@[simp] lemma along_cons (c : Char) : p.along (c :: cs) = (p.advance c).along cs := rfl

lemma along_append : p.along (cs ++ ds) = (p.along cs).along ds := List.foldl_append

lemma lt_advance (p : Position) (c : Char) : p < p.advance c := by
  unfold advance
  split_ifs <;> simp [lt_def]

lemma le_along (p : Position) (cs : List Char) : p ≤ p.along cs := by
  induction cs generalizing p with
  | nil => exact le_refl p
  | cons c cs ih => exact (le_of_lt (lt_advance p c)).trans (ih _)

lemma lt_along (p : Position) (h : cs ≠ []) : p < p.along cs := by
  cases cs with
  | nil => exact absurd rfl h
  | cons c cs => exact (lt_advance p c).trans_le (le_along _ cs)

end Position

def Span.along (x : Position) (cs : List Char) : Span := ⟨x, x.along cs, x.le_along cs⟩

lemma Span.between_along (x : Position) (cs : List Char) : between x (x.along cs) = .along x cs :=
  between_of_le (x.le_along cs)

def glyphsFrom : Position → List Char → List Glyph
  | _, [] => []
  | p, c :: cs => ⟨c, p, p.advance c⟩ :: glyphsFrom (p.advance c) cs

section GlyphsFrom

variable {p : Position} {cs ds : List Char}

lemma glyphsFrom_append :
    glyphsFrom p (cs ++ ds) = glyphsFrom p cs ++ glyphsFrom (p.along cs) ds := by
  induction cs generalizing p with
  | nil => rfl
  | cons c cs ih => simp [glyphsFrom, ih]

@[simp] lemma map_char_glyphsFrom : (glyphsFrom p cs).map (·.char) = cs := by
  induction cs generalizing p with
  | nil => rfl
  | cons c cs ih => simp [glyphsFrom, ih]

end GlyphsFrom

lemma splitAtNewlines_cons {c : Char} {text first : List Char} {rest : List (List Char)}
    (h : splitAtNewlines text = first :: rest) : splitAtNewlines (c :: text) =
      if c = '\n' then [] :: first :: rest else (c :: first) :: rest := by
  rw [splitAtNewlines] at h
  simp [splitAtNewlines, h]

lemma newline_not_mem_splitAtNewlines {text piece : List Char} (h : piece ∈ splitAtNewlines text) :
    '\n' ∉ piece := by
  induction text generalizing piece with
  | nil =>
    rw [splitAtNewlines, List.foldr_nil, List.mem_singleton] at h
    simp [h]
  | cons c text ih =>
    obtain ⟨first, rest, hs⟩ := List.exists_cons_of_ne_nil (splitAtNewlines_ne_nil text)
    rw [hs] at ih
    rw [splitAtNewlines_cons hs] at h
    split_ifs at h with hc
    · rcases List.mem_cons.1 h with rfl | h
      · simp
      · exact ih h
    · rcases List.mem_cons.1 h with rfl | h
      · rw [List.mem_cons, not_or]
        exact ⟨Ne.symm hc, ih (by simp)⟩
      · exact ih (by simp [h])

def dropReturns : List Char → List Char
  | [] => []
  | c :: cs => if c = '\r' ∧ (cs = [] ∨ cs.head? = some '\n') then dropReturns cs else c :: dropReturns cs

section DropReturns

variable {cs ds : List Char}

lemma dropReturns_append (h : '\r' ∉ cs) : dropReturns (cs ++ ds) = cs ++ dropReturns ds := by
  induction cs with
  | nil => rfl
  | cons c cs ih =>
    rw [List.mem_cons, not_or] at h
    rw [List.cons_append, dropReturns, if_neg fun hc => h.1 hc.1.symm, ih h.2, List.cons_append]

lemma dropReturns_eq (h : '\r' ∉ cs) : dropReturns cs = cs := by
  have happend : dropReturns (cs ++ []) = cs ++ dropReturns [] := dropReturns_append h
  simpa [dropReturns] using happend

lemma first_eq_nil_iff {first : List Char} {rest : List (List Char)} (h : splitAtNewlines cs = first :: rest) :
    first = [] ↔ cs = [] ∨ cs.head? = some '\n' := by
  cases cs with
  | nil =>
    rw [splitAtNewlines, List.foldr_nil, List.cons.injEq] at h
    simp [← h.1]
  | cons c cs =>
    obtain ⟨second, others, hs⟩ := List.exists_cons_of_ne_nil (splitAtNewlines_ne_nil cs)
    rw [splitAtNewlines_cons hs] at h
    split_ifs at h with hc
    · cases h
      simp [hc]
    · cases h
      simp [hc]

lemma dropReturn_cons {c : Char} {l : List Char} :
    dropReturn (c :: l) = if c = '\r' ∧ l = [] then [] else c :: dropReturn l := by
  cases l with
  | nil => simp [dropReturn]
  | cons e l =>
    simp only [dropReturn, List.getLast?_cons_cons, List.dropLast_cons_cons, reduceCtorEq, and_false, if_false]
    split_ifs <;> rfl

/-- The lines of a text, joined with newlines, are the text without the carriage returns at their ends. -/
lemma dropReturns_of_splitAtNewlines {first : List Char} {rest : List (List Char)}
    (h : splitAtNewlines cs = first :: rest) :
    dropReturns cs = dropReturn first ++ rest.flatMap fun l => '\n' :: dropReturn l := by
  induction cs generalizing first rest with
  | nil =>
    rw [splitAtNewlines, List.foldr_nil, List.cons.injEq] at h
    obtain ⟨rfl, rfl⟩ := h
    rfl
  | cons c cs ih =>
    obtain ⟨second, others, hs⟩ := List.exists_cons_of_ne_nil (splitAtNewlines_ne_nil cs)
    have ih := ih hs
    rw [splitAtNewlines_cons hs] at h
    split_ifs at h with hc
    · cases h
      rw [dropReturns, if_neg (by simp [hc]), ih, hc]
      rfl
    · cases h
      have hfirst := first_eq_nil_iff hs
      rw [dropReturns, dropReturn_cons, ih]
      by_cases hr : c = '\r' ∧ second = []
      · rw [if_pos hr, if_pos ⟨hr.1, hfirst.1 hr.2⟩, hr.2]
        rfl
      · rw [if_neg hr, if_neg fun hc' => hr ⟨hc'.1, hfirst.2 hc'.2⟩]
        rfl

end DropReturns

namespace Document

variable {d : Document} {p q : Position} {languageId : String} {cs : List Char}

lemma newline_not_mem_line (languageId text : String) (n : Nat) :
    '\n' ∉ ((ofText languageId text).line n).toList := by
  unfold line ofText ofChars
  rw [List.getElem?_toArray, List.getElem?_map]
  cases hn : (splitAtNewlines text.toList)[n]? with
  | none => simp
  | some piece =>
    have hpiece := newline_not_mem_splitAtNewlines (List.mem_of_getElem? hn)
    simp only [Option.map_some, Option.getD_some, dropReturn]
    split_ifs
    · exact fun h => hpiece (List.dropLast_subset _ h)
    · exact hpiece

lemma column_of_newline (hline : ∀ n, '\n' ∉ (d.line n).toList) (h : d.readAt p = '\n') :
    d.lineLength p.line ≤ p.column := by
  refine not_lt.1 fun hlt => hline p.line ?_
  rw [← h, readAt_eq_getElem hlt]
  exact Array.mem_toList_iff.2 (Array.getElem_mem hlt)

lemma advance_readAt (hline : ∀ n, '\n' ∉ (d.line n).toList) (p : Position) :
    p.advance (d.readAt p) = d.after p := by
  unfold Position.advance
  split_ifs with h
  · rw [after_of_lineLength_le (column_of_newline hline h)]
  · rw [after_of_column_lt (lt_of_not_ge fun hle => h (readAt_of_lineLength_le hle))]

theorem glyphs_eq_glyphsFrom (hline : ∀ n, '\n' ∉ (d.line n).toList) (hp : d.Valid p) (hq : d.Valid q)
    (h : p ≤ q) : d.glyphs p q = glyphsFrom p (d.charsBetween p q) := by
  induction p, hp, h using forward_induction hq with
  | base =>
    rw [glyphs_self, charsBetween_of_le hq hq (le_refl q)]
    rfl
  | step p hp hlt _ _ ih =>
    rw [glyphs_cons hq hlt, charsBetween_cons hp hq hlt, glyphsFrom, advance_readAt hline, ih]
    rfl

lemma along_of_glyphs (hq : d.Valid q) (h : p ≤ q) (hg : d.glyphs p q = glyphsFrom p cs) : p.along cs = q := by
  induction cs generalizing p with
  | nil =>
    refine le_antisymm h (not_lt.1 fun hlt => ?_)
    exact glyphs_ne_nil hq hlt hg
  | cons c cs ih =>
    rcases lt_or_eq_of_le h with hlt | rfl
    · rw [glyphs_cons hq hlt, glyphsFrom, glyphAt, List.cons.injEq, Glyph.mk.injEq] at hg
      obtain ⟨⟨-, -, hafter⟩, hrest⟩ := hg
      rw [hafter] at hrest
      exact ih (hafter ▸ after_le hq hlt) hrest
    · rw [glyphs_self] at hg
      cases hg

/-- Some characters stand in the text from a place on. -/
structure Spells (d : Document) (x : Position) (cs : List Char) : Prop where
  valid : d.Valid x
  valid_along : d.Valid (x.along cs)
  glyphs : d.glyphs x (x.along cs) = glyphsFrom x cs

namespace Spells

variable {x : Position} {ds : List Char}

lemma of_glyphs (hp : d.Valid p) (hq : d.Valid q) (h : p ≤ q) (hg : d.glyphs p q = glyphsFrom p cs) :
    d.Spells p cs ∧ p.along cs = q := by
  obtain rfl := along_of_glyphs hq h hg
  exact ⟨⟨hp, hq, hg⟩, rfl⟩

lemma split (h : d.Spells x (cs ++ ds)) : d.Spells x cs ∧ d.Spells (x.along cs) ds := by
  have hg := h.glyphs
  rw [glyphsFrom_append] at hg
  obtain ⟨q, hq, hxq, hqb, hfront, hrest⟩ := exists_glyphs_split h.valid h.valid_along (x.le_along _) hg
  obtain ⟨hcs, rfl⟩ := of_glyphs h.valid hq hxq hfront
  exact ⟨hcs, (of_glyphs hq h.valid_along hqb hrest).1⟩

lemma left (h : d.Spells x (cs ++ ds)) : d.Spells x cs := h.split.1

lemma right (h : d.Spells x (cs ++ ds)) : d.Spells (x.along cs) ds := h.split.2

lemma charsBetween_along (h : d.Spells x cs) : d.charsBetween x (x.along cs) = cs := by
  rw [← map_char_glyphs h.valid h.valid_along (x.le_along cs), h.glyphs, map_char_glyphsFrom]

lemma textOf_along (h : d.Spells x cs) : d.textOf (.along x cs) = .ofList cs :=
  congrArg String.ofList h.charsBetween_along

end Spells

lemma lineCount_ofChars : (ofChars languageId cs).lineCount = (splitAtNewlines cs).length := by
  simp [lineCount, ofChars]

lemma line_ofChars {n : Nat} {piece : List Char} (h : (splitAtNewlines cs)[n]? = some piece) :
    (ofChars languageId cs).line n = (dropReturn piece).toArray := by
  simp [line, ofChars, h]

lemma charsBetween_origin_stop : d.charsBetween .origin d.stop =
    (d.line 0).toList ++ (List.range' 1 d.lastLine).flatMap fun n => '\n' :: (d.line n).toList := by
  unfold charsBetween
  rw [clamp_of_valid d.valid_origin, clamp_of_valid d.valid_stop]
  have hsize (n : Nat) : d.lineLength n = (d.line n).size := rfl
  simp only [Position.origin, stop, hsize]
  split_ifs with hl hl'
  · rw [← hl]
    simp
  · omega
  · obtain ⟨k, hk⟩ : ∃ k, d.lastLine = k + 1 := ⟨d.lastLine - 1, by omega⟩
    rw [hk, List.range'_concat]
    simp [Nat.add_comm]

theorem charsBetween_ofChars : (ofChars languageId cs).charsBetween .origin (ofChars languageId cs).stop =
    dropReturns cs := by
  obtain ⟨first, rest, hs⟩ := List.exists_cons_of_ne_nil (splitAtNewlines_ne_nil cs)
  have hlast : (ofChars languageId cs).lastLine = rest.length := by
    rw [lastLine, lineCount_ofChars, hs]
    rfl
  have hrow : (List.range' 1 rest.length).map (fun n => ((ofChars languageId cs).line n).toList) =
      rest.map dropReturn := by
    refine List.ext_getElem (by simp) fun k hk hk' => ?_
    have hk : k < rest.length := by simpa using hk
    have hn : (splitAtNewlines cs)[1 + k]? = some rest[k] := by
      rw [hs, Nat.add_comm, List.getElem?_cons_succ, List.getElem?_eq_getElem hk]
    simp [line_ofChars hn]
  have hfirst : (splitAtNewlines cs)[0]? = some first := by rw [hs, List.getElem?_cons_zero]
  rw [charsBetween_origin_stop, dropReturns_of_splitAtNewlines hs, hlast, line_ofChars hfirst,
    List.toList_toArray]
  have hflat (f : Nat → List Char) (ns : List Nat) :
      (ns.flatMap fun n => '\n' :: f n) = (ns.map f).flatMap ('\n' :: ·) := by
    rw [List.flatMap_map]
  rw [hflat, hrow, List.flatMap_map]

theorem glyphs_ofText (languageId text : String) :
    (ofText languageId text).glyphs .origin (ofText languageId text).stop =
      glyphsFrom .origin (dropReturns text.toList) := by
  rw [glyphs_eq_glyphsFrom (newline_not_mem_line languageId text) (valid_origin _) (valid_stop _)
    (Position.origin_le _), ofText, charsBetween_ofChars]

lemma spells_ofText (languageId text : String) :
    (ofText languageId text).Spells .origin (dropReturns text.toList) ∧
      Position.origin.along (dropReturns text.toList) = (ofText languageId text).stop :=
  Spells.of_glyphs (valid_origin _) (valid_stop _) (Position.origin_le _) (glyphs_ofText languageId text)

end Document
end AbbrevSite
