import AbbrevSite.Proofs.Text.Offsets

/-! Blanking stretches of a document. The lines keep their lengths, so the places, their order and their
offsets stay what they are, and outside the stretches so do the characters. -/
namespace AbbrevSite

def InSome (spans : List Span) (p : Position) : Prop := ∃ s ∈ spans, s.start ≤ p ∧ p < s.stop

instance (spans : List Span) : DecidablePred (InSome spans) := fun p =>
  inferInstanceAs (Decidable (∃ s ∈ spans, s.start ≤ p ∧ p < s.stop))

namespace Document

/-- The document with spaces for the characters in some spans. A newline is no character of a line and
stays. -/
def blanked (d : Document) (spans : List Span) : Document where
  languageId := d.languageId
  lines := d.lines.mapIdx fun n l => l.mapIdx fun k c => if InSome spans ⟨n, k⟩ then ' ' else c
  lines_pos := by simpa using d.lines_pos

variable {d : Document} {spans : List Span} {p q : Position}

lemma line_blanked (n : Nat) : (d.blanked spans).line n =
    (d.line n).mapIdx fun k c => if InSome spans ⟨n, k⟩ then ' ' else c := by
  unfold line blanked
  rw [Array.getElem?_mapIdx]
  cases d.lines[n]? <;> rfl

@[simp] lemma lineCount_blanked : (d.blanked spans).lineCount = d.lineCount := Array.size_mapIdx

@[simp] lemma lineLength_blanked (n : Nat) : (d.blanked spans).lineLength n = d.lineLength n := by
  rw [lineLength, line_blanked, Array.size_mapIdx]
  rfl

lemma readAt_blanked : (d.blanked spans).readAt p =
    if p.column < d.lineLength p.line ∧ InSome spans p then ' ' else d.readAt p := by
  by_cases hc : p.column < d.lineLength p.line
  · have hs : p.column < (d.line p.line).size := hc
    simp only [readAt, charAt, line_blanked, Array.getElem?_mapIdx, Array.getElem?_eq_getElem hs,
      Option.map_some, Option.getD_some, hc, true_and]
  · have hs : (d.line p.line).size ≤ p.column := Nat.not_lt.1 hc
    simp only [readAt, charAt, line_blanked, Array.getElem?_mapIdx, Array.getElem?_eq_none hs, hc,
      Option.map_none, Option.getD_none, false_and, if_false]

lemma readAt_blanked_of_not_inSome (h : ¬ InSome spans p) :
    (d.blanked spans).readAt p = d.readAt p := by
  rw [readAt_blanked, if_neg fun hc => h hc.2]

lemma readAt_blanked_of_inSome (h : InSome spans p) :
    (d.blanked spans).readAt p = ' ' ∨ (d.blanked spans).readAt p = '\n' := by
  rw [readAt_blanked]
  by_cases hc : p.column < d.lineLength p.line
  · exact .inl (if_pos ⟨hc, h⟩)
  · rw [if_neg fun h => hc h.1]
    exact .inr (readAt_of_lineLength_le (Nat.not_lt.1 hc))

@[simp] lemma after_blanked (p : Position) : (d.blanked spans).after p = d.after p := by
  simp [after]

lemma backFrom_blanked (line : Nat) (column : Int) :
    Cursor.backFrom (d.blanked spans) line column = Cursor.backFrom d line column := by
  induction line generalizing column with
  | zero => rfl
  | succ line ih =>
    unfold Cursor.backFrom
    simp [ih]

@[simp] lemma prev_blanked (p : Position) : (d.blanked spans).prev p = d.prev p :=
  backFrom_blanked p.line (p.column - 1)

@[simp] lemma valid_blanked : (d.blanked spans).Valid p ↔ d.Valid p := by simp [Valid]

@[simp] lemma stop_blanked : (d.blanked spans).stop = d.stop := by simp [stop, lastLine]

@[simp] lemma clamp_blanked (p : Position) : (d.blanked spans).clamp p = d.clamp p := by
  simp [clamp]

lemma sizes_blanked : (d.blanked spans).lines.toList.map Array.size = d.lines.toList.map Array.size := by
  refine List.ext_getElem? fun n => ?_
  simp only [blanked, List.getElem?_map, Array.getElem?_toList, Array.getElem?_mapIdx, Option.map_map]
  cases d.lines[n]? <;> simp

lemma lineStart_eq (n : Nat) : d.lineStart n =
    ((d.lines.toList.map Array.size).take n).foldl (fun count size => count + (size + 1)) 0 := by
  rw [← List.map_take, List.foldl_map]
  rfl

@[simp] lemma lineStart_blanked (n : Nat) : (d.blanked spans).lineStart n = d.lineStart n := by
  rw [lineStart_eq, lineStart_eq, sizes_blanked]

@[simp] lemma length_blanked : (d.blanked spans).length = d.length := by simp [length, lastLine]

@[simp] lemma offsetAt_blanked (p : Position) : (d.blanked spans).offsetAt p = d.offsetAt p := by
  simp [offsetAt]

lemma placeIn_congr {ls ms : List (Array Char)} (h : ls.map Array.size = ms.map Array.size)
    (n offset : Nat) : placeIn n offset ls = placeIn n offset ms := by
  fun_induction placeIn n offset ls generalizing ms with
  | case1 n offset =>
    rw [List.map_nil, eq_comm, List.map_eq_nil_iff] at h
    rw [h, placeIn]
  | case2 n offset l =>
    obtain ⟨l', ms, rfl, -, h'⟩ := List.map_eq_cons_iff.1 h.symm
    rw [List.map_eq_nil_iff.1 h', placeIn]
  | case3 n offset l m rest hl | case4 n offset l m rest hl ih =>
    obtain ⟨l', ms, rfl, hl', h'⟩ := List.map_eq_cons_iff.1 h.symm
    obtain ⟨m', ms, rfl, hm', hms⟩ := List.map_eq_cons_iff.1 h'
    rw [placeIn, hl']
    first
    | rw [if_pos hl]
    | rw [if_neg hl]
      exact ih h'.symm

@[simp] lemma positionAt_blanked (n : Nat) : (d.blanked spans).positionAt n = d.positionAt n := by
  unfold positionAt
  rw [length_blanked]
  exact placeIn_congr sizes_blanked _ _

lemma glyphAt_blanked (h : ¬ InSome spans p) : (d.blanked spans).glyphAt p = d.glyphAt p := by
  simp [glyphAt, readAt_blanked_of_not_inSome h]

lemma glyphs_blanked (hp : d.Valid p) (hq : d.Valid q) (hle : p ≤ q)
    (h : ∀ x, p ≤ x → x < q → ¬ InSome spans x) :
    (d.blanked spans).glyphs p q = d.glyphs p q := by
  induction p, hp, hle using forward_induction hq with
  | base => simp
  | step p hp hlt _ _ ih =>
    rw [glyphs_cons hq hlt, glyphs_cons (valid_blanked.2 hq) hlt, glyphAt_blanked (h p (le_refl p) hlt),
      after_blanked, ih fun x hx => h x ((le_of_lt (lt_after d p)).trans hx)]

end Document
end AbbrevSite
