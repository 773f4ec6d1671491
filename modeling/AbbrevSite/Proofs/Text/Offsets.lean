import AbbrevSite.Proofs.Text.Places

/-! Flat offsets. Every character read raises the offset by one, so offsets and places are in the same
order, and the characters between two places are those read from the one to the other. -/
namespace AbbrevSite.Document

variable {d : Document} {p q : Position}

lemma toList_getElem? {n : Nat} (h : n < d.lineCount) : d.lines.toList[n]? = some (d.line n) := by
  have hn : n < d.lines.size := h
  simp [line, Array.getElem?_eq_getElem hn]

lemma toList_drop {n : Nat} (h : n < d.lineCount) :
    d.lines.toList.drop n = d.line n :: d.lines.toList.drop (n + 1) := by
  obtain ⟨hl, he⟩ := List.getElem?_eq_some_iff.1 (toList_getElem? h)
  rw [List.drop_eq_getElem_cons hl, he]

lemma lineStart_zero : d.lineStart 0 = 0 := rfl

lemma lineStart_succ {n : Nat} (h : n < d.lineCount) :
    d.lineStart (n + 1) = d.lineStart n + (d.lineLength n + 1) := by
  unfold lineStart
  rw [List.take_add_one, toList_getElem? h, List.foldl_append]
  rfl

lemma lineStart_lt {m n : Nat} (h : m < n) (hn : n ≤ d.lineCount) :
    d.lineStart m + d.lineLength m < d.lineStart n := by
  induction n with
  | zero => omega
  | succ n ih =>
    have hs := lineStart_succ (d := d) (n := n) hn
    by_cases hm : m = n
    · subst hm
      omega
    · have := ih (by omega) (by omega)
      omega

lemma offsetAt_of_valid (h : d.Valid p) : d.offsetAt p = d.lineStart p.line + p.column := by
  simp only [offsetAt, clamp_of_valid h]

lemma offsetAt_origin : d.offsetAt .origin = 0 := offsetAt_of_valid d.valid_origin

lemma offsetAt_stop : d.offsetAt d.stop = d.length := offsetAt_of_valid d.valid_stop

lemma offsetAt_after (h : d.Valid p) (hp : p < d.stop) :
    d.offsetAt (d.after p) = d.offsetAt p + 1 := by
  rw [offsetAt_of_valid h, offsetAt_of_valid (valid_after h hp)]
  by_cases hs : p.column < d.lineLength p.line
  · rw [after_of_column_lt hs]
    rfl
  · have hn : d.lineLength p.line ≤ p.column := Nat.not_lt.1 hs
    have hc := h.2
    rw [after_of_lineLength_le hn]
    have hl := lineStart_succ h.1
    show d.lineStart (p.line + 1) + 0 = _
    omega

theorem offsetAt_add_length_glyphs (hp : d.Valid p) (hq : d.Valid q) (h : p ≤ q) :
    d.offsetAt p + (d.glyphs p q).length = d.offsetAt q := by
  induction p, hp, h using forward_induction hq with
  | base => simp
  | step p hp hlt _ _ ih =>
    rw [offsetAt_after hp (Position.lt_of_lt_of_le hlt (le_stop hq))] at ih
    rw [glyphs_cons hq hlt, List.length_cons]
    omega

lemma offsetAt_lt (hp : d.Valid p) (hq : d.Valid q) (h : p < q) : d.offsetAt p < d.offsetAt q := by
  have hl := offsetAt_add_length_glyphs hp hq (Position.le_of_lt h)
  have := List.length_pos_iff.2 (glyphs_ne_nil hq h)
  omega

theorem lt_iff_offsetAt_lt (hp : d.Valid p) (hq : d.Valid q) :
    p < q ↔ d.offsetAt p < d.offsetAt q := by
  refine ⟨offsetAt_lt hp hq, fun h => Position.not_le.1 fun hle => ?_⟩
  have := offsetAt_add_length_glyphs hq hp hle
  omega

lemma offsetAt_le_length (h : d.Valid p) : d.offsetAt p ≤ d.length := by
  have := offsetAt_add_length_glyphs h d.valid_stop (le_stop h)
  rw [offsetAt_stop] at this
  omega

lemma placeIn_eq {l c n : Nat} (hl : l < d.lineCount) (hc : c ≤ d.lineLength l) (hn : n ≤ l) :
    placeIn n (d.lineStart l + c - d.lineStart n) (d.lines.toList.drop n) = ⟨l, c⟩ := by
  obtain rfl | hlt := Nat.eq_or_lt_of_le hn
  · rw [toList_drop hl, Nat.add_sub_cancel_left]
    cases hr : d.lines.toList.drop (n + 1) with
    | nil => rfl
    | cons m rest => exact if_pos hc
  · have hs := lineStart_succ (d := d) (n := n) (by omega)
    have hb : d.lineStart n + d.lineLength n < d.lineStart l := lineStart_lt hlt (by omega)
    have hr : d.lines.toList.drop (n + 1) = d.line (n + 1) :: d.lines.toList.drop (n + 2) :=
      toList_drop (by omega)
    have hz : (d.line n).size = d.lineLength n := rfl
    rw [toList_drop (by omega), hr, placeIn, if_neg (by omega), ← hr,
      show d.lineStart l + c - d.lineStart n - ((d.line n).size + 1) =
        d.lineStart l + c - d.lineStart (n + 1) by omega]
    exact placeIn_eq hl hc hlt
termination_by l - n

theorem positionAt_offsetAt (h : d.Valid p) : d.positionAt (d.offsetAt p) = p := by
  unfold positionAt
  rw [Nat.min_eq_left (offsetAt_le_length h), offsetAt_of_valid h]
  simpa [lineStart_zero] using placeIn_eq h.1 h.2 (Nat.zero_le p.line)

lemma exists_offsetAt_eq {n : Nat} (h : n ≤ d.length) : ∃ p, d.Valid p ∧ d.offsetAt p = n := by
  induction n with
  | zero => exact ⟨.origin, d.valid_origin, offsetAt_origin⟩
  | succ n ih =>
    obtain ⟨p, hp, rfl⟩ := ih (by omega)
    have hlt : p < d.stop := by
      rw [lt_iff_offsetAt_lt hp d.valid_stop, offsetAt_stop]
      omega
    exact ⟨d.after p, valid_after hp hlt, offsetAt_after hp hlt⟩

lemma positionAt_spec {n : Nat} (h : n ≤ d.length) :
    d.Valid (d.positionAt n) ∧ d.offsetAt (d.positionAt n) = n := by
  obtain ⟨p, hp, rfl⟩ := exists_offsetAt_eq h
  rw [positionAt_offsetAt hp]
  exact ⟨hp, rfl⟩

theorem positionAt_lt_iff {n : Nat} (hn : n ≤ d.length) (hq : d.Valid q) :
    d.positionAt n < q ↔ n < d.offsetAt q := by
  obtain ⟨hv, he⟩ := positionAt_spec hn
  rw [lt_iff_offsetAt_lt hv hq, he]

lemma charsBetween_of_le (hp : d.Valid p) (hq : d.Valid q) (h : q ≤ p) : d.charsBetween p q = [] := by
  unfold charsBetween
  rw [clamp_of_valid hp, clamp_of_valid hq]
  simp only [Position.le_def] at h
  simp only
  split_ifs with hl hl'
  · have hc : q.column ≤ p.column := by omega
    simp [hc]
  · rfl
  · omega

lemma extract_eq_cons {a : Array Char} {m n : Nat} (hm : m < a.size) (hn : m < n) :
    (a.extract m n).toList = a[m] :: (a.extract (m + 1) n).toList := by
  simp only [Array.toList_extract, List.extract_eq_take_drop]
  have hl : m < a.toList.length := by simpa using hm
  rw [List.drop_eq_getElem_cons hl, show n - m = n - (m + 1) + 1 by omega, List.take_succ_cons]
  simp

lemma extract_zero_size (a : Array Char) : (a.extract 0 a.size).toList = a.toList := by simp

lemma charsBetween_cons (hp : d.Valid p) (hq : d.Valid q) (h : p < q) :
    d.charsBetween p q = d.readAt p :: d.charsBetween (d.after p) q := by
  have hv := valid_after hp (Position.lt_of_lt_of_le h (le_stop hq))
  unfold charsBetween
  rw [clamp_of_valid hp, clamp_of_valid hq, clamp_of_valid hv]
  simp only [Position.lt_def] at h
  by_cases hs : p.column < d.lineLength p.line
  · have hz : p.column < (d.line p.line).size := hs
    have hr : d.readAt p = (d.line p.line)[p.column] := by
      simp [readAt, charAt, Array.getElem?_eq_getElem hz]
    rw [after_of_column_lt hs, hr]
    simp only
    split_ifs with hl hl'
    · exact extract_eq_cons hz (by omega)
    · omega
    · rw [extract_eq_cons hz hs]
      rfl
  · have hn : d.lineLength p.line ≤ p.column := Nat.not_lt.1 hs
    have hc := hp.2
    have hqc := hq.2
    have hl : p.line < q.line := by
      rcases h with h | ⟨h, h'⟩
      · exact h
      · rw [← h] at hqc
        omega
    have he : p.column = d.lineLength p.line := by omega
    rw [after_of_lineLength_le hn, readAt_of_lineLength_le hn]
    simp only
    rw [if_neg (by omega), if_neg (by omega), he]
    by_cases hn : p.line + 1 = q.line
    · rw [if_pos hn, ← hn]
      simp
    · rw [if_neg hn, if_neg (by omega),
        show q.line - (p.line + 1) = q.line - (p.line + 1 + 1) + 1 by omega,
        List.range'_succ, List.flatMap_cons]
      have hz : d.lineLength (p.line + 1) = (d.line (p.line + 1)).size := rfl
      rw [hz, extract_zero_size]
      simp

theorem map_char_glyphs (hp : d.Valid p) (hq : d.Valid q) (h : p ≤ q) :
    (d.glyphs p q).map (·.char) = d.charsBetween p q := by
  induction p, hp, h using forward_induction hq with
  | base =>
    rw [glyphs_self, charsBetween_of_le hq hq (Position.le_refl q)]
    rfl
  | step p hp hlt _ _ ih =>
    rw [glyphs_cons hq hlt, charsBetween_cons hp hq hlt, List.map_cons, ih]
    rfl

lemma charsBetween_append {r : Position} (hp : d.Valid p) (hq : d.Valid q) (hr : d.Valid r) (h : p ≤ q) (h' : q ≤ r) :
    d.charsBetween p r = d.charsBetween p q ++ d.charsBetween q r := by
  rw [← map_char_glyphs hp hr (h.trans h'), glyphs_append hp hq hr h h', List.map_append, map_char_glyphs hp hq h,
    map_char_glyphs hq hr h']

lemma charsBetween_clamp (p q : Position) : d.charsBetween p (d.clamp q) = d.charsBetween p q := by
  unfold charsBetween
  rw [clamp_of_valid (d.clamp_valid q)]

lemma offsetAt_add_length_charsBetween (hp : d.Valid p) (hq : d.Valid q) (h : p ≤ q) :
    d.offsetAt p + (d.charsBetween p q).length = d.offsetAt q := by
  rw [← map_char_glyphs hp hq h, List.length_map, offsetAt_add_length_glyphs hp hq h]

lemma toList_text : d.text.toList = (d.glyphs .origin d.stop).map (·.char) := by
  rw [map_char_glyphs d.valid_origin d.valid_stop (Position.origin_le _)]
  simp [text, textOf, span]

lemma le_iff_offsetAt_le (hp : d.Valid p) (hq : d.Valid q) : p ≤ q ↔ d.offsetAt p ≤ d.offsetAt q := by
  rw [← not_lt, ← not_lt, lt_iff_offsetAt_lt hq hp]

theorem slice_text (hp : d.Valid p) (hq : d.Valid q) (h : p ≤ q) :
    (d.text.toList.take (d.offsetAt q)).drop (d.offsetAt p) = d.charsBetween p q := by
  have hpl := offsetAt_add_length_charsBetween d.valid_origin hp (Position.origin_le p)
  have hql := offsetAt_add_length_charsBetween d.valid_origin hq (Position.origin_le q)
  rw [offsetAt_origin, Nat.zero_add] at hpl hql
  have htext : d.text.toList = d.charsBetween .origin q ++ d.charsBetween q d.stop := by
    rw [toList_text, map_char_glyphs d.valid_origin d.valid_stop (Position.origin_le _),
      charsBetween_append d.valid_origin hq d.valid_stop (Position.origin_le q) (le_stop hq)]
  rw [htext, List.take_append_of_le_length (le_of_eq hql.symm), List.take_of_length_le (le_of_eq hql),
    charsBetween_append d.valid_origin hp hq (Position.origin_le p) h, ← hpl, List.drop_left]

end AbbrevSite.Document
