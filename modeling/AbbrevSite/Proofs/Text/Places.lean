import AbbrevSite.Proofs.Text.Order
import AbbrevSite.Region.Back

/-! The places of a document in reading order. Going on by one character and going back by one undo
each other, and the characters of a window can be split at every place in it. -/
namespace AbbrevSite.Document

variable {d : Document} {p q r : Position}

instance (d : Document) (p : Position) : Decidable (d.Valid p) :=
  inferInstanceAs (Decidable (p.line < d.lineCount ∧ p.column ≤ d.lineLength p.line))

instance (d : Document) (P : Position → Prop) [DecidablePred P] : Decidable (∀ p, d.Valid p → P p) :=
  decidable_of_iff (∀ l < d.lineCount, ∀ k < d.lineLength l + 1, P ⟨l, k⟩)
    ⟨fun h p hp => h p.line hp.1 p.column (Nat.lt_succ_of_le hp.2),
      fun h l hl k hk => h ⟨l, k⟩ ⟨hl, Nat.le_of_lt_succ hk⟩⟩

lemma readAt_eq_getElem (h : p.column < (d.line p.line).size) :
    d.readAt p = (d.line p.line)[p.column] := by
  simp [readAt, charAt, Array.getElem?_eq_getElem h]

lemma readAt_of_lineLength_le (h : d.lineLength p.line ≤ p.column) : d.readAt p = '\n' := by
  have hs : (d.line p.line).size ≤ p.column := h
  simp [readAt, charAt, Array.getElem?_eq_none hs]

lemma after_of_column_lt (h : p.column < d.lineLength p.line) :
    d.after p = ⟨p.line, p.column + 1⟩ := if_pos h

lemma after_of_lineLength_le (h : d.lineLength p.line ≤ p.column) :
    d.after p = ⟨p.line + 1, 0⟩ := if_neg (Nat.not_lt.2 h)

lemma valid_after (h : d.Valid p) (hp : p < d.stop) : d.Valid (d.after p) := by
  obtain ⟨hl, hc⟩ := h
  by_cases hs : p.column < d.lineLength p.line
  · rw [after_of_column_lt hs]
    exact ⟨hl, hs⟩
  · have hn : d.lineLength p.line ≤ p.column := Nat.not_lt.1 hs
    rw [after_of_lineLength_le hn]
    refine ⟨?_, Nat.zero_le _⟩
    have ht : d.lastLine = d.lineCount - 1 := rfl
    simp only [Position.lt_def, stop] at hp
    rcases hp with hp | ⟨hp, hp'⟩
    · show p.line + 1 < d.lineCount
      omega
    · rw [← hp] at hp'
      omega

lemma after_le (h : d.Valid q) (hp : p < q) : d.after p ≤ q := by
  by_cases hs : p.column < d.lineLength p.line
  · rw [after_of_column_lt hs]
    simp only [Position.le_def, Position.lt_def] at *
    omega
  · rw [after_of_lineLength_le (Nat.not_lt.1 hs)]
    have hc := h.2
    simp only [Position.le_def, Position.lt_def] at *
    rcases hp with hp | ⟨hp, hp'⟩
    · omega
    · rw [← hp] at hc
      omega

lemma afterWithin_of_valid (h : d.Valid q) (hp : p < q) : d.afterWithin q p = d.after p := by
  unfold afterWithin
  split_ifs with hs
  · rfl
  · exact Position.le_antisymm (Position.not_lt.1 hs) (after_le h hp)

lemma prev_after (h : p.column ≤ d.lineLength p.line) : d.prev (d.after p) = p := by
  by_cases hs : p.column < d.lineLength p.line
  · rw [after_of_column_lt hs, prev_mk_succ]
  · have hn : d.lineLength p.line ≤ p.column := Nat.not_lt.1 hs
    rw [after_of_lineLength_le hn, prev_mk_zero]
    exact Position.eq_of rfl (Nat.le_antisymm hn h)

lemma exists_eq_after (h : d.Valid p) (h0 : p ≠ .origin) :
    ∃ q, d.Valid q ∧ q < d.stop ∧ p = d.after q := by
  obtain ⟨l, c⟩ := p
  have hle := le_stop h
  obtain ⟨hl, hc⟩ := h
  cases c with
  | succ c =>
    have hs : (⟨l, c⟩ : Position).column < d.lineLength l := hc
    have hlt : (⟨l, c⟩ : Position) < ⟨l, c + 1⟩ := by simp [Position.lt_def]
    exact ⟨⟨l, c⟩, ⟨hl, Nat.le_of_lt hs⟩, Position.lt_of_lt_of_le hlt hle,
      (after_of_column_lt hs).symm⟩
  | zero =>
    cases l with
    | zero => exact absurd rfl h0
    | succ l =>
      have hlt : (⟨l, d.lineLength l⟩ : Position) < ⟨l + 1, 0⟩ := by simp [Position.lt_def]
      refine ⟨⟨l, d.lineLength l⟩, ⟨?_, Nat.le_refl _⟩, Position.lt_of_lt_of_le hlt hle, ?_⟩
      · exact Nat.lt_trans (Nat.lt_succ_self l) hl
      · rw [after_of_lineLength_le (Nat.le_refl _)]

lemma valid_prev (h : d.Valid p) : d.Valid (d.prev p) := by
  by_cases h0 : p = .origin
  · subst h0
    exact d.valid_origin
  · obtain ⟨q, hq, -, rfl⟩ := exists_eq_after h h0
    rwa [prev_after hq.2]

lemma after_prev (h : d.Valid p) (h0 : p ≠ .origin) : d.after (d.prev p) = p := by
  obtain ⟨q, hq, -, rfl⟩ := exists_eq_after h h0
  rw [prev_after hq.2]

lemma prev_lt_stop (h : d.Valid p) (h0 : p ≠ .origin) : d.prev p < d.stop :=
  Position.lt_of_lt_of_le (prev_lt h0) (le_stop h)

lemma ne_origin_of_lt (h : p < q) : q ≠ .origin := by
  rintro rfl
  exact Position.lt_irrefl _ (Position.lt_of_lt_of_le h (Position.origin_le p))

lemma le_prev (hp : d.Valid p) (hq : d.Valid q) (h : p < q) : p ≤ d.prev q := by
  refine Position.not_lt.1 fun hlt => ?_
  have hle := after_le hp hlt
  rw [after_prev hq (ne_origin_of_lt h)] at hle
  exact Position.lt_irrefl _ (Position.lt_of_lt_of_le h hle)

lemma line_lt_of_lt_stop (h : p < d.stop) : p.line < d.lineCount := by
  have hl := d.lastLine_lt
  simp only [Position.lt_def, stop] at h
  omega

lemma clamp_le (h : p < d.stop) : d.clamp p ≤ p := by
  rw [clamp, if_pos (line_lt_of_lt_stop h)]
  exact .inr ⟨rfl, Nat.min_le_left _ _⟩

lemma le_clamp (hq : d.Valid q) (h : q ≤ p) : q ≤ d.clamp p := by
  unfold clamp
  split_ifs
  · rw [Position.le_def] at h ⊢
    have hcolumn := hq.2
    rcases h with h | ⟨hline, h⟩
    · exact .inl h
    · rw [hline] at hcolumn
      exact .inr ⟨hline, Nat.le_min.2 ⟨h, hcolumn⟩⟩
  · exact le_stop hq

lemma clamp_le_of_le (hq : d.Valid q) (h : p ≤ q) : d.clamp p ≤ q := by
  have hline : p.line < d.lineCount := by
    have hline := hq.1
    rw [Position.le_def] at h
    omega
  have hle : d.clamp p ≤ p := by
    rw [clamp, if_pos hline]
    exact .inr ⟨rfl, Nat.min_le_left _ _⟩
  exact Position.le_trans hle h

lemma lt_clamp (hq : d.readAt q ≠ '\n') (h : q < p) (hp : p < d.stop) : q < d.clamp p := by
  have hcol : q.column < d.lineLength q.line := lt_of_not_ge fun hle => hq (readAt_of_lineLength_le hle)
  rw [clamp, if_pos (line_lt_of_lt_stop hp)]
  simp only [Position.lt_def] at *
  rcases h with h | ⟨h, h'⟩
  · exact .inl h
  · rw [h] at hcol
    omega

lemma lt_of_clamp_lt (hq : d.Valid q) (hp : p < d.stop) (h : d.clamp p < q) : p < q := by
  rw [clamp, if_pos (line_lt_of_lt_stop hp)] at h
  have hc := hq.2
  simp only [Position.lt_def] at *
  rcases h with h | ⟨h, h'⟩
  · exact .inl h
  · rw [← h] at hc
    omega

/-- Induction from a place towards the start of the text before it. -/
theorem forward_induction (hq : d.Valid q) {motive : ∀ p, d.Valid p → p ≤ q → Prop}
    (base : motive q hq (Position.le_refl q))
    (step : ∀ p (hp : d.Valid p) (hlt : p < q) (hv : d.Valid (d.after p)) (hle : d.after p ≤ q),
      motive (d.after p) hv hle → motive p hp (Position.le_of_lt hlt))
    (p : Position) (hp : d.Valid p) (h : p ≤ q) : motive p hp h := by
  by_cases hlt : p < q
  · have hv := valid_after hp (Position.lt_of_lt_of_le hlt (le_stop hq))
    have hle := after_le hq hlt
    exact step p hp hlt hv hle (forward_induction hq base step _ hv hle)
  · obtain rfl := Position.le_antisymm h (Position.not_lt.1 hlt)
    exact base
termination_by d.readingMeasure q p
decreasing_by
  rw [← afterWithin_of_valid hq hlt]
  exact d.afterWithin_decreases hlt

theorem backward_induction {motive : ∀ p, d.Valid p → Prop} (base : motive .origin d.valid_origin)
    (step : ∀ p (hp : d.Valid p), p ≠ .origin → motive (d.prev p) (valid_prev hp) → motive p hp)
    (p : Position) (hp : d.Valid p) : motive p hp := by
  by_cases h0 : p = .origin
  · subst h0
    exact base
  · exact step p hp h0 (backward_induction base step _ (valid_prev hp))
termination_by (p.line, p.column)
decreasing_by exact Position.lex_of_lt (prev_lt h0)

def glyphAt (d : Document) (p : Position) : Glyph := ⟨d.readAt p, p, d.after p⟩

@[simp] lemma glyphAt_char : (d.glyphAt p).char = d.readAt p := rfl
@[simp] lemma glyphAt_start : (d.glyphAt p).start = p := rfl
@[simp] lemma glyphAt_stop : (d.glyphAt p).stop = d.after p := rfl

@[simp] lemma glyphs_self : d.glyphs p p = [] := glyphs_of_le (Position.le_refl p)

lemma glyphs_cons (hq : d.Valid q) (h : p < q) :
    d.glyphs p q = d.glyphAt p :: d.glyphs (d.after p) q := by
  rw [glyphs_of_lt h, afterWithin_of_valid hq h]
  rfl

theorem glyphs_append (hp : d.Valid p) (hq : d.Valid q) (hr : d.Valid r) (h : p ≤ q) (h' : q ≤ r) :
    d.glyphs p r = d.glyphs p q ++ d.glyphs q r := by
  induction p, hp, h using forward_induction hq with
  | base => simp
  | step p _ hlt _ _ ih =>
    rw [glyphs_cons hr (Position.lt_of_lt_of_le hlt h'), glyphs_cons hq hlt, ih]
    rfl

lemma glyphs_concat (hp : d.Valid p) (hq : d.Valid q) (h : p < q) :
    d.glyphs p q = d.glyphs p (d.prev q) ++ [d.glyphAt (d.prev q)] := by
  have h0 := ne_origin_of_lt h
  have hv := valid_prev hq
  rw [glyphs_append hp hv hq (le_prev hp hq h) (d.prev_le q), glyphs_cons hq (prev_lt h0),
    after_prev hq h0, glyphs_self]

lemma glyphs_ne_nil (hq : d.Valid q) (h : p < q) : d.glyphs p q ≠ [] := by
  rw [glyphs_cons hq h]
  exact List.cons_ne_nil _ _

lemma lt_of_glyphs_ne_nil (h : d.glyphs p q ≠ []) : p < q :=
  Position.not_le.1 fun hle => h (glyphs_of_le hle)

lemma of_glyphs_eq_cons {g : Glyph} {gs : List Glyph} (hq : d.Valid q) (h : d.glyphs p q = g :: gs) :
    p < q ∧ g = d.glyphAt p ∧ gs = d.glyphs (d.after p) q := by
  have hlt : p < q := lt_of_glyphs_ne_nil (h ▸ List.cons_ne_nil g gs)
  rw [glyphs_cons hq hlt, List.cons.injEq] at h
  exact ⟨hlt, h.1.symm, h.2.symm⟩

lemma mem_glyphs (hq : d.Valid q) (hp : d.Valid p) (h : p ≤ q) {g : Glyph} :
    g ∈ d.glyphs p q ↔ ∃ x, d.Valid x ∧ p ≤ x ∧ x < q ∧ g = d.glyphAt x := by
  induction p, hp, h using forward_induction hq with
  | base =>
    simp only [glyphs_self, List.not_mem_nil, false_iff]
    rintro ⟨x, -, hx, hx', -⟩
    exact Position.lt_irrefl _ (Position.lt_of_lt_of_le hx' hx)
  | step p hp hlt _ _ ih =>
    rw [glyphs_cons hq hlt, List.mem_cons, ih]
    constructor
    · rintro (rfl | ⟨x, hx, hle, hx', rfl⟩)
      · exact ⟨p, hp, Position.le_refl p, hlt, rfl⟩
      · exact ⟨x, hx, Position.le_trans (Position.le_of_lt (d.lt_after p)) hle, hx', rfl⟩
    · rintro ⟨x, hx, hle, hx', rfl⟩
      by_cases he : x = p
      · exact .inl (by rw [he])
      · have hpx : p < x := Position.not_le.1 fun hxp => he (Position.le_antisymm hxp hle)
        exact .inr ⟨x, hx, after_le hx hpx, hx', rfl⟩

lemma mem_glyphs_of_le (hp : d.Valid p) (hq : d.Valid q) (hr : d.Valid r) (h : p ≤ q) (h' : q < r) :
    d.glyphAt q ∈ d.glyphs p r :=
  (mem_glyphs hr hp (Position.le_trans h (Position.le_of_lt h'))).2 ⟨q, hq, h, h', rfl⟩

lemma exists_glyphs_split (hp : d.Valid p) (hr : d.Valid r) (h : p ≤ r) {gs hs : List Glyph}
    (he : d.glyphs p r = gs ++ hs) :
    ∃ q, d.Valid q ∧ p ≤ q ∧ q ≤ r ∧ d.glyphs p q = gs ∧ d.glyphs q r = hs := by
  induction gs generalizing p with
  | nil => exact ⟨p, hp, Position.le_refl p, h, glyphs_self, by simpa using he⟩
  | cons g gs ih =>
    by_cases hlt : p < r
    · rw [glyphs_cons hr hlt, List.cons_append, List.cons.injEq] at he
      have hv := valid_after hp (Position.lt_of_lt_of_le hlt (le_stop hr))
      obtain ⟨q, hq, hpq, hqr, hgs, hhs⟩ := ih hv (after_le hr hlt) he.2
      have hpq' := Position.lt_of_lt_of_le (d.lt_after p) hpq
      refine ⟨q, hq, Position.le_of_lt hpq', hqr, ?_, hhs⟩
      rw [glyphs_cons hq hpq', hgs, he.1]
    · rw [glyphs_of_le (Position.not_lt.1 hlt)] at he
      simp at he

def Throughout (d : Document) (P : Char → Prop) (p q : Position) : Prop :=
  ∀ x, d.Valid x → p ≤ x → x < q → P (d.readAt x)

variable {P Q : Char → Prop}

lemma throughout_self : d.Throughout P p p := fun x _ h h' => by order

lemma Throughout.mono (h : d.Throughout P p q) (hPQ : ∀ c, P c → Q c) : d.Throughout Q p q :=
  fun x hx hle hlt => hPQ _ (h x hx hle hlt)

lemma Throughout.sub {p' q' : Position} (h : d.Throughout P p q) (hp : p ≤ p') (hq : q' ≤ q) :
    d.Throughout P p' q' :=
  fun x hx hle hlt => h x hx (hp.trans hle) (lt_of_lt_of_le hlt hq)

lemma Throughout.concat (h : d.Throughout P p (d.prev q)) (hq : d.Valid q)
    (hc : P (d.readAt (d.prev q))) : d.Throughout P p q := by
  intro x hx hle hlt
  rcases lt_or_eq_of_le (le_prev hx hq hlt) with hx' | rfl
  · exact h x hx hle hx'
  · exact hc

lemma Throughout.cons (h : d.Throughout P (d.after p) q) (hc : P (d.readAt p)) :
    d.Throughout P p q := by
  intro x hx hle hlt
  rcases lt_or_eq_of_le hle with hx' | rfl
  · exact h x hx (after_le hx hx') hlt
  · exact hc

lemma Throughout.append (h : d.Throughout P p q) (h' : d.Throughout P q r) :
    d.Throughout P p r := by
  intro x hx hle hlt
  rcases lt_or_ge x q with hq | hq
  · exact h x hx hle hq
  · exact h' x hx hq hlt

lemma exists_last (hp : d.Valid p) (hq : d.Valid q) (h : p < q) (hP : ¬ P (d.readAt p)) :
    ∃ x, d.Valid x ∧ p ≤ x ∧ x < q ∧ ¬ P (d.readAt x) ∧ d.Throughout P (d.after x) q := by
  induction q, hq using backward_induction with
  | base => exact absurd h (not_lt.2 (Position.origin_le p))
  | step q hq h0 ih =>
    have hlt := prev_lt (d := d) h0
    by_cases hc : P (d.readAt (d.prev q))
    · rcases lt_or_eq_of_le (le_prev hp hq h) with hx | hx
      · obtain ⟨x, hv, hpx, hxq, hn, ht⟩ := ih hx
        exact ⟨x, hv, hpx, hxq.trans hlt, hn, ht.concat hq hc⟩
      · rw [hx] at hP
        exact absurd hc hP
    · refine ⟨d.prev q, valid_prev hq, le_prev hp hq h, hlt, hc, ?_⟩
      rw [after_prev hq h0]
      exact throughout_self

end AbbrevSite.Document
