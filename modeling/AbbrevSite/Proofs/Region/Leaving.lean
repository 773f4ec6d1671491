import AbbrevSite.Proofs.Region.Markers

/-! Leaving comments while going back. Where the markers of comments stand only at comments, going back from a
place outside them leads over a whole comment that ends there, or to the character before. -/
namespace AbbrevSite

open Sheet

namespace Document

variable {d : Document} {spans : List Span} {lineComments : Bool} {p q : Position} {c : Span}

def InLineComment (d : Document) (spans : List Span) (p : Position) : Prop :=
  ∃ c ∈ spans, d.PairAt '/' '/' c.start ∧ c.start ≤ p ∧ p < c.stop

instance (d : Document) (spans : List Span) : DecidablePred (d.InLineComment spans) := fun p =>
  inferInstanceAs (Decidable (∃ c ∈ spans, d.PairAt '/' '/' c.start ∧ c.start ≤ p ∧ p < c.stop))

/-- The markers of comments stand at comments: `/*` only where one starts, with its slash at the end of one
or in a line comment, `//` only in a line comment and `*/` only in a comment. -/
structure Marked (d : Document) (lineComments : Bool) (spans : List Span) : Prop where
  opening : ∀ p, d.Valid p → d.PairAt '/' '*' p →
    (∃ c ∈ spans, p = c.start ∨ d.after p = c.stop) ∨ d.InLineComment spans p
  line : lineComments = true → ∀ p, d.Valid p → d.PairAt '/' '/' p → d.InLineComment spans p
  closing : ∀ p, d.Valid p → d.PairAt '*' '/' p → InSome spans p

lemma marked_iff : d.Marked lineComments spans ↔
    (∀ p, d.Valid p → d.PairAt '/' '*' p →
        (∃ c ∈ spans, p = c.start ∨ d.after p = c.stop) ∨ d.InLineComment spans p) ∧
      (lineComments = true → ∀ p, d.Valid p → d.PairAt '/' '/' p → d.InLineComment spans p) ∧
      ∀ p, d.Valid p → d.PairAt '*' '/' p → InSome spans p :=
  ⟨fun h => ⟨h.opening, h.line, h.closing⟩, fun h => ⟨h.1, h.2.1, h.2.2⟩⟩

instance (d : Document) (lineComments : Bool) (spans : List Span) : Decidable (d.Marked lineComments spans) :=
  decidable_of_iff _ marked_iff.symm

lemma clear_of_not_inSome (h : ¬ InSome spans p) : Clear spans p := by
  intro c hc
  rcases le_or_gt p c.start with hle | hlt
  · exact .inl hle
  · exact .inr (not_lt.1 fun hpc => h ⟨c, hc, le_of_lt hlt, hpc⟩)

lemma exists_stop_of_inSome_prev (hp : d.Valid p) (h0 : p ≠ .origin) (hclear : Clear spans p)
    (hvalid : ∀ c ∈ spans, d.Valid c.stop) (h : InSome spans (d.prev p)) : ∃ c ∈ spans, c.stop = p := by
  obtain ⟨c, hc, hcp, hpc⟩ := h
  refine ⟨c, hc, le_antisymm ?_ ?_⟩
  · exact (hclear c hc).resolve_left fun hle => absurd (prev_lt h0) (not_lt.2 (hle.trans hcp))
  · have := after_le (hvalid c hc) hpc
    rwa [after_prev hp h0] at this

namespace Commented

variable (h : d.Commented lineComments spans) (hc : c ∈ spans)
include h hc

lemma clear_start : Clear spans c.start := by
  intro c' hc'
  rcases h.apart c hc c' hc' with rfl | hle | hle
  · exact .inl (le_refl _)
  · exact .inl ((le_of_lt (h.valid c hc).2.2).trans hle)
  · exact .inr hle

lemma clear_stop : Clear spans c.stop := by
  intro c' hc'
  rcases h.apart c hc c' hc' with rfl | hle | hle
  · exact .inr (le_refl _)
  · exact .inl hle
  · exact .inr (hle.trans (le_of_lt (h.valid c hc).2.2))

lemma readAt_start : d.readAt c.start = '/' := by
  cases h.comment c hc with
  | block opening => exact opening.1
  | line _ opening => exact opening.1

lemma line_stop (hl : d.PairAt '/' '/' c.start) :
    lineComments = true ∧ c.stop = ⟨c.start.line, d.lineLength c.start.line⟩ ∧ d.readAt c.stop = '\n' := by
  cases h.comment c hc with
  | block opening =>
    have he := hl.2.symm.trans opening.2
    exact absurd he (by decide)
  | line allowed _ stop _ =>
    refine ⟨allowed, stop, ?_⟩
    rw [stop]
    exact readAt_of_lineLength_le (le_refl _)

lemma block_stop (hb : ¬ d.PairAt '/' '/' c.start) :
    d.PairAt '/' '*' c.start ∧ ∃ e, d.Valid e ∧ d.after (d.after c.start) ≤ e ∧ d.PairAt '*' '/' e ∧
      e < c.stop ∧ d.prev c.stop = d.after e := by
  cases h.comment c hc with
  | line _ opening => exact absurd opening hb
  | @block e opening valid behind closing stop _ =>
    have hcol : (d.after e).column ≤ d.lineLength (d.after e).line := by
      obtain ⟨ha, -, hcol⟩ := closing.after_after (by decide) (by decide)
      rw [ha]
      exact Nat.le_of_succ_le hcol
    refine ⟨opening, e, valid, behind, closing, ?_, ?_⟩
    · rw [stop]
      exact (lt_after d e).trans (lt_after d _)
    · rw [stop, prev_after hcol]

lemma eq_of_within {c' : Span} (hc' : c' ∈ spans) (hp : c.start ≤ p) (hp' : p < c.stop)
    (hq : c'.start ≤ p) (hq' : p < c'.stop) : c = c' := by
  rcases h.apart c hc c' hc' with he | hle | hle
  · exact he
  · exact absurd (hp'.trans_le (hle.trans hq)) (lt_irrefl _)
  · exact absurd (hq'.trans_le (hle.trans hp)) (lt_irrefl _)

lemma not_opening_within (hm : d.Marked lineComments spans) (hb : ¬ d.PairAt '/' '/' c.start)
    (hp : d.Valid p) (hcp : c.start < p) (hpc : d.after p < c.stop) : ¬ d.PairAt '/' '*' p := by
  intro hpair
  have hpc' := (lt_after d p).trans hpc
  rcases hm.opening p hp hpair with ⟨c', hc', he | he⟩ | ⟨c', hc', hl, hle, hlt⟩
  · have hc'p := (h.valid c' hc').2.2
    rw [← he] at hc'p
    obtain rfl := h.eq_of_within hc hc' (le_of_lt hcp) hpc' (le_of_eq he.symm) hc'p
    exact absurd hcp (not_lt.2 (le_of_eq he))
  · have hle : c'.start ≤ p := by
      have hlt := (h.valid c' hc').2.2
      rw [← he] at hlt
      by_contra hn
      exact absurd (after_le (h.valid c' hc').1 (not_le.1 hn)) (not_le.2 hlt)
    obtain rfl := h.eq_of_within hc hc' (le_of_lt hcp) hpc' hle (he ▸ lt_after d p)
    exact absurd hpc (not_lt.2 (le_of_eq he.symm))
  · rw [h.eq_of_within hc hc' (le_of_lt hcp) hpc' hle hlt] at hb
    exact hb hl

end Commented
end Document

namespace RegionSearch

open Document

variable {s : RegionSearch} {spans : List Span} {p q : Position} {line : Nat} {c : Span}

lemma pairAt_of_endsComment (hq : s.document.Valid q) (hslash : s.document.readAt q = '/')
    (hends : s.endsComment q = true) : q ≠ .origin ∧ s.document.PairAt '*' '/' (s.document.prev q) := by
  simp only [endsComment, Bool.and_eq_true, bne_iff_ne, beq_iff_eq] at hends
  obtain ⟨h0, hstar⟩ := hends
  exact ⟨h0, hstar, by rwa [after_prev hq h0]⟩

variable (h : s.document.Commented s.lineComments spans) (hm : s.document.Marked s.lineComments spans)
include h hm

lemma exists_lineComment {n k : Nat} (hl : s.lineComments = true) (hn : n < s.document.lineCount)
    (hcol : s.document.lineCommentColumn n = some k) :
    ∃ c ∈ spans, s.document.PairAt '/' '/' c.start ∧ c.start = ⟨n, k⟩ ∧
      c.stop = ⟨n, s.document.lineLength n⟩ := by
  obtain ⟨hpair, hfirst⟩ := lineCommentColumn_eq_some hcol
  have hk := hpair.after_after (by decide) (by decide)
  obtain ⟨c, hc, hcpair, hck, hkc⟩ := hm.line hl ⟨n, k⟩ ⟨hn, by omega⟩ hpair
  obtain ⟨-, hstop, -⟩ := h.line_stop hc hcpair
  rw [hstop] at hkc
  have hline : c.start.line = n := by
    simp only [Position.le_def, Position.lt_def] at hck hkc
    omega
  have hj := hfirst c.start.column (by rwa [← hline])
  have hstart : c.start = ⟨n, k⟩ := by
    simp only [Position.le_def] at hck
    exact Position.eq_of hline (by simp only; omega)
  exact ⟨c, hc, hcpair, hstart, by rw [hstop, hline]⟩

omit hm in
lemma lineCommentColumn_stop (hc : c ∈ spans) (hl : s.document.PairAt '/' '/' c.start) :
    ∃ k, s.document.lineCommentColumn c.stop.line = some k ∧ k < c.stop.column := by
  obtain ⟨-, hstop, -⟩ := h.line_stop hc hl
  have hlt := (h.valid c hc).2.2
  cases hcol : s.document.lineCommentColumn c.stop.line with
  | none =>
    rw [hstop] at hcol
    exact absurd hl (lineCommentColumn_eq_none hcol _)
  | some k =>
    have hline : c.start.line = c.stop.line := by rw [hstop]
    have hj := (lineCommentColumn_eq_some hcol).2 c.start.column (by rwa [← hline])
    refine ⟨k, rfl, ?_⟩
    simp only [Position.lt_def] at hlt
    omega

/-- Coming from another line, a line comment that ends at a place is left, and nothing else is. -/
lemma leaveLineComment_cases (hp : s.document.Valid p) (hclear : Sheet.Clear spans p)
    (hfresh : line = p.line → ∀ c ∈ spans, s.document.PairAt '/' '/' c.start → c.stop ≠ p) :
    (s.leaveLineComment line p = p ∧
        ∀ c ∈ spans, s.document.PairAt '/' '/' c.start → c.stop ≠ p) ∨
      ∃ c ∈ spans, s.document.PairAt '/' '/' c.start ∧ c.stop = p ∧
        s.leaveLineComment line p = c.start ∧ line ≠ p.line := by
  by_cases hskip : s.lineComments = true ∧ line ≠ p.line
  · obtain ⟨hl, hne⟩ := hskip
    cases hcol : s.document.lineCommentColumn p.line with
    | none =>
      refine .inl ⟨by simp [leaveLineComment, hcol], fun c hc hpair he => ?_⟩
      obtain ⟨k, hk, -⟩ := lineCommentColumn_stop h hc hpair
      rw [he, hcol] at hk
      cases hk
    | some k =>
      by_cases hkp : k < p.column
      · obtain ⟨c, hc, hcpair, hstart, hstop⟩ := exists_lineComment h hm hl hp.1 hcol
        have hlt : c.start < p := by
          rw [hstart]
          exact .inr ⟨rfl, hkp⟩
        have hle := (hclear c hc).resolve_left (not_le.2 hlt)
        have hpc := hp.2
        rw [hstop] at hle
        simp only [Position.le_def] at hle
        refine .inr ⟨c, hc, hcpair, ?_, ?_, hne⟩
        · rw [hstop]
          exact Position.eq_of rfl (by simp only; omega)
        · simp [leaveLineComment, hl, hne, hcol, hkp, hstart]
      · refine .inl ⟨by simp [leaveLineComment, hcol, hkp], fun c hc hpair he => ?_⟩
        obtain ⟨j, hj, hjlt⟩ := lineCommentColumn_stop h hc hpair
        rw [he, hcol] at hj
        cases hj
        exact hkp (he ▸ hjlt)
  · have hleave : s.leaveLineComment line p = p := by
      unfold leaveLineComment
      rw [if_neg (by simpa using hskip)]
    refine .inl ⟨hleave, fun c hc hpair => ?_⟩
    by_cases hl : s.lineComments = true
    · exact hfresh (by simpa [hl] using hskip) c hc hpair
    · exact absurd (h.line_stop hc hpair).1 hl

omit hm in
lemma endsComment_prev_stop (hc : c ∈ spans) (hb : ¬ s.document.PairAt '/' '/' c.start) :
    s.document.readAt (s.document.prev c.stop) = '/' ∧ s.endsComment (s.document.prev c.stop) = true := by
  obtain ⟨-, e, he, -, hclosing, -, hprev⟩ := h.block_stop hc hb
  have hne := ne_origin_of_lt (lt_after s.document e)
  rw [hprev]
  exact ⟨hclosing.2, by simp [endsComment, hne, prev_after he.2, hclosing.1]⟩

lemma leaveBlockComment_prev_stop (hc : c ∈ spans) (hb : ¬ s.document.PairAt '/' '/' c.start) :
    s.leaveBlockComment (s.document.prev c.stop) = c.start := by
  have hends := (endsComment_prev_stop h hc hb).2
  obtain ⟨hopening, e, he, hbehind, hclosing, hstop, hprev⟩ := h.block_stop hc hb
  rw [hprev] at hends ⊢
  have hbefore : c.start.line < e.line ∨ c.start.line = e.line ∧ c.start.column + 2 ≤ e.column := by
    rwa [(hopening.after_after (by decide) (by decide)).2.1] at hbehind
  have hfound : s.document.openingBefore e.line e.column = some c.start := by
    refine openingBefore_eq hopening hbefore fun y hy hye => not_lt.1 fun hcy => ?_
    have hlt : y < e := by
      simp only [Position.lt_def]
      omega
    have hv : s.document.Valid y :=
      ⟨(Position.le_of_lt hlt).elim (·.trans he.1) (·.1.trans_lt he.1),
        le_of_lt (column_lt_of_readAt (by rw [hy.1]; decide))⟩
    exact h.not_opening_within hc hm hb hv hcy ((after_le he hlt).trans_lt hstop) hy
  unfold leaveBlockComment
  rw [if_pos hends, prev_after he.2]
  simp only [hfound]

lemma endsComment_of_not_inSome (hq : s.document.Valid q) (hslash : s.document.readAt q = '/')
    (hout : ¬ InSome spans q) : s.endsComment q = false := by
  rw [Bool.eq_false_iff]
  intro hends
  obtain ⟨h0, hpair⟩ := pairAt_of_endsComment hq hslash hends
  obtain ⟨c, hc, rfl⟩ := exists_stop_of_inSome_prev hq h0 (clear_of_not_inSome hout)
    (fun c hc => (h.valid c hc).2.1) (hm.closing _ (valid_prev hq) hpair)
  by_cases hl : s.document.PairAt '/' '/' c.start
  · rw [(h.line_stop hc hl).2.2] at hslash
    exact absurd hslash (by decide)
  · obtain ⟨hslash', -⟩ := endsComment_prev_stop h hc hl
    rw [hpair.1] at hslash'
    exact absurd hslash' (by decide)

/-- No comment ends where a line comment starts. -/
lemma not_inSome_prev_start (hc : c ∈ spans) (hl : s.document.PairAt '/' '/' c.start)
    (h0 : c.start ≠ .origin) : ¬ InSome spans (s.document.prev c.start) := by
  intro hin
  have hv := (h.valid c hc).1
  obtain ⟨b, hb, hstop⟩ := exists_stop_of_inSome_prev hv h0 (h.clear_start hc)
    (fun c hc => (h.valid c hc).2.1) hin
  have hread := h.readAt_start hc
  by_cases hbl : s.document.PairAt '/' '/' b.start
  · rw [← hstop, (h.line_stop hb hbl).2.2] at hread
    exact absurd hread (by decide)
  · -- the slash that ends the block comment and the first one of the line comment are a pair
    have hslash := (endsComment_prev_stop h hb hbl).1
    rw [hstop] at hslash
    have hpair : s.document.PairAt '/' '/' (s.document.prev c.start) :=
      ⟨hslash, by rwa [after_prev hv h0]⟩
    obtain ⟨e, he, hel, hle, hlt⟩ := hm.line (h.line_stop hc hl).1 _ (valid_prev hv) hpair
    have hbp : b.start ≤ s.document.prev c.start :=
      le_prev (h.valid b hb).1 hv (hstop ▸ (h.valid b hb).2.2)
    have hpb : s.document.prev c.start < b.stop := by
      rw [hstop]
      exact prev_lt h0
    rw [h.eq_of_within hb he hbp hpb hle hlt] at hbl
    exact hbl hel

end RegionSearch
end AbbrevSite
