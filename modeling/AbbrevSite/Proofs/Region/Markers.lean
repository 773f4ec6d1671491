import AbbrevSite.Proofs.Region.Bounds
import AbbrevSite.Proofs.Sheet.BlankedParse
import AbbrevSite.Proofs.Text.Lines

/-! The markers of comments, and what the search makes of them going back. Where markers stand only at the
comments they belong to, the search leaves exactly the comments. -/
namespace AbbrevSite

open Sheet

section Pairs

variable {a b : Char} {cs : List Char} {row : Array Char} {k n bound : Nat}

lemma firstPair_eq_some (h : firstPair a b n cs = some k) :
    ∃ i, k = n + i ∧ (cs[i]? = some a ∧ cs[i + 1]? = some b) ∧
      ∀ j, cs[j]? = some a ∧ cs[j + 1]? = some b → i ≤ j := by
  fun_induction firstPair a b n cs with
  | case1 | case2 => cases h
  | case3 n c e rest hc =>
    cases h
    exact ⟨0, rfl, by simp [hc], fun j _ => Nat.zero_le j⟩
  | case4 n c e rest hc ih =>
    obtain ⟨i, rfl, hi, hfirst⟩ := ih h
    refine ⟨i + 1, by omega, hi, fun j hj => ?_⟩
    cases j with
    | zero => exact absurd (by simpa using hj) hc
    | succ j => exact Nat.succ_le_succ (hfirst j hj)

lemma not_pair_of_firstPair (h : firstPair a b n cs = none) (j : Nat) :
    ¬ (cs[j]? = some a ∧ cs[j + 1]? = some b) := by
  fun_induction firstPair a b n cs generalizing j with
  | case1 => simp
  | case2 => simp
  | case3 => cases h
  | case4 n c e rest hc ih =>
    cases j with
    | zero => simpa using hc
    | succ j => exact ih h j

lemma lastPair_eq_some (h : lastPair a b row bound = some k) :
    (row[k]? = some a ∧ row[k + 1]? = some b) ∧ k + 2 ≤ bound ∧
      ∀ j, row[j]? = some a ∧ row[j + 1]? = some b → j + 2 ≤ bound → j ≤ k := by
  fun_induction lastPair a b row bound with
  | case1 | case2 => cases h
  | case3 n hn =>
    cases h
    exact ⟨hn, le_refl _, fun j _ hj => by omega⟩
  | case4 n hn ih =>
    obtain ⟨hk, hle, hlast⟩ := ih h
    refine ⟨hk, by omega, fun j hj hjn => ?_⟩
    by_cases hjn' : j = n
    · rw [hjn'] at hj
      exact absurd hj hn
    · exact hlast j hj (by omega)

lemma not_pair_of_lastPair (h : lastPair a b row bound = none) {j : Nat} (hj : j + 2 ≤ bound) :
    ¬ (row[j]? = some a ∧ row[j + 1]? = some b) := by
  fun_induction lastPair a b row bound with
  | case1 | case2 => omega
  | case3 => cases h
  | case4 n hn ih =>
    by_cases hjn : j = n
    · rwa [hjn]
    · exact ih h (by omega)

end Pairs

namespace Document

variable {d : Document} {p q x : Position} {a b : Char} {k l : Nat}

/-- Whether two characters stand at a place and after it. -/
def PairAt (d : Document) (a b : Char) (p : Position) : Prop := d.readAt p = a ∧ d.readAt (d.after p) = b

instance (d : Document) (a b : Char) (p : Position) : Decidable (d.PairAt a b p) :=
  inferInstanceAs (Decidable (_ ∧ _))

lemma column_lt_of_readAt (h : d.readAt p ≠ '\n') : p.column < d.lineLength p.line :=
  lt_of_not_ge fun hle => h (readAt_of_lineLength_le hle)

lemma readAt_eq_iff (ha : a ≠ '\n') : d.readAt ⟨l, k⟩ = a ↔ (d.line l)[k]? = some a := by
  show ((d.line l)[k]?).getD '\n' = a ↔ _
  cases (d.line l)[k]? with
  | none => simp [ha.symm]
  | some c => simp

lemma pairAt_iff (ha : a ≠ '\n') (hb : b ≠ '\n') :
    d.PairAt a b ⟨l, k⟩ ↔ (d.line l)[k]? = some a ∧ (d.line l)[k + 1]? = some b := by
  unfold PairAt
  rw [← readAt_eq_iff ha, ← readAt_eq_iff hb]
  refine and_congr_right fun h => ?_
  rw [after_of_column_lt (column_lt_of_readAt (by rwa [h]))]

lemma PairAt.after_after (h : d.PairAt a b p) (ha : a ≠ '\n') (hb : b ≠ '\n') :
    d.after p = ⟨p.line, p.column + 1⟩ ∧ d.after (d.after p) = ⟨p.line, p.column + 2⟩ ∧
      p.column + 2 ≤ d.lineLength p.line := by
  have hp := after_of_column_lt (column_lt_of_readAt (by rwa [h.1]))
  have hlt := column_lt_of_readAt (p := d.after p) (by rwa [h.2])
  refine ⟨hp, ?_, ?_⟩
  · rw [after_of_column_lt hlt, hp]
  · rw [hp] at hlt
    exact hlt

lemma lineCommentColumn_eq_some (h : d.lineCommentColumn l = some k) :
    d.PairAt '/' '/' ⟨l, k⟩ ∧ ∀ j, d.PairAt '/' '/' ⟨l, j⟩ → k ≤ j := by
  obtain ⟨i, rfl, hi, hfirst⟩ := firstPair_eq_some h
  simp only [pairAt_iff (show '/' ≠ '\n' by decide) (show '/' ≠ '\n' by decide), Nat.zero_add]
  simp only [Array.getElem?_toList] at hi hfirst
  exact ⟨hi, hfirst⟩

lemma lineCommentColumn_eq_none (h : d.lineCommentColumn l = none) (j : Nat) :
    ¬ d.PairAt '/' '/' ⟨l, j⟩ := by
  have := not_pair_of_firstPair h j
  simp only [Array.getElem?_toList] at this
  rwa [pairAt_iff (by decide) (by decide)]

/-- Where a `/*` stands that is the last one before a place. -/
lemma openingBefore_eq {line column : Nat} (hx : d.PairAt '/' '*' x)
    (hbefore : x.line < line ∨ x.line = line ∧ x.column + 2 ≤ column)
    (hlast : ∀ y, d.PairAt '/' '*' y → y.line < line ∨ y.line = line ∧ y.column + 2 ≤ column → y ≤ x) :
    d.openingBefore line column = some x := by
  fun_induction openingBefore d line column with
  | case1 line column k hk =>
    obtain ⟨hpair, hle, hmax⟩ := lastPair_eq_some hk
    have hy := hlast ⟨line, k⟩ ((pairAt_iff (by decide) (by decide)).2 hpair) (.inr ⟨rfl, hle⟩)
    rcases hbefore with hlt | ⟨hline, hcol⟩
    · simp only [Position.le_def] at hy
      omega
    · obtain ⟨xl, xc⟩ := x
      subst hline
      have hxk := hmax xc ((pairAt_iff (by decide) (by decide)).1 hx) hcol
      simp only [Position.le_def] at hy
      rw [Option.some_inj]
      exact Position.eq_of rfl (by simp only at *; omega)
  | case2 column hnone =>
    rcases hbefore with hlt | ⟨hline, hcol⟩
    · omega
    · obtain ⟨xl, xc⟩ := x
      subst hline
      exact absurd ((pairAt_iff (by decide) (by decide)).1 hx) (not_pair_of_lastPair hnone hcol)
  | case3 column line hnone ih =>
    have hline : x.line ≠ line + 1 := by
      intro hline
      have hcol := (hbefore.resolve_left (by omega)).2
      obtain ⟨xl, xc⟩ := x
      subst hline
      exact not_pair_of_lastPair hnone hcol ((pairAt_iff (by decide) (by decide)).1 hx)
    refine ih ?_ fun y hy hyb => hlast y hy (.inl ?_)
    · by_cases hlt : x.line < line
      · exact .inl hlt
      · refine .inr ⟨by omega, ?_⟩
        obtain ⟨xl, xc⟩ := x
        have hxl : xl = line := by simp only at *; omega
        subst hxl
        have hsome := ((pairAt_iff (by decide) (by decide)).1 hx).2
        have := (Array.getElem?_eq_some_iff.1 hsome).1
        exact this
    · omega

/-- A comment of a text: from `/*` up to a `*/` after it, or from `//` to the end of the line. -/
inductive CommentAt (d : Document) (lineComments : Bool) (c : Span) : Prop
  | block {e : Position} (opening : d.PairAt '/' '*' c.start) (valid : d.Valid e)
      (behind : d.after (d.after c.start) ≤ e) (closing : d.PairAt '*' '/' e)
      (stop : c.stop = d.after (d.after e))
      (closed : closeComment (d.glyphs (d.after (d.after c.start)) d.stop) = some (c.stop, d.glyphs c.stop d.stop))
  | line (allowed : lineComments = true) (opening : d.PairAt '/' '/' c.start)
      (stop : c.stop = ⟨c.start.line, d.lineLength c.start.line⟩)
      (body : d.Throughout (· ≠ '\n') (d.after (d.after c.start)) c.stop)

/-- What is known of the comments of a text. -/
structure Commented (d : Document) (lineComments : Bool) (spans : List Span) : Prop where
  valid : ∀ c ∈ spans, d.Valid c.start ∧ d.Valid c.stop ∧ c.start < c.stop
  comment : ∀ c ∈ spans, d.CommentAt lineComments c
  apart : ∀ c ∈ spans, ∀ c' ∈ spans, c = c' ∨ c.stop ≤ c'.start ∨ c'.stop ≤ c.start

lemma lineComment_stop {e : Position} (hline : ∀ n, '\n' ∉ (d.line n).toList) (hx : d.Valid x)
    (hslash : d.PairAt '/' '/' x)
    (he : (closeLineComment (d.after (d.after x)) (d.glyphs (d.after (d.after x)) d.stop)).1 = e) :
    e = ⟨x.line, d.lineLength x.line⟩ ∧ d.Throughout (· ≠ '\n') (d.after (d.after x)) e := by
  obtain ⟨-, hz, hcol⟩ := hslash.after_after (by decide) (by decide)
  have hv : d.Valid (d.after (d.after x)) := by
    rw [hz]
    exact ⟨hx.1, hcol⟩
  obtain ⟨e', hev, hze, -, he', hno, hend⟩ := closeLineComment_glyphs hv d.valid_stop (le_stop hv)
  rw [he] at he'
  subst he'
  refine ⟨?_, hno⟩
  have hlast : d.Valid ⟨x.line, d.lineLength x.line⟩ := ⟨hx.1, le_refl _⟩
  have hxlast : d.after x < (⟨x.line, d.lineLength x.line⟩ : Position) := by
    refine lt_of_lt_of_le (lt_after d _) ?_
    rw [hz]
    exact .inr ⟨rfl, hcol⟩
  have hzlast := after_le hlast hxlast
  rcases lt_trichotomy e ⟨x.line, d.lineLength x.line⟩ with hlt | heq | hlt
  · have hcol' := column_of_newline hline (hend (hlt.trans_le (le_stop hlast)))
    rw [hz] at hze
    simp only [Position.lt_def, Position.le_def] at hlt hze
    have heq : e.line = x.line := by omega
    rw [heq] at hcol'
    omega
  · exact heq
  · exact absurd (readAt_of_lineLength_le (le_refl _)) (hno _ hlast hzlast hlt)

theorem commented_of_parse {dialect : Dialect} {t : Tree} (hline : ∀ n, '\n' ∉ (d.line n).toList)
    (h : Sheet.parse (Cursor.whole d .origin) dialect = .ok t) :
    d.Commented dialect.hasLineComments t.comments := by
  obtain ⟨ls, hls, htiles, hcomments⟩ := exists_lexemes_whole h
  have hlexeme : ∀ c ∈ t.comments, ∃ m ∈ ls, m.shape = .comment ∧ c.start = m.start ∧ c.stop = m.stop := by
    intro c hc
    rw [hcomments] at hc
    exact htiles.mem_comments hc
  refine ⟨fun c hc => ?_, fun c hc => ?_, fun c hc c' hc' => ?_⟩
  · obtain ⟨m, hm, -, hstart, hstop⟩ := hlexeme c hc
    rw [hstart, hstop]
    exact ⟨htiles.start_valid hm, htiles.stop_valid hm, (htiles.bounds_of_mem hm).2.1⟩
  · obtain ⟨m, hm, hs, hstart, hstop⟩ := hlexeme c hc
    have hmem : m ∈ (lexemes dialect.hasLineComments (d.glyphs .origin d.stop)).1 := by rwa [hls]
    obtain ⟨_, rest, hv, -, hlt, -, -, hlex, -⟩ :=
      exists_reads_of_mem hmem d.valid_origin d.valid_stop (Position.origin_le _)
    obtain ⟨hafter, hslash, hc | hc⟩ := comment_cases hlex hs d.valid_stop
    · have hv' := valid_after (valid_after hv hlt) hafter
      obtain ⟨-, -, -, -, hrest', -⟩ := lexeme_place hlex hv d.valid_stop hlt
      obtain ⟨body, g, y, hgs, hg, hy, hend, -⟩ := exists_of_closeComment hc.2
      obtain ⟨e, he, hbehind, hes, -, hrest⟩ := exists_glyphs_split hv' d.valid_stop (le_stop hv') hgs
      obtain ⟨-, hge, hys⟩ := of_glyphs_eq_cons d.valid_stop hrest
      obtain ⟨-, hye, -⟩ := of_glyphs_eq_cons d.valid_stop hys.symm
      subst hge hye
      rw [hrest', ← hstop] at hc
      rw [← hstart] at hslash hc hbehind
      refine .block ⟨hslash, hc.1⟩ he hbehind ⟨hg, hy⟩ ?_ hc.2
      rw [hstop, ← hend, glyphAt_stop]
    · have hpair : d.PairAt '/' '/' c.start := by
        rw [hstart]
        exact ⟨hslash, hc.1⟩
      obtain ⟨hend, hbody⟩ := lineComment_stop hline hv ⟨hslash, hc.1⟩ hc.2.2.symm
      refine .line hc.2.1 hpair ?_ ?_
      · rw [hstop, hstart, hend]
      · rwa [hstop, hstart]
  · obtain ⟨m, hm, -, hstart, hstop⟩ := hlexeme c hc
    obtain ⟨m', hm', -, hstart', hstop'⟩ := hlexeme c' hc'
    rw [hstart, hstop, hstart', hstop']
    refine (htiles.apart hm hm').imp_left fun he => ?_
    subst he
    exact Span.eq_of (hstart.trans hstart'.symm) (hstop.trans hstop'.symm)

end Document
end AbbrevSite
