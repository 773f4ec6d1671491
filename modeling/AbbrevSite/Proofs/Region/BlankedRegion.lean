import AbbrevSite.Proofs.Region.Neutral

/-! The region in a text whose comments are blanked. It ends where that of the text does, and it starts there or
earlier in the same selector: going back from a character of a selector ends at a comment, but not at blanks. -/
namespace AbbrevSite

open Sheet Document

namespace Document

/-- Two places in one selector, with a comment before the second and nothing but blanks between the two. -/
structure LaterStart (d : Document) (spans : List Span) (a x : Position) : Prop where
  first : d.SignificantAt spans a
  second : d.SignificantAt spans x
  noBrace : ¬ IsBrace (d.readAt x)
  comment : ∃ c ∈ spans, a < c.start ∧ c.stop ≤ x ∧ d.Throughout (CharClass.isBlank · = true) c.stop x
  noDelimiter : ∀ z, d.Valid z → a ≤ z → z < x → ¬ InSome spans z → ¬ IsDelimiter (d.readAt z)

/-- Whether a comment ends at a place, or with the line before it. -/
def EndsAt (d : Document) (c : Span) (p : Position) : Prop :=
  c.stop = p ∨ d.readAt c.stop = '\n' ∧ d.after c.stop = p

variable {d : Document} {spans : List Span} {a e p q x : Position} {c : Span}

lemma LaterStart.lt (h : d.LaterStart spans a x) : a < x := by
  obtain ⟨c, -, hac, hcx, -⟩ := h.comment
  exact hac.trans_le (c.ordered.trans hcx)

lemma isBlank_blanked (h : InSome spans p) :
    CharClass.isBlank ((d.blanked spans).readAt p) = true := by
  rcases readAt_blanked_of_inSome (d := d) h with hb | hb <;> rw [hb] <;> decide

lemma not_isDelimiter_of_isBlank {c : Char} (h : CharClass.isBlank c = true) : ¬ IsDelimiter c := by
  rintro (rfl | rfl | rfl) <;> exact absurd h (by decide)

lemma significantAt_iff : d.SignificantAt spans p ↔
    d.Valid p ∧ CharClass.isBlank ((d.blanked spans).readAt p) = false := by
  constructor
  · rintro ⟨hv, hout, hsig⟩
    rw [readAt_blanked_of_not_inSome hout]
    exact ⟨hv, hsig⟩
  · rintro ⟨hv, hsig⟩
    have hout : ¬ InSome spans p := fun hin => by
      rw [isBlank_blanked hin] at hsig
      cases hsig
    rw [readAt_blanked_of_not_inSome hout] at hsig
    exact ⟨hv, hout, hsig⟩

lemma Commented.stop_ne {lineComments : Bool} (h : d.Commented lineComments spans) (hx : d.SignificantAt spans x)
    (hc : c ∈ spans) (hl : d.PairAt '/' '/' c.start) : c.stop ≠ x := by
  rintro rfl
  have hsig := hx.significant
  rw [(h.line_stop hc hl).2.2] at hsig
  exact absurd hsig (by decide)

lemma Commented.clear_after {lineComments : Bool} (h : d.Commented lineComments spans) (hp : ¬ InSome spans p) :
    Clear spans (d.after p) := by
  intro c hc
  rcases lt_or_ge p c.start with hlt | hle
  · exact .inl (after_le (h.valid c hc).1 hlt)
  · exact .inr ((not_lt.1 fun hpc => hp ⟨c, hc, hle, hpc⟩).trans (le_of_lt (lt_after d p)))

lemma Commented.inSome_of_opening {lineComments : Bool} (h : d.Commented lineComments spans)
    (hm : d.Marked lineComments spans) (hp : d.Valid p) (hpair : d.PairAt '/' '*' p) : InSome spans p := by
  rcases hm.opening p hp hpair with ⟨c, hc, rfl | hstop⟩ | ⟨c, hc, -, hcp, hpc⟩
  · exact ⟨c, hc, le_refl _, (h.valid c hc).2.2⟩
  · obtain ⟨hv, -, hlt⟩ := h.valid c hc
    rw [← hstop] at hlt
    exact ⟨c, hc, not_lt.1 fun hpc => absurd (after_le hv hpc) (not_le.2 hlt), hstop ▸ lt_after d p⟩
  · exact ⟨c, hc, hcp, hpc⟩

lemma EndsAt.stop_le (h : d.EndsAt c p) :
    c.stop ≤ p ∧ d.Throughout (CharClass.isBlank · = true) c.stop p := by
  rcases h with rfl | ⟨hc, rfl⟩
  · exact ⟨le_refl _, throughout_self⟩
  · refine ⟨le_of_lt (lt_after d _), throughout_self.cons ?_⟩
    rw [hc]
    decide

lemma EndsAt.laterStart (h : d.EndsAt c e) (hc : c ∈ spans) (ha : d.SignificantAt spans a)
    (hx : d.SignificantAt spans x) (hb : ¬ IsBrace (d.readAt x)) (hax : a < x) (hex : e ≤ x)
    (hblank : d.Throughout (CharClass.isBlank · = true) e x)
    (hno : ∀ z, d.Valid z → a ≤ z → z < e → ¬ InSome spans z → ¬ IsDelimiter (d.readAt z)) :
    d.LaterStart spans a x := by
  have hblank' := h.stop_le.2.append hblank
  have hac : a < c.stop := by
    refine not_le.1 fun hle => ?_
    have hb : CharClass.isBlank (d.readAt a) = true := hblank' a ha.valid hle hax
    rw [ha.significant] at hb
    cases hb
  refine ⟨ha, hx, hb, ⟨c, hc, not_le.1 fun hle => ha.out ⟨c, hc, hle, hac⟩, h.stop_le.1.trans hex, hblank'⟩, ?_⟩
  intro z hz haz hzx hout
  rcases lt_or_ge z e with hze | hez
  · exact hno z hz haz hze hout
  · exact not_isDelimiter_of_isBlank (hblank z hz hez hzx)

end Document

namespace RegionSearch

variable {s : RegionSearch} {spans : List Span} {p q x : Position} {line depth : Nat}

section Step

variable (h0 : p ≠ .origin) (hf : ¬ p ≤ s.farthest) (hq : s.document.prev p = q)
include h0 hf hq

lemma selectorStart_of_line (hl : s.lineComments = true) (hne : q.line ≠ p.line)
    (hcol : (s.document.lineCommentColumn q.line).isSome = true) : s.selectorStart p = s.skipBlanks p := by
  rw [selectorStart, dif_neg h0, if_neg hf]
  simp [hq, hl, hne, hcol]

lemma selectorStart_of_end (hc : IsDelimiter (s.document.readAt q) ∨
    s.document.readAt q = '/' ∧ s.endsComment q = true) : s.selectorStart p = s.skipBlanks p := by
  rw [selectorStart, dif_neg h0, if_neg hf, hq]
  rcases hc with (hc | hc | hc) | ⟨hc, he⟩
  · simp [hc]
  · simp [hc]
  · simp [hc]
  · simp [hc, he]

lemma selectorStart_of_other
    (hcol : s.lineComments = true → q.line ≠ p.line → s.document.lineCommentColumn q.line = none)
    (hc : ¬ IsDelimiter (s.document.readAt q)) (hs : s.document.readAt q = '/' → s.endsComment q = false) :
    s.selectorStart p = s.selectorStart q := by
  simp only [IsDelimiter, not_or] at hc
  rw [selectorStart, dif_neg h0, if_neg hf, hq]
  have hline : (s.lineComments && q.line != p.line && (s.document.lineCommentColumn q.line).isSome) = false := by
    by_cases hl : s.lineComments = true ∧ q.line ≠ p.line
    · simp [hcol hl.1 hl.2]
    · rw [not_and_or, not_not, Bool.not_eq_true] at hl
      rcases hl with hl | hl <;> simp [hl]
  simp only [hline, Bool.false_eq_true, if_false, hc, false_or]
  rw [if_neg]
  rintro ⟨hslash, hends⟩
  rw [hs hslash] at hends
  cases hends

end Step

/-- Both searches go back from a place of a selector to the same one, up to a comment after which the search in
the blanked text goes on. -/
structure Together (s : RegionSearch) (spans : List Span) (p e : Position) : Prop where
  valid : s.document.Valid e
  le : e ≤ p
  start : s.selectorStart p = s.skipBlanks e
  out : ∀ z, s.document.Valid z → e ≤ z → z ≤ p → ¬ InSome spans z
  blanked : (s.blanked spans).selectorStart p = (s.blanked spans).skipBlanks e ∨
    (∃ c ∈ spans, s.document.EndsAt c e) ∧
      (s.blanked spans).selectorStart p = (s.blanked spans).selectorStart e

lemma Together.here (hp : s.document.Valid p) (hout : ¬ InSome spans p) (hs : s.selectorStart p = s.skipBlanks p)
    (hb : (s.blanked spans).selectorStart p = (s.blanked spans).skipBlanks p ∨
      (∃ c ∈ spans, s.document.EndsAt c p) ∧
        (s.blanked spans).selectorStart p = (s.blanked spans).selectorStart p) : s.Together spans p p :=
  ⟨hp, le_refl p, hs, fun _ _ hz hz' => le_antisymm hz hz' ▸ hout, hb⟩

section Both

variable (h : s.document.Commented s.lineComments spans) (hm : s.document.Marked s.lineComments spans)

include h hm in
/-- A line comment on the line above ends with that line. -/
lemma exists_stop_of_lineCommentColumn (hp : s.document.Valid p) (h0 : p ≠ .origin) (hl : s.lineComments = true)
    (hne : (s.document.prev p).line ≠ p.line)
    (hcol : (s.document.lineCommentColumn (s.document.prev p).line).isSome = true) :
    ∃ c ∈ spans, s.document.EndsAt c p := by
  have hv := valid_prev hp
  have hafter := after_prev hp h0
  generalize s.document.prev p = q at hv hafter hne hcol
  obtain ⟨l, m⟩ := q
  have hlast : s.document.lineLength l ≤ m := by
    refine not_lt.1 fun hlt => hne ?_
    rw [← hafter, after_of_column_lt hlt]
  obtain ⟨k, hk⟩ := Option.isSome_iff_exists.1 hcol
  obtain ⟨hpair, -⟩ := lineCommentColumn_eq_some hk
  have hkl := (hpair.after_after (by decide) (by decide)).2.2
  obtain ⟨c, hc, hcpair, hck, hkc⟩ := hm.line hl ⟨l, k⟩ ⟨hv.1, Nat.le_trans (Nat.le_add_right k 2) hkl⟩ hpair
  obtain ⟨-, hstop, hnewline⟩ := h.line_stop hc hcpair
  have hline : c.start.line = l := by
    rw [hstop] at hkc
    simp only [Position.le_def, Position.lt_def] at hck hkc
    omega
  have heq : c.stop = ⟨l, m⟩ := by
    rw [hstop, hline]
    exact Position.eq_of rfl (le_antisymm hlast hv.2)
  exact ⟨c, hc, .inr ⟨hnewline, by rw [heq, hafter]⟩⟩

include h hm in
lemma exists_together (hp : s.document.Valid p) (hout : ¬ InSome spans p)
    (hfresh : ∀ c ∈ spans, s.document.PairAt '/' '/' c.start → c.stop ≠ p) : ∃ e, s.Together spans p e := by
  induction p, hp using backward_induction with
  | base =>
    refine ⟨.origin, .here (valid_origin _) hout ?_ (.inl ?_)⟩ <;> rw [selectorStart, dif_pos rfl]
  | step p hp h0 ih =>
    have hv := valid_prev hp
    have hprev : (s.blanked spans).document.prev p = s.document.prev p := prev_blanked p
    by_cases hf : p ≤ s.farthest
    · refine ⟨p, .here hp hout ?_ (.inl ?_)⟩
      · rw [selectorStart, dif_neg h0, if_pos hf]
      · rw [selectorStart, dif_neg h0, if_pos (show p ≤ (s.blanked spans).farthest from hf)]
    have hf' : ¬ p ≤ (s.blanked spans).farthest := hf
    by_cases hline : s.lineComments = true ∧ (s.document.prev p).line ≠ p.line ∧
        (s.document.lineCommentColumn (s.document.prev p).line).isSome = true
    · obtain ⟨hl, hne, hcol⟩ := hline
      exact ⟨p, .here hp hout (selectorStart_of_line h0 hf rfl hl hne hcol)
        (.inr ⟨exists_stop_of_lineCommentColumn h hm hp h0 hl hne hcol, rfl⟩)⟩
    have hline : s.lineComments = true → (s.document.prev p).line ≠ p.line →
        s.document.lineCommentColumn (s.document.prev p).line = none := by
      intro hl hne
      simpa using fun hcol => hline ⟨hl, hne, hcol⟩
    by_cases hin : InSome spans (s.document.prev p)
    · obtain ⟨c, hc, rfl⟩ := exists_stop_of_inSome_prev hp h0 (clear_of_not_inSome hout)
        (fun c hc => (h.valid c hc).2.1) hin
      have hends := endsComment_prev_stop h hc fun hl => hfresh c hc hl rfl
      exact ⟨c.stop, .here hp hout (selectorStart_of_end h0 hf rfl (.inr hends))
        (.inr ⟨⟨c, hc, .inl rfl⟩, rfl⟩)⟩
    have hread : (s.blanked spans).document.readAt (s.document.prev p) = s.document.readAt (s.document.prev p) :=
      readAt_blanked_of_not_inSome hin
    by_cases hd : IsDelimiter (s.document.readAt (s.document.prev p))
    · exact ⟨p, .here hp hout (selectorStart_of_end h0 hf rfl (.inl hd))
        (.inl (selectorStart_of_end h0 hf' hprev (.inl (by rwa [hread]))))⟩
    have hstep := selectorStart_of_other h0 hf rfl hline hd fun hslash => endsComment_of_not_inSome h hm hv hslash hin
    have hstep' : (s.blanked spans).selectorStart p = (s.blanked spans).selectorStart (s.document.prev p) :=
      selectorStart_of_other h0 hf' hprev (fun hl _ => blanked_lineCommentColumn hm hv.1 hl) (by rwa [hread])
        fun hslash => blanked_endsComment hm hv hslash
    obtain ⟨e, he⟩ := ih hin fun c hc hl hstop => by
      obtain ⟨hallowed, hlast, hnewline⟩ := h.line_stop hc hl
      rw [hstop] at hlast
      have hnext := after_prev hp h0
      rw [hlast, after_of_lineLength_le (le_refl _)] at hnext
      refine lineCommentColumn_eq_none (hline hallowed ?_) c.start.column ?_
      · rw [hlast, ← hnext]
        simp
      · rwa [hlast]
    refine ⟨e, he.valid, he.le.trans (prev_le _ p), hstep.trans he.start, fun z hz hez hzp => ?_,
      he.blanked.imp hstep'.trans (And.imp_right hstep'.trans)⟩
    rcases lt_or_eq_of_le hzp with hlt | rfl
    · exact he.out z hz hez (le_prev hz hp hlt)
    · exact hout

lemma skipBlanks_blanked {e : Position} (he : s.document.Valid e) (hq : s.document.SignificantAt spans q) (heq : e ≤ q)
    (hout : ∀ z, s.document.Valid z → e ≤ z → z ≤ q → ¬ InSome spans z) :
    (s.blanked spans).skipBlanks e = s.skipBlanks e := by
  obtain ⟨hv, hle, hblank, -⟩ := skipBlanks_spec he
  obtain ⟨hxq, hsig⟩ := skipBlanks_of_significant he hq.valid heq hq.significant
  have hx := significantAt_iff.1 ⟨hv, hout _ hv hle hxq, hsig⟩
  obtain ⟨hv', hle', -, -⟩ := skipBlanks_spec (s := s.blanked spans) (valid_blanked.2 he)
  obtain ⟨hyx, hsig'⟩ := skipBlanks_of_significant (s := s.blanked spans) (valid_blanked.2 he)
    (valid_blanked.2 hv) hle hx.2
  have hy := significantAt_iff.2 ⟨valid_blanked.1 hv', hsig'⟩
  refine le_antisymm hyx (not_lt.1 fun hlt => ?_)
  have hb : CharClass.isBlank (s.document.readAt _) = true := hblank _ hy.valid hle' hlt
  rw [hy.significant] at hb
  cases hb

include h hm in
/-- In the blanked text a selector starts where it does in the text, or earlier. -/
theorem selectorStart_blanked (hq : s.document.SignificantAt spans q) (hb : ¬ IsBrace (s.document.readAt q)) :
    (s.blanked spans).selectorStart q = s.selectorStart q ∨
      s.document.LaterStart spans ((s.blanked spans).selectorStart q) (s.selectorStart q) := by
  obtain ⟨e, he⟩ := exists_together h hm hq.valid hq.out fun _ => h.stop_ne hq
  rcases he.blanked with heq | ⟨⟨c, hc, hends⟩, heq⟩
  · exact .inl (by rw [heq, he.start, skipBlanks_blanked he.valid hq he.le he.out])
  obtain ⟨hv, hex, hblank, -⟩ := skipBlanks_spec he.valid
  obtain ⟨hxq, hsig⟩ := skipBlanks_of_significant he.valid hq.valid he.le hq.significant
  have hx : s.document.SignificantAt spans (s.skipBlanks e) := ⟨hv, he.out _ hv hex hxq, hsig⟩
  have hxb : ¬ IsBrace (s.document.readAt (s.skipBlanks e)) := by
    rcases lt_or_eq_of_le hxq with hlt | heq
    · rw [← he.start] at hlt hv ⊢
      exact fun hbrace => (selectorStart_le hq.valid hq.significant).2.2 _ hv (le_refl _) hlt
        (isDelimiter_of_isBrace hbrace)
    · rwa [heq]
  obtain ⟨b, hbv, hbe, hbs, hno⟩ := exists_selectorStart_eq (s := s.blanked spans) (valid_blanked.2 he.valid)
  obtain ⟨hav, hba, -, -⟩ := skipBlanks_spec hbv
  obtain ⟨hax, hasig⟩ := skipBlanks_of_significant hbv (valid_blanked.2 hv) (hbe.trans hex) (significantAt_iff.1 hx).2
  rw [heq, hbs, he.start]
  rcases lt_or_eq_of_le hax with hlt | heq
  · refine .inr (hends.laterStart hc (significantAt_iff.2 ⟨valid_blanked.1 hav, hasig⟩) hx hxb hlt hex hblank ?_)
    intro z hz haz hze hout
    rw [← readAt_blanked_of_not_inSome hout]
    exact hno z (valid_blanked.2 hz) (hba.trans haz) hze
  · exact .inl heq

end Both

lemma readAt_of_findBrace (hf : s.findBrace line depth p = .brace q) : s.document.readAt q = '{' := by
  fun_induction findBrace s line depth p with
  | case1 | case3 | case5 | case7 | case8 | case10 => cases hf
  | case2 line p h0 y hc =>
    rw [← Front.brace.inj hf]
    exact hc
  | case4 line p h0 y _ _ _ ih | case6 line _ p h0 y _ _ _ ih | case9 line _ p h0 y back _ _ ih
  | case11 line _ p h0 y _ _ _ _ ih => exact ih hf

section Region

variable (h : s.document.Commented s.lineComments spans) (hm : s.document.Marked s.lineComments spans)
include h hm

/-- In the blanked text the region starts where it does in the text, or earlier in the same selector. -/
theorem start_blanked (hfar : ¬ s.document.InLineComment spans s.farthest)
    (hp : s.Poised spans s.position.line s.position) :
    (s.blanked spans).start = s.start ∨ s.document.LaterStart spans (s.blanked spans).start s.start := by
  have hfind := findBrace_blanked h hm hfar hp s.position.line 0
  have hv := findBrace_valid s.position.line 0 hp.valid
  cases hf : s.findBrace s.position.line 0 s.position with
  | edge x =>
    rw [hf] at hfind
    exact .inl ((start_of_edge (s := s.blanked spans) hfind).trans (start_of_edge hf).symm)
  | brace x =>
    rw [hf] at hfind hv
    have hbrace : (s.document.blanked spans).readAt x = '{' := readAt_of_findBrace (s := s.blanked spans) hfind
    have hx : s.document.SignificantAt spans x := significantAt_iff.2 ⟨hv, by
      rw [hbrace]
      decide⟩
    have hpx : s.Poised spans x.line x :=
      ⟨hx.valid, clear_of_not_inSome hx.out, fun _ _ => h.stop_ne hx, fun hne => absurd rfl hne⟩
    rw [start_of_brace hf, start_of_brace (s := s.blanked spans) hfind]
    have hends := beforeBrace_blanked h hm hfar hpx x x.line 0
    generalize s.beforeBrace x x.line 0 x = a at hends ⊢
    generalize (s.blanked spans).beforeBrace x x.line 0 x = b at hends ⊢
    cases hends with
    | none => exact .inl rfl
    | found last noBrace => exact selectorStart_blanked h hm last noBrace

end Region

section Stop

variable {d : Document} {lineComments : Bool} {last : Position} {c : Span}

lemma stopAfter_of_star {g y : Glyph} {gs rest : List Glyph} {e : Position} (hg : g.char = '/') (hy : y.char = '*')
    (hc : closeComment gs = some (e, rest)) :
    stopAfter lineComments last (g :: y :: gs) = stopAfter lineComments last rest := by
  rw [stopAfter.eq_def]
  simp only [hg, hy]
  simp only [(by decide : ('/' : Char) ≠ '}'), (by decide : ('*' : Char) ≠ '/'), and_false, if_false, if_true]
  split
  · simp_all
  · rename_i hclose
    rw [hc] at hclose
    cases hclose
    rfl

lemma stopAfter_of_slashes {g y : Glyph} {gs : List Glyph} (hl : lineComments = true) (hg : g.char = '/')
    (hy : y.char = '/') : stopAfter lineComments last (g :: y :: gs) =
      stopAfter lineComments last (gs.dropWhile fun g => g.char != '\n') := by
  rw [stopAfter.eq_def]
  simp [hg, hy, hl]

lemma stopAfter_of_slash {g : Glyph} {gs : List Glyph} (hg : g.char = '/')
    (hs : ∀ y ys, gs = y :: ys → y.char ≠ '*' ∧ ¬ (lineComments = true ∧ y.char = '/')) :
    stopAfter lineComments last (g :: gs) = stopAfter lineComments last gs := by
  rw [stopAfter.eq_def]
  cases gs with
  | nil => simp [hg, stopAfter]
  | cons y ys =>
    obtain ⟨hstar, hslash⟩ := hs y ys rfl
    simp [hg, hstar, hslash]

lemma dropWhile_glyphs {e : Position} (hp : d.Valid p) (he : d.Valid e) (hpe : p ≤ e)
    (hno : d.Throughout (· ≠ '\n') p e) (hend : d.readAt e = '\n') :
    ((d.glyphs p d.stop).dropWhile fun g => g.char != '\n') = d.glyphs e d.stop := by
  induction p, hp, hpe using forward_induction he with
  | base =>
    rcases lt_or_eq_of_le (Document.le_stop he) with hlt | heq
    · rw [glyphs_cons (valid_stop d) hlt, List.dropWhile_cons_of_neg (by simp [hend])]
    · rw [heq, glyphs_self, List.dropWhile_nil]
  | step p hp hlt _ _ ih =>
    rw [glyphs_cons (valid_stop d) (hlt.trans_le (Document.le_stop he)),
      List.dropWhile_cons_of_pos (by simpa using hno p hp (le_refl p) hlt),
      ih (hno.sub (le_of_lt (lt_after d p)) (le_refl e))]

/-- Going on from the start of a comment leads over the comment. -/
lemma stopAfter_comment (h : d.Commented lineComments spans) (hc : c ∈ spans) :
    stopAfter lineComments last (d.glyphs c.start d.stop) = stopAfter lineComments last (d.glyphs c.stop d.stop) := by
  have hopens {b : Char} (hpair : d.PairAt '/' b c.start) (hb : b ≠ '\n') :
      d.glyphs c.start d.stop = d.glyphAt c.start :: d.glyphAt (d.after c.start) ::
        d.glyphs (d.after (d.after c.start)) d.stop := by
    obtain ⟨ha, haa, hcol⟩ := hpair.after_after (by decide) hb
    have hv := (h.valid c hc).1
    have hlt : d.after c.start < d.stop := (lt_after d _).trans_le (Document.le_stop (by rw [haa]; exact ⟨hv.1, hcol⟩))
    rw [glyphs_cons (valid_stop d) ((lt_after d _).trans hlt), glyphs_cons (valid_stop d) hlt]
  cases h.comment c hc with
  | block opening _ _ _ _ closed =>
    rw [hopens opening (by decide), stopAfter_of_star opening.1 opening.2 closed]
  | line allowed opening stop body =>
    have hcol := opening.after_after (by decide) (by decide)
    have hv := h.valid c hc
    have hread : d.readAt c.stop = '\n' := by
      rw [stop]
      exact readAt_of_lineLength_le (le_refl _)
    have hzv : d.Valid (d.after (d.after c.start)) := by
      rw [hcol.2.1]
      exact ⟨hv.1.1, hcol.2.2⟩
    have hzc : d.after (d.after c.start) ≤ c.stop := by
      rw [hcol.2.1, stop]
      exact .inr ⟨rfl, hcol.2.2⟩
    rw [hopens opening (by decide), stopAfter_of_slashes allowed opening.1 opening.2,
      dropWhile_glyphs hzv hv.2.1 hzc body hread]

lemma stopAfter_blanks (hx : d.Valid x) (hp : d.Valid p) (hpx : p ≤ x)
    (hin : ∀ z, p ≤ z → z < x → InSome spans z) :
    stopAfter lineComments last ((d.blanked spans).glyphs p d.stop) =
      stopAfter lineComments last ((d.blanked spans).glyphs x d.stop) := by
  induction p, hp, hpx using forward_induction hx with
  | base => rfl
  | step p hp hlt _ _ ih =>
    have hblank := readAt_blanked_of_inSome (d := d) (hin p (le_refl p) hlt)
    rw [glyphs_cons (valid_blanked.2 (valid_stop d)) (hlt.trans_le (Document.le_stop hx)), stopAfter_cons, if_neg,
      after_blanked, ih fun z hz => hin z ((le_of_lt (lt_after d p)).trans hz)]
    · rcases hblank with hb | hb <;> simp [hb]
    · rcases hblank with hb | hb <;> simp [hb]

variable (h : d.Commented lineComments spans) (hm : d.Marked lineComments spans)
include h hm

theorem stopAfter_blanked {p : Position} (hp : d.Valid p) (hclear : Sheet.Clear spans p) :
    stopAfter lineComments d.stop ((d.blanked spans).glyphs p d.stop) =
        stopAfter lineComments d.stop (d.glyphs p d.stop) ∧
      Sheet.Clear spans (stopAfter lineComments d.stop (d.glyphs p d.stop)) := by
  rcases lt_or_eq_of_le (Document.le_stop hp) with hlt | rfl
  swap
  · rw [glyphs_self, glyphs_self, stopAfter]
    exact ⟨rfl, hclear⟩
  by_cases hin : InSome spans p
  · obtain ⟨c, hc, hcp, hpc⟩ := hin
    have hstart := le_antisymm ((hclear c hc).resolve_right (not_le.2 hpc)) hcp
    obtain ⟨-, hv, -⟩ := h.valid c hc
    rw [stopAfter_blanks hv hp (le_of_lt hpc) fun z hz hzc => ⟨c, hc, hstart ▸ hz, hzc⟩, hstart, stopAfter_comment h hc]
    exact stopAfter_blanked hv (h.clear_stop hc)
  have hnext := stopAfter_blanked (valid_after hp hlt) (h.clear_after hin)
  have hlt' := lt_after d p
  have hcons : (d.blanked spans).glyphs p d.stop =
      d.glyphAt p :: (d.blanked spans).glyphs (d.after p) d.stop := by
    rw [glyphs_cons (valid_blanked.2 (valid_stop d)) hlt, glyphAt_blanked hin, after_blanked]
  rw [hcons, glyphs_cons (valid_stop d) hlt]
  by_cases hs : d.readAt p = '/'
  · have hstar : ¬ d.PairAt '/' '*' p := fun hpair => hin (h.inSome_of_opening hm hp hpair)
    have hslash : ¬ (lineComments = true ∧ d.PairAt '/' '/' p) := by
      rintro ⟨hl, hpair⟩
      obtain ⟨c, hc, -, hcp, hpc⟩ := hm.line hl p hp hpair
      exact hin ⟨c, hc, hcp, hpc⟩
    have hno : d.readAt (d.after p) ≠ '*' ∧ ¬ (lineComments = true ∧ d.readAt (d.after p) = '/') :=
      ⟨fun hc => hstar ⟨hs, hc⟩, fun hc => hslash ⟨hc.1, hs, hc.2⟩⟩
    have hno' : (d.blanked spans).readAt (d.after p) ≠ '*' ∧
        ¬ (lineComments = true ∧ (d.blanked spans).readAt (d.after p) = '/') := by
      by_cases ha : InSome spans (d.after p)
      · rcases readAt_blanked_of_inSome (d := d) ha with hb | hb <;> simp [hb]
      · rwa [readAt_blanked_of_not_inSome ha]
    rw [stopAfter_of_slash hs, stopAfter_of_slash hs]
    · exact hnext
    · intro y ys hy
      obtain ⟨-, rfl, -⟩ := of_glyphs_eq_cons (valid_stop d) hy
      exact hno
    · intro y ys hy
      obtain ⟨-, rfl, -⟩ := of_glyphs_eq_cons (valid_blanked.2 (valid_stop d)) hy
      exact hno'
  · rw [stopAfter_cons _ hs, stopAfter_cons _ hs]
    split_ifs with hc
    · exact ⟨rfl, h.clear_after hin⟩
    · exact hnext
termination_by d.length - d.offsetAt p
decreasing_by
  · have := offsetAt_lt hp hv hpc
    have := offsetAt_le_length hv
    omega
  · have hv := valid_after hp hlt
    have := offsetAt_lt hp hv (lt_after d p)
    have := offsetAt_le_length hv
    omega

end Stop

theorem stop_blanked (h : s.document.Commented s.lineComments spans)
    (hm : s.document.Marked s.lineComments spans) (hp : s.document.Valid s.position)
    (hclear : Sheet.Clear spans s.position) :
    (s.blanked spans).stop = s.stop ∧ Sheet.Clear spans s.stop := by
  have hboth := stopAfter_blanked h hm hp hclear
  show stopAfter s.lineComments (s.document.blanked spans).stop
    ((s.document.blanked spans).glyphs s.position (s.document.blanked spans).stop) = _ ∧ _
  rwa [Document.stop_blanked]

end RegionSearch
end AbbrevSite
