import AbbrevSite.Proofs.Region.Leaving

/-! The search in a text whose comments are blanked. Where the search in the text goes over a comment, the other
one walks through blanks; at every place outside the comments both are in the same state. -/
namespace AbbrevSite

open Sheet Document

/-- A significant character outside some spans. -/
structure Document.SignificantAt (d : Document) (spans : List Span) (x : Position) : Prop where
  valid : d.Valid x
  out : ¬ InSome spans x
  significant : CharClass.isBlank (d.readAt x) = false

lemma Document.pairAt_of_blanked {d : Document} {spans : List Span} {p : Position} {a b : Char}
    (h : (d.blanked spans).PairAt a b p) (ha : a ≠ ' ' ∧ a ≠ '\n') (hb : b ≠ ' ' ∧ b ≠ '\n') :
    d.PairAt a b p ∧ ¬ InSome spans p ∧ ¬ InSome spans (d.after p) := by
  have hout {x : Position} {c : Char} (hx : (d.blanked spans).readAt x = c) (hc : c ≠ ' ' ∧ c ≠ '\n') :
      ¬ InSome spans x := by
    intro hin
    rcases readAt_blanked_of_inSome (d := d) hin with hb | hb
    · exact hc.1 (hx.symm.trans hb)
    · exact hc.2 (hx.symm.trans hb)
  obtain ⟨h1, h2⟩ := h
  rw [after_blanked] at h2
  refine ⟨⟨?_, ?_⟩, hout h1 ha, hout h2 hb⟩
  · rwa [readAt_blanked_of_not_inSome (hout h1 ha)] at h1
  · rwa [readAt_blanked_of_not_inSome (hout h2 hb)] at h2

namespace RegionSearch

variable {s : RegionSearch} {spans : List Span} {brace p q x : Position} {line depth nested : Nat} {c : Span}

def blanked (s : RegionSearch) (spans : List Span) : RegionSearch :=
  { s with document := s.document.blanked spans }

lemma exhausted_mono (h : x ≤ p) (hp : s.exhausted p = true) : s.exhausted x = true := by
  simp only [exhausted, Bool.or_eq_true, decide_eq_true_eq] at hp ⊢
  refine hp.imp (fun hl => ?_) fun hf => h.trans hf
  simp only [Position.le_def] at h
  omega

lemma leaveBlockComment_of_not_ends (h : s.endsComment p = false) : s.leaveBlockComment p = p := by
  rw [leaveBlockComment, if_neg (by simp [h])]

/-- The search may stand at a place: outside the comments and, coming from the same line, not at the end of a
line comment. -/
structure Poised (s : RegionSearch) (spans : List Span) (line : Nat) (p : Position) : Prop where
  valid : s.document.Valid p
  clear : Sheet.Clear spans p
  fresh : line = p.line → ∀ c ∈ spans, s.document.PairAt '/' '/' c.start → c.stop ≠ p
  near : line ≠ p.line → s.exhausted p = false

/-- What a step back leads to: to the start of a comment, or to a character outside the comments, after a line
comment or not. -/
inductive Back (s : RegionSearch) (spans : List Span) (line : Nat) (p : Position) : Prop
  | comment {c : Span} (mem : c ∈ spans) (stop : c.stop = p)
      (slash : s.document.readAt (s.stepBack line p) = '/')
      (leaves : s.leaveBlockComment (s.stepBack line p) = c.start)
      (next : s.exhausted c.start = false → s.Poised spans p.line c.start)
  | char {x : Position} (valid : s.document.Valid x) (ne_origin : x ≠ .origin) (le : x ≤ p)
      (within : ∀ z, x ≤ z → z < p → InSome spans z) (near : x = p ∨ s.exhausted x = false)
      (step : s.stepBack line p = s.document.prev x) (out : ¬ InSome spans (s.document.prev x))
      (stays : s.document.readAt (s.document.prev x) = '/' →
        s.leaveBlockComment (s.document.prev x) = s.document.prev x)
      (next : s.exhausted (s.document.prev x) = false → s.Poised spans p.line (s.document.prev x))

section Step

variable (h : s.document.Commented s.lineComments spans) (hm : s.document.Marked s.lineComments spans)
  (hfar : ¬ s.document.InLineComment spans s.farthest)
include h

lemma poised_prev (hx : s.document.Valid x) (h0 : x ≠ .origin) (hxp : x ≤ p)
    (hout : ¬ InSome spans (s.document.prev x)) (hnear : s.exhausted (s.document.prev x) = false) :
    s.Poised spans p.line (s.document.prev x) where
  valid := valid_prev hx
  clear := clear_of_not_inSome hout
  fresh := by
    intro hline c hc hl hstop
    have hnewline := (h.line_stop hc hl).2.1
    rw [hstop] at hnewline
    have hafter := after_prev hx h0
    rw [hnewline, after_of_lineLength_le (le_refl _)] at hafter
    rw [hnewline] at hline
    rw [← hafter] at hxp
    simp only [Position.le_def] at hxp hline
    omega
  near := fun _ => hnear

include hm hfar in
theorem back (hp : s.Poised spans line p) (h0 : p ≠ .origin) : s.Back spans line p := by
  have hvalid : ∀ c ∈ spans, s.document.Valid c.stop := fun c hc => (h.valid c hc).2.1
  rcases leaveLineComment_cases h hm hp.valid hp.clear hp.fresh with ⟨hstay, hno⟩ | ⟨c, hc, hl, rfl, hleave, hne⟩
  · have hstep : s.stepBack line p = s.document.prev p := by rw [stepBack, hstay]
    by_cases hin : InSome spans (s.document.prev p)
    · obtain ⟨c, hc, rfl⟩ := exists_stop_of_inSome_prev hp.valid h0 hp.clear hvalid hin
      have hb : ¬ s.document.PairAt '/' '/' c.start := fun hl => hno c hc hl rfl
      refine .comment hc rfl ?_ ?_ fun hnear => ?_
      · rw [hstep]
        exact (endsComment_prev_stop h hc hb).1
      · rw [hstep]
        exact leaveBlockComment_prev_stop h hm hc hb
      refine ⟨(h.valid c hc).1, h.clear_start hc, fun _ b hb hl he => ?_, fun _ => hnear⟩
      have hread := h.readAt_start hc
      rw [← he, (h.line_stop hb hl).2.2] at hread
      exact absurd hread (by decide)
    · exact .char hp.valid h0 (le_refl p) (fun z hz hzp => absurd hzp (not_lt.2 hz)) (.inl rfl) hstep hin
        (fun hslash => leaveBlockComment_of_not_ends (endsComment_of_not_inSome h hm (valid_prev hp.valid) hslash hin))
        fun hnear => poised_prev h hp.valid h0 (le_refl p) hin hnear
  · have hlt := (h.valid c hc).2.2
    have hstep : s.stepBack line c.stop = s.document.prev c.start := by rw [stepBack, hleave]
    have hnear : s.exhausted c.start = false := by
      have hstop := hp.near hne
      have hline : c.start.line = c.stop.line := by rw [(h.line_stop hc hl).2.1]
      rw [exhausted, Bool.or_eq_false_iff, decide_eq_false_iff_not, decide_eq_false_iff_not] at hstop ⊢
      rw [hline]
      exact ⟨hstop.1, fun hle => hfar ⟨c, hc, hl, hle, not_le.1 hstop.2⟩⟩
    by_cases hc0 : c.start = .origin
    · have hprev : s.document.prev c.start = .origin := by rw [hc0, prev_origin]
      refine .comment hc rfl ?_ ?_ fun _ => ⟨(h.valid c hc).1, h.clear_start hc, fun _ b hb hl he => ?_, fun _ => hnear⟩
      · rw [hstep, hprev, ← hc0, h.readAt_start hc]
      · rw [hstep, hprev, hc0]
        simp [leaveBlockComment, endsComment]
      · have hread := h.readAt_start hc
        rw [← he, (h.line_stop hb hl).2.2] at hread
        exact absurd hread (by decide)
    · have hout := not_inSome_prev_start h hm hc hl hc0
      exact .char (h.valid c hc).1 hc0 (le_of_lt hlt) (fun z hz hzp => ⟨c, hc, hz, hzp⟩) (.inr hnear) hstep hout
        (fun hslash => leaveBlockComment_of_not_ends
          (endsComment_of_not_inSome h hm (valid_prev (h.valid c hc).1) hslash hout))
        fun hnear => poised_prev h (h.valid c hc).1 hc0 (le_of_lt hlt) hout hnear

end Step

/-- A search, from the line it comes from and the place it stands at, that after every character within some spans
goes on as it was, and past the limits gives up. -/
def WalksBlanks {α : Type} (s : RegionSearch) (spans : List Span) (f : Nat → Position → α) (out : α) : Prop :=
  ∀ line p, s.document.Valid p → p ≠ .origin → InSome spans (s.document.prev p) →
    f line p = if s.exhausted (s.document.prev p) then out else f p.line (s.document.prev p)

section Walk

variable {α : Type} {f : Nat → Position → α} {out : α}

lemma WalksBlanks.over (hf : s.WalksBlanks spans f out) (line : Nat) (hx : s.document.Valid x)
    (hp : s.document.Valid p) (hxp : x < p) (hin : ∀ z, x ≤ z → z < p → InSome spans z) :
    ∃ line', f line p = if s.exhausted x then out else f line' x := by
  induction p, hp using backward_induction generalizing line with
  | base => exact absurd hxp (not_lt.2 (Position.origin_le x))
  | step p hp h0 ih =>
    have hxq := le_prev hx hp hxp
    rw [hf line p hp h0 (hin _ hxq (prev_lt h0))]
    rcases lt_or_eq_of_le hxq with hlt | rfl
    · obtain ⟨line', ih⟩ := ih p.line hlt fun z hz hzq => hin z hz (hzq.trans (prev_lt h0))
      refine ⟨line', ?_⟩
      rw [ih]
      split_ifs with h1 h2
      · rfl
      · exact absurd (exhausted_mono hxq h1) h2
      · rfl
      · rfl
    · exact ⟨p.line, rfl⟩

lemma WalksBlanks.reaches (hf : s.WalksBlanks spans f out) (line : Nat) (hx : s.document.Valid x)
    (hp : s.document.Valid p) (hxp : x ≤ p) (hin : ∀ z, x ≤ z → z < p → InSome spans z)
    (hnear : x = p ∨ s.exhausted x = false) : ∃ line', f line p = f line' x := by
  rcases hnear with rfl | hnear
  · exact ⟨line, rfl⟩
  rcases lt_or_eq_of_le hxp with hlt | rfl
  · obtain ⟨line', hwalk⟩ := hf.over line hx hp hlt hin
    exact ⟨line', hwalk.trans (if_neg (by simp [hnear]))⟩
  · exact ⟨line, rfl⟩

end Walk

/-- Where both searches go to from the brace: back to the brace, or to the start of the selector that ends with
a character. -/
inductive SelectorEnd (s : RegionSearch) (spans : List Span) (brace : Position) : Position → Position → Prop
  | none : SelectorEnd s spans brace brace brace
  | found {q : Position} (last : s.document.SignificantAt spans q) (noBrace : ¬ IsBrace (s.document.readAt q)) :
      SelectorEnd s spans brace (s.selectorStart q) ((s.blanked spans).selectorStart q)

lemma SelectorEnd.ite {a b : Position} {P : Prop} [Decidable P] (h : ¬ P → s.SelectorEnd spans brace a b) :
    s.SelectorEnd spans brace (if P then brace else a) (if P then brace else b) := by
  split_ifs with hP
  · exact .none
  · exact h hP

section Both

variable (h : s.document.Commented s.lineComments spans) (hm : s.document.Marked s.lineComments spans)
  (hfar : ¬ s.document.InLineComment spans s.farthest)
include hm

lemma blanked_lineCommentColumn {n : Nat} (hn : n < s.document.lineCount) (hl : s.lineComments = true) :
    (s.document.blanked spans).lineCommentColumn n = none := by
  rw [Option.eq_none_iff_forall_ne_some]
  intro k hk
  obtain ⟨hpair, -⟩ := lineCommentColumn_eq_some hk
  obtain ⟨hpair, hout, -⟩ := pairAt_of_blanked hpair (by decide) (by decide)
  have hcol := (hpair.after_after (by decide) (by decide)).2.2
  obtain ⟨c, hc, -, hcx, hxc⟩ := hm.line hl ⟨n, k⟩ ⟨hn, by omega⟩ hpair
  exact hout ⟨c, hc, hcx, hxc⟩

lemma blanked_stepBack (line : Nat) (hp : s.document.Valid p) :
    (s.blanked spans).stepBack line p = s.document.prev p := by
  have hleave : (s.blanked spans).leaveLineComment line p = p := by
    by_cases hl : s.lineComments = true
    · simp [leaveLineComment, blanked, blanked_lineCommentColumn hm hp.1 hl]
    · simp [leaveLineComment, blanked, hl]
  rw [stepBack, hleave]
  exact prev_blanked p

lemma blanked_endsComment (hq : s.document.Valid q)
    (hslash : (s.document.blanked spans).readAt q = '/') : (s.blanked spans).endsComment q = false := by
  rw [Bool.eq_false_iff]
  intro hends
  obtain ⟨-, hpair⟩ := pairAt_of_endsComment (s := s.blanked spans) (valid_blanked.2 hq) hslash hends
  rw [show (s.blanked spans).document.prev q = s.document.prev q from prev_blanked q] at hpair
  obtain ⟨hpair, hout, -⟩ := pairAt_of_blanked hpair (by decide) (by decide)
  exact hout (hm.closing _ (valid_prev hq) hpair)

lemma findBrace_walksBlanks (depth : Nat) :
    s.WalksBlanks spans (fun line => (s.blanked spans).findBrace line depth) (.edge .origin) := by
  intro line p hp h0 hin
  have hblank := readAt_blanked_of_inSome (d := s.document) hin
  refine findBrace_of_other h0 (blanked_stepBack hm line hp) ?_ ?_
  · rintro (hc | hc) <;> rcases hblank with hb | hb <;> exact absurd (hc.symm.trans hb) (by decide)
  · intro hc
    rcases hblank with hb | hb <;> exact absurd (hc.symm.trans hb) (by decide)

lemma beforeBrace_walksBlanks (brace : Position) (nested : Nat) :
    s.WalksBlanks spans (fun line => (s.blanked spans).beforeBrace brace line nested) brace := by
  intro line p hp h0 hin
  refine beforeBrace_of_blank h0 (blanked_stepBack hm line hp) ?_
  rcases readAt_blanked_of_inSome (d := s.document) hin with hb | hb <;> exact hb ▸ by decide

include h hfar

/-- Going back to the brace of the enclosing block leads to the same place in both. -/
theorem findBrace_blanked {p : Position} {line : Nat} (hp : s.Poised spans line p) (line' depth : Nat) :
    (s.blanked spans).findBrace line' depth p = s.findBrace line depth p := by
  by_cases h0 : p = .origin
  · subst h0
    rw [findBrace_origin, findBrace_origin]
  cases back h hm hfar hp h0 with
  | @comment c hc hstop hslash hleaves hnext =>
    obtain ⟨hv, -, -⟩ := h.valid c hc
    have hcp : c.start < p := hstop ▸ (h.valid c hc).2.2
    obtain ⟨l, hwalk⟩ := (findBrace_walksBlanks hm depth).over line' hv hp.valid hcp
      fun z hz hzp => ⟨c, hc, hz, by rwa [hstop]⟩
    rw [hwalk, findBrace_of_slash h0 rfl hslash hleaves]
    split_ifs with hx
    · rfl
    · exact findBrace_blanked (hnext (by simpa using hx)) _ _
  | @char x hv hx0 hle hwithin hnear hstep hout hstays hnext =>
    obtain ⟨l, hwalk⟩ := (findBrace_walksBlanks hm depth).reaches line' hv hp.valid hle hwithin hnear
    have hstep' := blanked_stepBack hm l hv
    have hread : (s.blanked spans).document.readAt (s.document.prev x) =
      s.document.readAt (s.document.prev x) := readAt_blanked_of_not_inSome hout
    have hqp : s.document.prev x < p := (prev_lt hx0).trans_le hle
    have ih (n l : Nat) (hq : ¬ s.exhausted (s.document.prev x) = true) :
        (s.blanked spans).findBrace l n (s.document.prev x) = s.findBrace p.line n (s.document.prev x) :=
      findBrace_blanked (hnext (by simpa using hq)) _ _
    rw [hwalk]
    by_cases ho : s.document.readAt (s.document.prev x) = '{'
    · cases depth with
      | zero =>
        rw [findBrace_zero_of_opening h0 hstep ho,
          findBrace_zero_of_opening hx0 hstep' (hread.trans ho)]
      | succ n =>
        rw [findBrace_succ_of_opening h0 hstep ho, findBrace_succ_of_opening hx0 hstep' (hread.trans ho)]
        exact ite_congr rfl (fun _ => rfl) fun hq => ih _ _ hq
    · by_cases hcl : s.document.readAt (s.document.prev x) = '}'
      · rw [findBrace_of_closing h0 hstep hcl, findBrace_of_closing hx0 hstep' (hread.trans hcl)]
        refine ite_congr rfl (fun _ => ?_) fun _ => ?_
        · exact ite_congr rfl (fun _ => rfl) fun hq => ih _ _ hq
        · exact congrArg _ (after_blanked _)
      · by_cases hs : s.document.readAt (s.document.prev x) = '/'
        · rw [findBrace_of_slash h0 hstep hs (hstays hs), findBrace_of_slash hx0 hstep' (hread.trans hs)
            (leaveBlockComment_of_not_ends (blanked_endsComment hm (valid_prev hv) (hread.trans hs)))]
          exact ite_congr rfl (fun _ => rfl) fun hq => ih _ _ hq
        · have hb : ¬ IsBrace (s.document.readAt (s.document.prev x)) := not_or.2 ⟨ho, hcl⟩
          rw [findBrace_of_other h0 hstep hb hs, findBrace_of_other hx0 hstep' (by rwa [hread]) (by rwa [hread])]
          exact ite_congr rfl (fun _ => rfl) fun hq => ih _ _ hq
termination_by (p.line, p.column)
decreasing_by
  · exact Position.lex_of_lt hcp
  · exact Position.lex_of_lt hqp

/-- Going back from that brace leads to the same last character of a selector in both, or to none. -/
theorem beforeBrace_blanked {p : Position} {line : Nat} (hp : s.Poised spans line p)
    (brace : Position) (line' nested : Nat) :
    s.SelectorEnd spans brace (s.beforeBrace brace line nested p)
      ((s.blanked spans).beforeBrace brace line' nested p) := by
  by_cases h0 : p = .origin
  · subst h0
    rw [beforeBrace_origin, beforeBrace_origin]
    exact .none
  cases back h hm hfar hp h0 with
  | @comment c hc hstop hslash hleaves hnext =>
    have hcp : c.start < p := hstop ▸ (h.valid c hc).2.2
    obtain ⟨l, hwalk⟩ := (beforeBrace_walksBlanks hm brace nested).over line' (h.valid c hc).1 hp.valid hcp
      fun z hz hzp => ⟨c, hc, hz, by rwa [hstop]⟩
    rw [hwalk, beforeBrace_of_slash h0 rfl hslash hleaves]
    refine .ite fun hx => ?_
    exact beforeBrace_blanked (hnext (by simpa using hx)) brace l nested
  | @char x hv hx0 hle hwithin hnear hstep hout hstays hnext =>
    obtain ⟨l, hwalk⟩ := (beforeBrace_walksBlanks hm brace nested).reaches line' hv hp.valid hle hwithin hnear
    have hstep' := blanked_stepBack hm l hv
    have hread : (s.blanked spans).document.readAt (s.document.prev x) =
      s.document.readAt (s.document.prev x) := readAt_blanked_of_not_inSome hout
    have hqp : s.document.prev x < p := (prev_lt hx0).trans_le hle
    have ih (n l : Nat) (hq : ¬ s.exhausted (s.document.prev x) = true) :
        s.SelectorEnd spans brace (s.beforeBrace brace p.line n (s.document.prev x))
          ((s.blanked spans).beforeBrace brace l n (s.document.prev x)) :=
      beforeBrace_blanked (hnext (by simpa using hq)) brace l n
    rw [hwalk]
    by_cases hb : CharClass.isBlank (s.document.readAt (s.document.prev x)) = true
    · rw [beforeBrace_of_blank h0 hstep hb, beforeBrace_of_blank hx0 hstep' (by rwa [hread])]
      exact .ite (ih _ _)
    have hb := Bool.eq_false_iff.2 hb
    have hb' : CharClass.isBlank ((s.blanked spans).document.readAt (s.document.prev x)) = false := by
      rwa [hread]
    by_cases hs : s.document.readAt (s.document.prev x) = '/'
    · rw [beforeBrace_of_slash h0 hstep hs (hstays hs), beforeBrace_of_slash hx0 hstep' (hread.trans hs)
        (leaveBlockComment_of_not_ends (blanked_endsComment hm (valid_prev hv) (hread.trans hs)))]
      exact .ite (ih _ _)
    by_cases hc : s.document.readAt (s.document.prev x) = '}'
    · rw [beforeBrace_of_closing h0 hstep hc, beforeBrace_of_closing hx0 hstep' (hread.trans hc)]
      exact .ite (ih _ _)
    cases nested with
    | zero =>
      rw [beforeBrace_zero_of_other h0 hstep hb hs hc,
        beforeBrace_zero_of_other hx0 hstep' hb' (by rwa [hread]) (by rwa [hread]), hread]
      exact .ite fun ho => .found ⟨valid_prev hv, hout, hb⟩ (not_or.2 ⟨ho, hc⟩)
    | succ n =>
      rw [beforeBrace_succ_of_other h0 hstep hb hs hc,
        beforeBrace_succ_of_other hx0 hstep' hb' (by rwa [hread]) (by rwa [hread]), hread]
      exact .ite (ih _ _)
termination_by (p.line, p.column)
decreasing_by
  · exact Position.lex_of_lt hcp
  · exact Position.lex_of_lt hqp

end Both

end RegionSearch
end AbbrevSite
