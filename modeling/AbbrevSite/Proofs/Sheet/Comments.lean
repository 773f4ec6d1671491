import AbbrevSite.Proofs.Sheet.Lexing
import AbbrevSite.Proofs.Sheet.Run

/-! The comments of a stylesheet. A tree records exactly the comments among its lexemes. A comment that a
window cuts off leaves the window unreadable if it is a block comment, and is a shorter comment if it is
a line comment. -/
namespace AbbrevSite.Sheet

def Lexeme.comment? (l : Lexeme) : Option Span :=
  if l.shape = .comment then some (.between l.start l.stop) else none

lemma Lexeme.comment?_of_ne {l : Lexeme} (h : l.shape ≠ .comment) : l.comment? = none := if_neg h

namespace Reading

variable {d : Document} {r s : Reading} {l : Lexeme} {ls : List Lexeme}

lemma Step.comments (h : Step d r l s) : s.comments = l.comment?.toList ++ r.comments := by
  cases h with
  | comment hs => simp [Lexeme.comment?, hs]
  | opening hs =>
    rw [Lexeme.comment?_of_ne (by simp [hs])]
    rfl
  | closing hs _ =>
    rw [Lexeme.comment?_of_ne (by simp [hs])]
    exact endStatement_comments d r none
  | semicolon hs =>
    rw [Lexeme.comment?_of_ne (by simp [hs])]
    exact endStatement_comments d r _
  | other hs _ _ _ =>
    rw [Lexeme.comment?_of_ne hs]
    exact addToPrelude_comments

theorem run_comments (h : run d r ls = .ok s) :
    s.comments = (ls.filterMap Lexeme.comment?).reverse ++ r.comments := by
  induction ls generalizing r with
  | nil =>
    cases h
    rfl
  | cons l ls ih =>
    obtain ⟨a, ha, hls⟩ := run_cons.1 h
    rw [ih hls, ha.comments, List.filterMap_cons]
    cases l.comment? <;> simp

end Reading

theorem parse_comments {c : Cursor} {dialect : Dialect} {t : Tree} (h : parse c dialect = .ok t) :
    (lexemes dialect.hasLineComments (c.document.glyphs c.position c.window.stop)).2 = none ∧
      t.comments = (lexemes dialect.hasLineComments
        (c.document.glyphs c.position c.window.stop)).1.filterMap Lexeme.comment? := by
  obtain ⟨ls, r, hls, hr, rfl⟩ := parse_eq_ok_iff.1 h
  have hc : r.comments = (ls.filterMap Lexeme.comment?).reverse := by
    simpa [Reading.start] using Reading.run_comments hr
  rw [hls]
  exact ⟨rfl, by simp [Reading.finish, hc]⟩

section Places

open Document

variable {d : Document} {lineComments : Bool} {a b x y z p : Position} {g : Glyph}
  {gs rest : List Glyph} {l : Lexeme} {ls : List Lexeme}

lemma closeComment_stop (h : closeComment gs = some (y, rest)) : ∃ g ∈ gs, g.stop = y := by
  fun_induction closeComment gs with
  | case1 => cases h
  | case2 => cases h
  | case3 g g' r _ =>
    cases h
    exact ⟨g', by simp, rfl⟩
  | case4 g g' r _ ih =>
    obtain ⟨x, hx, hy⟩ := ih h
    exact ⟨x, List.mem_cons_of_mem _ hx, hy⟩

lemma closeComment_append (ws : List Glyph) (h : closeComment gs = some (y, rest)) :
    closeComment (gs ++ ws) = some (y, rest ++ ws) := by
  fun_induction closeComment gs with
  | case1 => cases h
  | case2 => cases h
  | case3 g g' r hc =>
    cases h
    rw [List.cons_append, List.cons_append, closeComment, if_pos hc]
  | case4 g g' r hc ih =>
    rw [List.cons_append, List.cons_append, closeComment, if_neg hc]
    exact ih h

lemma closeLineComment_glyphs (hz : d.Valid z) (hb : d.Valid b) (h : z ≤ b) :
    ∃ e, d.Valid e ∧ z ≤ e ∧ e ≤ b ∧ (closeLineComment z (d.glyphs z b)).1 = e ∧
      d.Throughout (· ≠ '\n') z e ∧ (e < b → d.readAt e = '\n') := by
  induction z, hz, h using forward_induction hb with
  | base =>
    refine ⟨b, hb, le_refl b, le_refl b, ?_, throughout_self, fun h => absurd h (lt_irrefl b)⟩
    rw [glyphs_self, closeLineComment]
  | step z hz hlt _ _ ih =>
    rw [glyphs_cons hb hlt, closeLineComment, glyphAt_char]
    by_cases hc : d.readAt z = '\n'
    · rw [if_pos hc]
      exact ⟨z, hz, le_refl z, le_of_lt hlt, rfl, throughout_self, fun _ => hc⟩
    · rw [if_neg hc]
      obtain ⟨e, he, hze, heb, hs, hno, hend⟩ := ih
      exact ⟨e, he, (le_of_lt (lt_after d z)).trans hze, heb, hs, hno.cons hc, hend⟩

lemma Reads.start_lt (h : Reads lineComments (d.glyphs a b) ls rest) (ha : d.Valid a)
    (hb : d.Valid b) (hab : a ≤ b) :
    ∃ x, d.Valid x ∧ a ≤ x ∧ x ≤ b ∧ rest = d.glyphs x b ∧ ∀ l ∈ ls, a ≤ l.start ∧ l.start < x := by
  generalize hgs : d.glyphs a b = gs at h
  induction h generalizing a with
  | done gs => exact ⟨a, ha, le_refl a, hab, hgs.symm, fun l hl => absurd hl List.not_mem_nil⟩
  | @next g gs mid rest l ls first others ih =>
    obtain ⟨hlt, rfl, rfl⟩ := of_glyphs_eq_cons hb hgs
    have hv := valid_after ha (lt_of_lt_of_le hlt (le_stop hb))
    obtain ⟨front, hfront⟩ := lexeme_suffix first
    obtain ⟨m, hm, ham, hmb, -, hmid⟩ :=
      exists_glyphs_split hv hb (after_le hb hlt) hfront.symm
    obtain ⟨x, hx, hmx, hxb, hrest, hls⟩ := ih hm hmb hmid
    have ham' : a < m := lt_of_lt_of_le (lt_after d a) ham
    refine ⟨x, hx, (le_of_lt ham').trans hmx, hxb, hrest, ?_⟩
    intro k hk
    rcases List.mem_cons.1 hk with rfl | hk
    · rw [lexeme_start first]
      exact ⟨le_refl a, lt_of_lt_of_le ham' hmx⟩
    · exact ⟨(le_of_lt ham').trans (hls k hk).1, (hls k hk).2⟩

lemma exists_reads_of_mem (h : l ∈ (lexemes lineComments (d.glyphs a b)).1) (ha : d.Valid a)
    (hb : d.Valid b) (hab : a ≤ b) :
    ∃ ls rest, d.Valid l.start ∧ a ≤ l.start ∧ l.start < b ∧
      Reads lineComments (d.glyphs a b) ls (d.glyphs l.start b) ∧
      (∀ k ∈ ls, k.start < l.start) ∧
      lexeme lineComments (d.glyphAt l.start) (d.glyphs (d.after l.start) b) = .ok (l, rest) ∧
      (lexemes lineComments (d.glyphs a b)).1 =
        ls ++ (lexemes lineComments (d.glyphs l.start b)).1 := by
  obtain ⟨ls, ms, hls⟩ := List.append_of_mem h
  obtain ⟨gs, hread, hgs⟩ := reads_of_lexemes hls
  obtain ⟨x, hx, hax, hxb, rfl, hbefore⟩ := hread.start_lt ha hb hab
  obtain ⟨hlt, rest, hl, -⟩ := lexeme_of_lexemes hb hgs
  obtain rfl : l.start = x := lexeme_start hl
  exact ⟨ls, rest, hx, hax, hlt, hread, fun k hk => (hbefore k hk).2, hl, by rw [hls, hgs]⟩

lemma comment_cases
    (h : lexeme lineComments (d.glyphAt x) (d.glyphs (d.after x) b) = .ok (l, rest))
    (hs : l.shape = .comment) (hb : d.Valid b) :
    d.after x < b ∧ d.readAt x = '/' ∧
      (d.readAt (d.after x) = '*' ∧
          closeComment (d.glyphs (d.after (d.after x)) b) = some (l.stop, rest) ∨
        d.readAt (d.after x) = '/' ∧ lineComments = true ∧
          l.stop = (closeLineComment (d.after (d.after x))
            (d.glyphs (d.after (d.after x)) b)).1) := by
  generalize hgs : d.glyphs (d.after x) b = gs at h
  cases lexemeAt_of_lexeme h with
  | char => cases hs
  | string => cases hs
  | group => cases hs
  | blockComment slash star closed =>
    obtain ⟨hlt, rfl, rfl⟩ := of_glyphs_eq_cons hb hgs
    exact ⟨hlt, slash, .inl ⟨star, closed⟩⟩
  | lineComment slash slash' allowed =>
    obtain ⟨hlt, rfl, rfl⟩ := of_glyphs_eq_cons hb hgs
    exact ⟨hlt, slash, .inr ⟨slash', allowed, rfl⟩⟩

lemma comment_stop
    (h : lexeme lineComments (d.glyphAt x) (d.glyphs (d.after x) b) = .ok (l, rest))
    (hs : l.shape = .comment) (hx : d.Valid x) (hb : d.Valid b) (hxb : x < b) :
    x < l.stop ∧ l.stop ≤ b := by
  obtain ⟨hlt, -, hc⟩ := comment_cases h hs hb
  have hv := valid_after hx (lt_of_lt_of_le hxb (le_stop hb))
  have hv' := valid_after hv (lt_of_lt_of_le hlt (le_stop hb))
  have hle := after_le hb hlt
  have hx' : x < d.after (d.after x) := (lt_after d x).trans (lt_after d _)
  rcases hc with ⟨-, hclose⟩ | ⟨-, -, hstop⟩
  · obtain ⟨g, hg, hstop⟩ := closeComment_stop hclose
    obtain ⟨y, -, hxy, hyb, rfl⟩ := (mem_glyphs hb hv' hle).1 hg
    rw [← hstop]
    exact ⟨(hx'.trans_le hxy).trans (lt_after d y), after_le hb hyb⟩
  · obtain ⟨e, -, hxe, heb, he, -⟩ := closeLineComment_glyphs hv' hb hle
    rw [hstop, he]
    exact ⟨hx'.trans_le hxe, heb⟩

/-- What can be read of a comment in a window that ends within it is a comment as well, and covers what the
window has of it. -/
theorem comment_window {e : Position} {m : Lexeme}
    (h : lexeme lineComments (d.glyphAt x) (d.glyphs (d.after x) e) = .ok (m, rest))
    (hs : m.shape = .comment) (hx : d.Valid x) (hb : d.Valid b) (he : d.Valid e)
    (hxb : d.after x < b) (hbe : b ≤ e) (hpb : p ≤ b) (hp : p < m.stop)
    (hl : lexeme lineComments (d.glyphAt x) (d.glyphs (d.after x) b) = .ok (l, gs)) :
    l.shape = .comment ∧ p ≤ l.stop := by
  have hxb' : x < b := (lt_after d x).trans hxb
  have hv := valid_after hx (lt_of_lt_of_le hxb' (le_stop hb))
  have hv' := valid_after hv (lt_of_lt_of_le hxb (le_stop hb))
  have hle := after_le hb hxb
  obtain ⟨-, hslash, hc⟩ := comment_cases h hs he
  rw [glyphs_cons hb hxb] at hl
  rcases hc with ⟨hstar, hclose⟩ | ⟨hslash', hlc, hstop⟩
  · obtain ⟨y, hc, rfl⟩ := (lexeme_block_comment_iff hslash hstar).1 hl
    have happ := closeComment_append (d.glyphs b e) hc
    rw [← glyphs_append hv' hb he hle hbe, hclose, Option.some.injEq, Prod.mk.injEq] at happ
    rw [happ.1] at hp
    exact ⟨rfl, le_of_lt hp⟩
  · rw [lexeme_line_comment _ hslash hslash' hlc] at hl
    cases hl
    refine ⟨rfl, ?_⟩
    obtain ⟨u, hu, hzu, hub, hu', -, hend⟩ := closeLineComment_glyphs hv' hb hle
    obtain ⟨v, -, -, -, hv', hno, -⟩ := closeLineComment_glyphs hv' he (hle.trans hbe)
    rw [hstop, hv'] at hp
    show p ≤ (closeLineComment (d.after (d.after x)) _).1
    rw [hu']
    rcases lt_or_eq_of_le hub with hlt | rfl
    · exact not_lt.1 fun hup => hno u hu hzu (hup.trans hp) (hend hlt)
    · exact hpb

/-- A comment of a text covers the places it covers in every window of the text that can be read and starts
with a lexeme of the text at or before it. -/
theorem exists_comment_window {e : Position} {k m : Lexeme}
    (hk : k ∈ (lexemes lineComments (d.glyphs a e)).1)
    (hm : m ∈ (lexemes lineComments (d.glyphs a e)).1)
    (hkm : k.start ≤ m.start) (hs : m.shape = .comment) (ha : d.Valid a) (hae : a ≤ e)
    (hb : d.Valid b) (he : d.Valid e) (hxb : d.after m.start < b) (hbe : b ≤ e)
    (hpb : p ≤ b) (hp : p < m.stop)
    (hread : (lexemes lineComments (d.glyphs k.start b)).2 = none) :
    ∃ l ∈ (lexemes lineComments (d.glyphs k.start b)).1,
      l.shape = .comment ∧ l.start = m.start ∧ p ≤ l.stop := by
  obtain ⟨ls, -, hkv, -, hke, -, hbefore, -, heq⟩ := exists_reads_of_mem hk ha he hae
  have hm' : m ∈ (lexemes lineComments (d.glyphs k.start e)).1 := by
    rw [heq, List.mem_append] at hm
    exact hm.resolve_left fun h => absurd (hbefore m h) (not_lt.2 hkm)
  obtain ⟨ms, rest, hmv, -, hme, hreads, -, hlex, -⟩ :=
    exists_reads_of_mem hm' hkv he (le_of_lt hke)
  have hmb : m.start < b := (lt_after d _).trans hxb
  have hwin := hreads.window (glyphs_ne_nil hb hmb)
    (glyphs_append hkv hb he (hkm.trans (le_of_lt hmb)) hbe)
    (glyphs_append hmv hb he (le_of_lt hmb) hbe)
  rw [lexemes_of_reads hwin, glyphs_cons hb hmb] at hread ⊢
  cases hl : lexeme lineComments (d.glyphAt m.start) (d.glyphs (d.after m.start) b) with
  | error fault =>
    rw [lexemes_fault hl] at hread
    cases hread
  | ok read =>
    rw [lexemes_cons hl]
    obtain ⟨hs', hp'⟩ := comment_window hlex hs hmv hb he hxb hbe hpb hp hl
    exact ⟨read.1, by simp, hs', lexeme_start hl, hp'⟩

lemma exists_of_mem_comments {c : Cursor} {dialect : Dialect} {t : Tree} {span : Span}
    (h : parse c dialect = .ok t) (hmem : span ∈ t.comments) (hv : c.document.Valid c.position)
    (hv' : c.document.Valid c.window.stop) (hle : c.position ≤ c.window.stop) :
    ∃ m ∈ (lexemes dialect.hasLineComments (c.document.glyphs c.position c.window.stop)).1,
      m.shape = .comment ∧ m.start = span.start ∧ m.stop = span.stop ∧ span.start < span.stop := by
  rw [(parse_comments h).2, List.mem_filterMap] at hmem
  obtain ⟨m, hm, hspan⟩ := hmem
  unfold Lexeme.comment? at hspan
  split_ifs at hspan with hs
  cases hspan
  obtain ⟨_, _, hx, -, hlt, -, -, hlex, -⟩ := exists_reads_of_mem hm hv hv' hle
  have hstop := (comment_stop hlex hs hx hv' hlt).1
  rw [Span.between_of_le (le_of_lt hstop)]
  exact ⟨m, hm, hs, rfl, rfl, hstop⟩

end Places
end AbbrevSite.Sheet
