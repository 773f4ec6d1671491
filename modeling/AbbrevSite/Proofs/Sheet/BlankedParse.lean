import AbbrevSite.Proofs.Sheet.Prelude
import AbbrevSite.Proofs.Sheet.Windows

/-! The tree of a window of a text whose comments are blanked, and of a window that starts later in the same
statement. The one is the tree of the text up to the texts of its tokens; the other differs in its first node
alone. -/
namespace AbbrevSite.Sheet

open Document

variable {d : Document} {dialect : Dialect} {t u u' : Tree} {a b x y z : Position} {l : Lexeme}
  {ls ms : List Lexeme} {window window' : Span} {n : Nat}

lemma Tiles.inSome_iff (h : Tiles d a ls b) : InSome (ls.filterMap Lexeme.comment?) z ↔
    ∃ l ∈ ls, l.shape = .comment ∧ l.start ≤ z ∧ z < l.stop := by
  constructor
  · rintro ⟨s, hs, hsz, hzs⟩
    obtain ⟨l, hl, hshape, hstart, hstop⟩ := h.mem_comments hs
    exact ⟨l, hl, hshape, hstart ▸ hsz, hstop ▸ hzs⟩
  · rintro ⟨l, hl, hshape, hlz, hzl⟩
    have hle := le_of_lt (h.bounds_of_mem hl).2.1
    refine ⟨⟨l.start, l.stop, hle⟩, List.mem_filterMap.2 ⟨l, hl, ?_⟩, hlz, hzl⟩
    rw [Lexeme.comment?, if_pos hshape, Span.between_of_le hle]

lemma exists_lexemes_whole (h : parse (Cursor.whole d .origin) dialect = .ok t) :
    ∃ ls, lexemes dialect.hasLineComments (d.glyphs .origin d.stop) = (ls, none) ∧
      Tiles d .origin ls d.stop ∧ t.comments = ls.filterMap Lexeme.comment? := by
  obtain ⟨hfault, hcomments⟩ := parse_comments h
  exact ⟨_, Prod.ext rfl hfault, tiles_lexemes d.valid_origin d.valid_stop (Position.origin_le _) hfault,
    hcomments⟩

/-- Within a lexeme of a text, neither end included. -/
def Cuts (d : Document) (lineComments : Bool) (x : Position) : Prop :=
  ∃ l ∈ (lexemes lineComments (d.glyphs .origin d.stop)).1, l.start < x ∧ x < l.stop

instance (d : Document) (lineComments : Bool) (x : Position) : Decidable (Cuts d lineComments x) :=
  inferInstanceAs (Decidable (∃ l ∈ (lexemes lineComments (d.glyphs .origin d.stop)).1, l.start < x ∧ x < l.stop))

section Whole

variable (hwhole : parse (Cursor.whole d .origin) dialect = .ok t)
include hwhole

/-- The lexemes of a window that cuts no comment and starts with a lexeme. -/
theorem blanking_of_parse (hx : d.Valid x) (hcut : ¬ Cuts d dialect.hasLineComments x) (hy : d.Valid y)
    (hxy : x ≤ y) (hclear : Clear t.comments y) :
    (lexemes dialect.hasLineComments (d.glyphs x y)).2 =
        (lexemes dialect.hasLineComments ((d.blanked t.comments).glyphs x y)).2 ∧
      Blanking (lexemes dialect.hasLineComments (d.glyphs x y)).1
        (lexemes dialect.hasLineComments ((d.blanked t.comments).glyphs x y)).1 := by
  obtain ⟨ls, hls, htiles, hcomments⟩ := exists_lexemes_whole hwhole
  have hout : ∀ l ∈ ls, ¬ (l.start < x ∧ x < l.stop) := by
    intro l hl hlx
    exact hcut ⟨l, by rwa [hls], hlx⟩
  have hxs := le_stop hx
  obtain ⟨front, back, rfl, -, hback, hfront, -⟩ := exists_lexemes_from hls d.valid_origin d.valid_stop
    (Position.origin_le _) (Position.origin_le x) hxs hout
  refine blanking_window hback hx d.valid_stop hxs (fun z hxz _ => ?_) hy hxy (le_stop hy) fun l hl hs => ?_
  · rw [hcomments, htiles.inSome_iff]
    constructor
    · rintro ⟨l, hl, hs, hlz, hzl⟩
      rcases List.mem_append.1 hl with hl | hl
      · exact absurd (hzl.trans_le (hfront.bounds_of_mem hl).2.2) (not_lt.2 hxz)
      · exact ⟨l, hl, hs, hlz, hzl⟩
    · rintro ⟨l, hl, h⟩
      exact ⟨l, List.mem_append_right _ hl, h⟩
  · have hle := le_of_lt (htiles.bounds_of_mem (List.mem_append_right _ hl)).2.1
    refine hclear ⟨l.start, l.stop, hle⟩ ?_
    rw [hcomments]
    refine List.mem_filterMap.2 ⟨l, List.mem_append_right _ hl, ?_⟩
    rw [Lexeme.comment?, if_pos hs, Span.between_of_le hle]

/-- Blanks after a comment are no part of another lexeme. -/
lemma not_cuts_of_blank (hx : d.Valid x) {c : Span} (hc : c ∈ t.comments) (hcx : c.stop ≤ x)
    (hblank : d.Throughout (CharClass.isBlank · = true) c.stop x) : ¬ Cuts d dialect.hasLineComments x := by
  obtain ⟨ls, hls, htiles, hcomments⟩ := exists_lexemes_whole hwhole
  rintro ⟨l, hl, hlx, hxl⟩
  rw [hls] at hl
  rw [hcomments] at hc
  obtain ⟨m, hm, hs, hstart, hstop⟩ := htiles.mem_comments hc
  rw [hstop] at hcx hblank
  have hlt := (htiles.bounds_of_mem hm).2.1
  rcases htiles.apart hl hm with rfl | hlm | hml
  · exact absurd (hxl.trans_le hcx) (lt_irrefl x)
  · exact absurd (hxl.trans_le (hlm.trans (le_of_lt hlt))) (not_lt.2 hcx)
  · -- the lexeme would start with a blank and so be no longer than that
    have hl' : l ∈ (lexemes dialect.hasLineComments (d.glyphs .origin d.stop)).1 := by rwa [hls]
    obtain ⟨_, rest, hv, -, hls, -, -, hlex, -⟩ :=
      exists_reads_of_mem hl' d.valid_origin d.valid_stop (Position.origin_le _)
    have hb := hblank l.start hv hml hlx
    have hplain : IsPlain (d.readAt l.start) := by
      refine ⟨?_, ?_, ?_, ?_⟩ <;> intro he <;> rw [he] at hb <;> exact absurd hb (by decide)
    rw [lexeme_of_isPlain _ hplain, Except.ok.injEq, Prod.mk.injEq] at hlex
    have hstop' : d.after l.start = l.stop := congrArg Lexeme.stop hlex.1
    rw [← hstop'] at hxl
    exact absurd (after_le hx hlx) (not_le.2 hxl)

end Whole

lemma exists_parse_within_iff : (∃ u, parse (Cursor.within d window.start window) dialect = .ok u) ↔
    (lexemes dialect.hasLineComments (d.glyphs window.start window.stop)).2 = none ∧
      ∃ m, nest 0 (lexemes dialect.hasLineComments (d.glyphs window.start window.stop)).1 = some m := by
  constructor
  · rintro ⟨u, hu⟩
    obtain ⟨ls, r, hls, hr, -⟩ := parse_within_eq_ok.1 hu
    rw [hls]
    exact ⟨rfl, _, Reading.run_nest hr⟩
  · rintro ⟨hfault, m, hm⟩
    obtain ⟨r, hr⟩ := Reading.exists_run (d := d) (r := .start) hm
    exact ⟨_, parse_within_eq_ok.2 ⟨_, r, Prod.ext rfl hfault, hr, rfl⟩⟩

/-- Two trees that agree in every node but that of number `hidden`, up to the texts of their tokens. -/
def AgreeBut (hidden : Option Nat) (u u' : Tree) : Prop :=
  u.forest.mapNodes (Node.sketch hidden) = u'.forest.mapNodes (Node.sketch hidden)

/-- Blanking the comments of a text changes no tree of a window of it but for texts. -/
theorem parse_blanked (hwhole : parse (Cursor.whole d .origin) dialect = .ok t)
    (hv : d.Valid window.start) (hcut : ¬ Cuts d dialect.hasLineComments window.start)
    (hv' : d.Valid window.stop) (hclear : Clear t.comments window.stop) (hidden : Option Nat) :
    ((∃ u, parse (Cursor.within d window.start window) dialect = .ok u) ↔
        ∃ u, parse (Cursor.within (d.blanked t.comments) window.start window) dialect = .ok u) ∧
      ∀ u u', parse (Cursor.within d window.start window) dialect = .ok u →
        parse (Cursor.within (d.blanked t.comments) window.start window) dialect = .ok u' →
        AgreeBut hidden u u' := by
  obtain ⟨hfault, hls⟩ := blanking_of_parse hwhole hv hcut hv' window.ordered hclear
  refine ⟨?_, fun u u' hu hu' => ?_⟩
  · rw [exists_parse_within_iff, exists_parse_within_iff, hfault, hls.nest]
  · obtain ⟨ls, r, hr, hrun, rfl⟩ := parse_within_eq_ok.1 hu
    obtain ⟨ls', r', hr', hrun', rfl⟩ := parse_within_eq_ok.1 hu'
    rw [hr, hr'] at hls
    obtain ⟨s, hs, hagree⟩ := Reading.run_blanking hls hrun (.refl hidden .start)
    rw [hrun', Except.ok.injEq] at hs
    rw [hs]
    exact hagree.finish window window window.stop

def Lexeme.Starts (l : Lexeme) : Prop :=
  l.shape ≠ .comment ∧ ∀ c, l.shape = .char c → CharClass.isBlank c = false ∧ ¬ IsDelimiter c

namespace Reading

variable {r s s' : Reading} {front back : List Lexeme}

lemma step_starts (h : l.Starts) : Step d r l (r.addToPrelude l) ∧
    (r.addToPrelude l).prelude.isSome = true := by
  refine ⟨.other h.1 ?_ ?_ ?_, ?_⟩
  · exact fun hs => (h.2 _ hs).2 (.inl rfl)
  · exact fun hs => (h.2 _ hs).2 (.inr (.inl rfl))
  · exact fun hs => (h.2 _ hs).2 (.inr (.inr rfl))
  · unfold addToPrelude
    split
    · rfl
    · rw [if_neg (by simp [(h.2 _ ‹_›).1])]
      rfl
    · rfl

lemma run_in_statement (hr : r.prelude.isSome = true)
    (h : ∀ l ∈ ls, ∀ c, l.shape = .char c → ¬ IsDelimiter c) :
    ∃ s, run d r ls = .ok s ∧ s.builder = r.builder ∧ s.prelude.isSome = true := by
  induction ls generalizing r with
  | nil => exact ⟨r, rfl, rfl, hr⟩
  | cons l ls ih =>
    have hstep : ∃ a, Step d r l a ∧ a.builder = r.builder ∧ a.prelude.isSome = true := by
      by_cases hs : l.shape = .comment
      · exact ⟨_, .comment hs, rfl, by simpa using hr⟩
      · refine ⟨_, .other hs ?_ ?_ ?_, addToPrelude_builder, ?_⟩
        · exact fun hs => h l (by simp) _ hs (.inl rfl)
        · exact fun hs => h l (by simp) _ hs (.inr (.inl rfl))
        · exact fun hs => h l (by simp) _ hs (.inr (.inr rfl))
        · obtain ⟨p, hp⟩ := Option.isSome_iff_exists.1 hr
          simp [addToPrelude, hp]
    obtain ⟨a, ha, hb, hp⟩ := hstep
    obtain ⟨s, hs, hsb, hsp⟩ := ih hp fun k hk => h k (by simp [hk])
    exact ⟨s, run_cons.2 ⟨a, ha, hs⟩, hsb.trans hb, hsp⟩

/-- Reading from a later start in the first statement changes the first node alone. -/
theorem run_later {f k : Lexeme} (hf : f.Starts) (hk : k.Starts)
    (hfront : ∀ l ∈ front, ∀ c, l.shape = .char c → ¬ IsDelimiter c)
    (h : run d .start (f :: front ++ k :: back) = .ok s) (h' : run d .start (k :: back) = .ok s') :
    AgreeBut (some 1) s s' := by
  obtain ⟨r, hr, hs⟩ := run_append.1 h
  obtain ⟨a, ha, hr⟩ := run_cons.1 hr
  obtain ⟨hf, hsome⟩ := step_starts (d := d) (r := .start) hf
  obtain rfl := ha.unique hf
  obtain ⟨r', hr', hb, hp⟩ := run_in_statement hsome hfront
  rw [hr, Except.ok.injEq] at hr'
  subst hr'
  rw [addToPrelude_builder] at hb
  obtain ⟨b, hb', hs⟩ := run_cons.1 hs
  obtain ⟨b', hb'', hs'⟩ := run_cons.1 h'
  obtain ⟨hk1, hk2⟩ := step_starts (d := d) (r := r) hk
  obtain ⟨hk1', hk2'⟩ := step_starts (d := d) (r := .start) hk
  obtain rfl := hb'.unique hk1
  obtain rfl := hb''.unique hk1'
  have hagree : AgreeBut (some 1) (r.addToPrelude k) (Reading.start.addToPrelude k) := by
    refine ⟨?_, by rw [hk2, hk2'], .inl ?_⟩
    · rw [addToPrelude_builder, addToPrelude_builder, hb]
    · rw [addToPrelude_builder, hb]
      rfl
  obtain ⟨s'', hs'', hss⟩ := run_agreeBut hs hagree
  rw [hs', Except.ok.injEq] at hs''
  rwa [hs'']

end Reading

section Later

variable (hwhole : parse (Cursor.whole d .origin) dialect = .ok t)
include hwhole

lemma shape_eq_comment_iff (h : l ∈ (lexemes dialect.hasLineComments (d.glyphs .origin d.stop)).1) :
    l.shape = .comment ↔ InSome t.comments l.start := by
  obtain ⟨ls, hls, htiles, hcomments⟩ := exists_lexemes_whole hwhole
  rw [hls] at h
  rw [hcomments, htiles.inSome_iff]
  have hlt := (htiles.bounds_of_mem h).2.1
  constructor
  · exact fun hs => ⟨l, h, hs, le_refl _, hlt⟩
  · rintro ⟨m, hm, hs, hml, hlm⟩
    rcases htiles.apart h hm with rfl | hle | hle
    · exact hs
    · exact absurd (hlt.trans_le hle) (not_lt.2 hml)
    · exact absurd (hlm.trans_le hle) (lt_irrefl _)

/-- The first lexeme of a window starts a statement if a significant character outside comments does. -/
lemma starts_of_lexemes (hx : d.Valid x) (hcut : ¬ Cuts d dialect.hasLineComments x) (hy : d.Valid y)
    (hxy : x ≤ y) (h : (lexemes dialect.hasLineComments (d.glyphs x y)).1 = l :: ls)
    (hout : ¬ InSome t.comments x) (hsig : CharClass.isBlank (d.readAt x) = false)
    (hdel : ¬ IsDelimiter (d.readAt x)) : l.Starts := by
  obtain ⟨-, hlv, hxl, hly, hword, -⟩ := of_lexemes_eq_cons (Prod.ext h rfl) hx hy
  refine ⟨fun hs => hout ?_, fun c hc => ?_⟩
  · -- the whole text has a comment there as well
    obtain ⟨ls, hls, -, -⟩ := exists_lexemes_whole hwhole
    obtain ⟨front, back, rfl, -, hback, -, hback'⟩ := exists_lexemes_from hls d.valid_origin d.valid_stop
      (Position.origin_le _) (Position.origin_le x) (le_stop hx) fun k hk hkx =>
        hcut ⟨k, by rwa [hls], hkx⟩
    cases back with
    | nil =>
      cases hback'
      exact absurd (hxl.trans_le hly) (not_lt.2 (le_stop hy))
    | cons m ms =>
      obtain ⟨rfl, hmv, hml, hmb, hmword, -⟩ := of_lexemes_eq_cons hback hx d.valid_stop
      rw [← shape_eq_comment_iff hwhole (by rw [hls]; simp), ← hmword.startsComment_iff,
        ← chars_append, ← glyphs_append hx hmv d.valid_stop (le_of_lt hml) hmb]
      refine (hword.startsComment_iff.2 hs).mono ?_
      rw [← chars_append, ← glyphs_append hx hlv hy (le_of_lt hxl) hly,
        glyphs_append hx hy d.valid_stop hxy (le_stop hy), chars_append]
      exact List.prefix_append _ _
  · rw [hc] at hword
    rw [← (char_of_word hx hlv hxl (word_char hword)).1]
    exact ⟨hsig, hdel⟩

/-- The lexemes of a window that starts earlier in the same statement. -/
lemma exists_lexemes_before (ha : d.Valid a) (hcut : ¬ Cuts d dialect.hasLineComments a) (hx : d.Valid x)
    (hcut' : ¬ Cuts d dialect.hasLineComments x) (hax : a < x) (hy : d.Valid y) (hxy : x < y)
    (hout : ¬ InSome t.comments a) (hsig : CharClass.isBlank (d.readAt a) = false)
    (hno : ∀ z, d.Valid z → a ≤ z → z < x → ¬ InSome t.comments z → ¬ IsDelimiter (d.readAt z)) :
    ∃ f front, lexemes dialect.hasLineComments (d.glyphs a y) =
        (f :: front ++ (lexemes dialect.hasLineComments (d.glyphs x y)).1,
          (lexemes dialect.hasLineComments (d.glyphs x y)).2) ∧
      f.Starts ∧ ∀ l ∈ front, ∀ c, l.shape = .char c → ¬ IsDelimiter c := by
  obtain ⟨ls, hls, -, -⟩ := exists_lexemes_whole hwhole
  have hwithin {z : Position} (h : ¬ Cuts d dialect.hasLineComments z) :
      ∀ l ∈ ls, ¬ (l.start < z ∧ z < l.stop) := fun l hl hlz => h ⟨l, by rwa [hls], hlz⟩
  obtain ⟨others, back, hback, -, hfrom, -, -⟩ := exists_lexemes_from hls d.valid_origin d.valid_stop
    (Position.origin_le _) (Position.origin_le a) (le_stop ha) (hwithin hcut)
  obtain ⟨front, back, rfl, hread, -, htiles, -⟩ := exists_lexemes_from hfrom ha d.valid_stop
    (le_stop ha) (le_of_lt hax) (le_stop hx) fun l hl => hwithin hcut' l (by rw [hback]; simp [hl])
  have hplain : ∀ l ∈ front, ∀ c, l.shape = .char c → d.readAt l.start = c ∧ ¬ IsDelimiter c := by
    intro l hl c hc
    obtain ⟨rfl, -⟩ := htiles.char_of_mem hl hc
    have hmem : l ∈ (lexemes dialect.hasLineComments (d.glyphs .origin d.stop)).1 := by
      rw [hls, hback]
      simp [hl]
    obtain ⟨hal, hll, hlx⟩ := htiles.bounds_of_mem hl
    refine ⟨rfl, hno _ (htiles.start_valid hl) hal (hll.trans_le hlx) ?_⟩
    rw [← shape_eq_comment_iff hwhole hmem, hc]
    simp
  have hwindow := hread.window (glyphs_ne_nil hy hxy)
    (glyphs_append ha hy d.valid_stop (le_of_lt (hax.trans hxy)) (le_stop hy))
    (glyphs_append hx hy d.valid_stop (le_of_lt hxy) (le_stop hy))
  cases front with
  | nil =>
    cases htiles
    exact absurd hax (lt_irrefl _)
  | cons f front =>
    refine ⟨f, front, lexemes_of_reads hwindow, ⟨?_, fun c hc => ?_⟩, fun l hl c hc =>
      (hplain l (by simp [hl]) c hc).2⟩
    · obtain ⟨rfl, -⟩ := of_lexemes_eq_cons hfrom ha d.valid_stop
      rwa [ne_eq, shape_eq_comment_iff hwhole (by rw [hls, hback]; simp)]
    · obtain ⟨rfl, -⟩ := of_lexemes_eq_cons hfrom ha d.valid_stop
      obtain ⟨rfl, hdel⟩ := hplain f (by simp) c hc
      exact ⟨hsig, hdel⟩

/-- A window that starts later in the same statement has the same tree but for the first node. -/
theorem parse_later (hx : d.Valid window.start) (hcut : ¬ Cuts d dialect.hasLineComments window.start)
    (hx' : d.Valid window'.start) (hcut' : ¬ Cuts d dialect.hasLineComments window'.start)
    (hlt : window.start < window'.start) (hy : d.Valid window.stop) (hstop : window'.stop = window.stop)
    (hlt' : window'.start < window.stop) (hout : ¬ InSome t.comments window.start)
    (hsig : CharClass.isBlank (d.readAt window.start) = false)
    (hno : ∀ z, d.Valid z → window.start ≤ z → z < window'.start → ¬ InSome t.comments z →
      ¬ IsDelimiter (d.readAt z)) :
    ((∃ u, parse (Cursor.within d window.start window) dialect = .ok u) ↔
        ∃ u, parse (Cursor.within d window'.start window') dialect = .ok u) ∧
      (¬ InSome t.comments window'.start → CharClass.isBlank (d.readAt window'.start) = false →
        ¬ IsDelimiter (d.readAt window'.start) →
          ∀ u u', parse (Cursor.within d window.start window) dialect = .ok u →
            parse (Cursor.within d window'.start window') dialect = .ok u' → AgreeBut (some 1) u u') := by
  obtain ⟨f, front, hls, hf, hfront⟩ := exists_lexemes_before hwhole hx hcut hx' hcut' hlt hy hlt' hout hsig hno
  refine ⟨?_, fun hout' hsig' hdel u u' hu hu' => ?_⟩
  · have hnone : ∀ l ∈ f :: front, l.shape ≠ .char '{' ∧ l.shape ≠ .char '}' := by
      intro l hl
      rcases List.mem_cons.1 hl with rfl | hl
      · exact ⟨fun hs => (hf.2 _ hs).2 (.inl rfl), fun hs => (hf.2 _ hs).2 (.inr (.inl rfl))⟩
      · exact ⟨fun hs => hfront l hl _ hs (.inl rfl), fun hs => hfront l hl _ hs (.inr (.inl rfl))⟩
    rw [exists_parse_within_iff, exists_parse_within_iff, hls, hstop,
      nest_append_of (nest_of_no_brace (fun l hl => (hnone l hl).1) fun l hl => (hnone l hl).2)]
  · obtain ⟨ls, r, hr, hrun, rfl⟩ := parse_within_eq_ok.1 hu
    obtain ⟨ls', r', hr', hrun', rfl⟩ := parse_within_eq_ok.1 hu'
    rw [hstop] at hr' ⊢
    rw [hls, hr', Prod.mk.injEq] at hr
    obtain ⟨rfl, -⟩ := hr
    cases ls' with
    | nil =>
      have htiles := tiles_lexemes hx' hy (le_of_lt hlt') (by rw [hr'])
      rw [hr'] at htiles
      exact absurd hlt' (not_lt.2 (le_of_eq (htiles.eq_end (.nil _) rfl)))
    | cons k back =>
      have hk := starts_of_lexemes hwhole hx' hcut' hy (le_of_lt hlt') (congrArg Prod.fst hr') hout' hsig' hdel
      exact (Reading.run_later hf hk hfront hrun hrun').finish window window' window.stop

end Later

end AbbrevSite.Sheet
