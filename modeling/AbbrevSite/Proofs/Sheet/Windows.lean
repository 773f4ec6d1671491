import AbbrevSite.Proofs.Sheet.Blanking

/-! The lexemes of a window of a text whose comments are blanked. A lexeme stays what it is when blanks come
after it, or when the window ends before the text does; so they are the lexemes of the same window of the
text with blanks for its comments. -/
namespace AbbrevSite.Sheet

open Document

variable {d : Document} {spans : List Span} {lineComments : Bool} {b x y z : Position} {l : Lexeme}
  {ms : List Lexeme} {fault : Option Fault} {shape : Shape} {rest : List Glyph}

/-- What follows a word may be cut off, and may start with a blank if the word is no comment. -/
lemma Word.congr {text after after' : List Char} (h : Word lineComments shape text after)
    (hnil : after = [] → after' = [])
    (hhead : ∀ c ∈ after'.head?, after.head? = some c ∨ shape ≠ .comment ∧ (c = ' ' ∨ c = '\n')) :
    Word lineComments shape text after' := by
  cases h with
  | blockComment firstEnd => exact .blockComment firstEnd
  | lineComment allowed inLine ends =>
    refine .lineComment allowed inLine fun c hc => ?_
    rcases hhead c hc with h | ⟨h, -⟩
    · exact ends c h
    · exact absurd rfl h
  | string string => exact .string string
  | group inside => exact .group inside
  | openGroup inside =>
    rw [hnil rfl]
    exact .openGroup inside
  | char noQuote noGroup noComment =>
    refine .char noQuote noGroup fun hs => noComment ?_
    cases after' with
    | nil => simp [StartsComment, List.cons_prefix_cons] at hs
    | cons c cs =>
      rcases hhead c rfl with h | ⟨-, rfl | rfl⟩
      · cases after with
        | nil => cases h
        | cons e es =>
          cases h
          simpa [StartsComment, List.cons_prefix_cons] using hs
      · simp [StartsComment, List.cons_prefix_cons] at hs
      · simp [StartsComment, List.cons_prefix_cons] at hs

lemma Word.startsComment_iff {text after : List Char} (h : Word lineComments shape text after) :
    StartsComment lineComments (text ++ after) ↔ shape = .comment := by
  cases h with
  | blockComment => simp [StartsComment, List.cons_prefix_cons]
  | lineComment allowed => simp [StartsComment, List.cons_prefix_cons, allowed]
  | string string =>
    obtain ⟨quote, body, last, hq, -, -, rfl⟩ := string
    have hne : quote ≠ '/' := by
      rintro rfl
      exact absurd hq (by decide)
    simp [StartsComment, List.cons_prefix_cons, hne.symm]
  | group | openGroup => simp [StartsComment, List.cons_prefix_cons]
  | char _ _ noComment => exact iff_of_false noComment (by simp)

lemma StartsComment.mono {cs ds : List Char} (h : StartsComment lineComments cs) (hpre : cs <+: ds) :
    StartsComment lineComments ds :=
  h.imp (·.trans hpre) (And.imp_right (·.trans hpre))

lemma lexemes_of_word (h : Word lineComments shape (chars (d.glyphs x z)) (chars rest))
    (hx : d.Valid x) (hz : d.Valid z) (hxz : x < z) :
    lexemes lineComments (d.glyphs x z ++ rest) =
      (⟨shape, x, z⟩ :: (lexemes lineComments rest).1, (lexemes lineComments rest).2) := by
  have hv := valid_after hx (lt_of_lt_of_le hxz (le_stop hz))
  rw [glyphs_cons hz hxz] at h ⊢
  have hl := lexeme_of_word h
  rw [glyphAt_stop, endOf_glyphs hv hz (after_le hz hxz)] at hl
  exact lexemes_cons hl

lemma lexemes_of_isPlain_append {gs : List Glyph} (h : ∀ g ∈ gs, IsPlain g.char) :
    lexemes lineComments (gs ++ rest) =
      (gs.map .ofGlyph ++ (lexemes lineComments rest).1, (lexemes lineComments rest).2) := by
  induction gs with
  | nil => rfl
  | cons g gs ih =>
    rw [List.cons_append, lexemes_cons (lexeme_of_isPlain _ (h g (by simp))),
      ih fun x hx => h x (by simp [hx])]
    rfl

lemma of_lexemes_eq_cons (h : lexemes lineComments (d.glyphs x b) = (l :: ms, fault)) (hx : d.Valid x)
    (hb : d.Valid b) :
    l.start = x ∧ d.Valid l.stop ∧ x < l.stop ∧ l.stop ≤ b ∧
      Word lineComments l.shape (chars (d.glyphs x l.stop)) (chars (d.glyphs l.stop b)) ∧
      lexemes lineComments (d.glyphs l.stop b) = (ms, fault) := by
  obtain ⟨hlt, rest, hl, heq⟩ := lexeme_of_lexemes hb (congrArg Prod.fst h)
  obtain ⟨hstart, hv, hxl, hlb, rfl, hword⟩ := lexeme_place hl hx hb hlt
  rw [h] at heq
  cases heq
  exact ⟨hstart, hv, hxl, hlb, hword, rfl⟩

lemma head?_chars_glyphs (hy : d.Valid y) {c : Char} (h : c ∈ (chars (d.glyphs x y)).head?) :
    x < y ∧ c = d.readAt x := by
  rcases lt_or_ge x y with hlt | hle
  · rw [glyphs_cons hy hlt, chars_cons, List.head?_cons, Option.mem_some_iff] at h
    exact ⟨hlt, h.symm⟩
  · rw [glyphs_of_le hle] at h
    cases h

lemma chars_glyphs_eq_nil (hy : d.Valid y) (h : chars (d.glyphs x y) = []) : y ≤ x := by
  refine not_lt.1 fun hlt => ?_
  exact glyphs_ne_nil hy hlt (chars_eq_nil_iff.1 h)

/-- The places of a window that lie in some span are those of the comments among its lexemes. -/
def Covering (spans : List Span) (x b : Position) (ls : List Lexeme) : Prop :=
  ∀ z, x ≤ z → z < b → (InSome spans z ↔ ∃ l ∈ ls, l.shape = .comment ∧ l.start ≤ z ∧ z < l.stop)

namespace Covering

lemma first_iff (h : Covering spans l.start b (l :: ms)) (htiles : Tiles d l.stop ms b) (hz : l.start ≤ z)
    (hzl : z < l.stop) : InSome spans z ↔ l.shape = .comment := by
  rw [h z hz (lt_of_lt_of_le hzl htiles.le)]
  constructor
  · rintro ⟨k, hk, hs, hkz, hzk⟩
    rcases List.mem_cons.1 hk with rfl | hk
    · exact hs
    · exact absurd (lt_of_lt_of_le hzl ((htiles.bounds_of_mem hk).1.trans hkz)) (lt_irrefl z)
  · exact fun hs => ⟨l, by simp, hs, hz, hzl⟩

lemma others (h : Covering spans l.start b (l :: ms)) (hl : l.start < l.stop) : Covering spans l.stop b ms := by
  intro z hz hzb
  rw [h z (le_of_lt (lt_of_lt_of_le hl hz)) hzb]
  constructor
  · rintro ⟨k, hk, hs, hkz, hzk⟩
    rcases List.mem_cons.1 hk with rfl | hk
    · exact absurd (lt_of_lt_of_le hzk hz) (lt_irrefl z)
    · exact ⟨k, hk, hs, hkz, hzk⟩
  · rintro ⟨k, hk, h⟩
    exact ⟨k, by simp [hk], h⟩

end Covering

section First

variable (hword : Word lineComments l.shape (chars (d.glyphs l.start l.stop)) (chars (d.glyphs l.stop b)))
  (hx : d.Valid l.start) (hlv : d.Valid l.stop) (hlt : l.start < l.stop) (hb : d.Valid b) (hy : d.Valid y)
  (hly : l.stop ≤ y) (hyb : y ≤ b)
include hword hx hlv hlt hb hy hly hyb

lemma lexemes_of_stop_le : lexemes lineComments (d.glyphs l.start y) =
    (l :: (lexemes lineComments (d.glyphs l.stop y)).1, (lexemes lineComments (d.glyphs l.stop y)).2) := by
  rw [glyphs_append hx hlv hy (le_of_lt hlt) hly]
  refine lexemes_of_word (hword.congr (fun h => ?_) fun c hc => ?_) hx hlv hlt
  · rw [glyphs_of_le (hyb.trans (chars_glyphs_eq_nil hb h)), chars_nil]
  · obtain ⟨hsy, rfl⟩ := head?_chars_glyphs hy hc
    rw [glyphs_cons hb (lt_of_lt_of_le hsy hyb)]
    exact .inl rfl

lemma lexemes_blanked_of_stop_le (hs : l.shape ≠ .comment)
    (hout : ∀ z, l.start ≤ z → z < l.stop → ¬ InSome spans z) :
    lexemes lineComments ((d.blanked spans).glyphs l.start y) =
      (l :: (lexemes lineComments ((d.blanked spans).glyphs l.stop y)).1,
        (lexemes lineComments ((d.blanked spans).glyphs l.stop y)).2) := by
  rw [glyphs_append (valid_blanked.2 hx) (valid_blanked.2 hlv) (valid_blanked.2 hy) (le_of_lt hlt) hly,
    glyphs_blanked hx hlv (le_of_lt hlt) hout]
  refine lexemes_of_word (hword.congr (fun h => ?_) fun c hc => ?_) hx hlv hlt
  · rw [glyphs_of_le (hyb.trans (chars_glyphs_eq_nil hb h)), chars_nil]
  · obtain ⟨hsy, rfl⟩ := head?_chars_glyphs (valid_blanked.2 hy) hc
    by_cases hcov : InSome spans l.stop
    · exact .inr ⟨hs, readAt_blanked_of_inSome hcov⟩
    · rw [readAt_blanked_of_not_inSome hcov, glyphs_cons hb (lt_of_lt_of_le hsy hyb)]
      exact .inl rfl

omit hword hb hyb in
lemma exists_blanks_of_stop_le (hin : ∀ z, l.start ≤ z → z < l.stop → InSome spans z) :
    ∃ blanks, blanks ≠ [] ∧ (∀ k ∈ blanks, k.IsBlank) ∧
      lexemes lineComments ((d.blanked spans).glyphs l.start y) =
        (blanks ++ (lexemes lineComments ((d.blanked spans).glyphs l.stop y)).1,
          (lexemes lineComments ((d.blanked spans).glyphs l.stop y)).2) := by
  have hblank : ∀ g ∈ (d.blanked spans).glyphs l.start l.stop, g.char = ' ' ∨ g.char = '\n' := by
    intro g hg
    obtain ⟨z, -, hz, hzl, rfl⟩ := (mem_glyphs (valid_blanked.2 hlv) (valid_blanked.2 hx) (le_of_lt hlt)).1 hg
    exact readAt_blanked_of_inSome (hin z hz hzl)
  have hplain : ∀ g ∈ (d.blanked spans).glyphs l.start l.stop, IsPlain g.char := by
    intro g hg
    rcases hblank g hg with h | h <;> rw [h] <;> decide
  refine ⟨((d.blanked spans).glyphs l.start l.stop).map .ofGlyph, ?_, fun k hk => ?_, ?_⟩
  · simpa using glyphs_ne_nil (valid_blanked.2 hlv) hlt
  · obtain ⟨g, hg, rfl⟩ := List.mem_map.1 hk
    exact (hblank g hg).imp (congrArg _) (congrArg _)
  · rw [glyphs_append (valid_blanked.2 hx) (valid_blanked.2 hlv) (valid_blanked.2 hy) (le_of_lt hlt) hly,
      lexemes_of_isPlain_append hplain]

end First

/-- The lexemes of a window of a text whose comments are blanked. The window starts with a lexeme and does not
end within a comment. -/
theorem blanking_window (hms : lexemes lineComments (d.glyphs x b) = (ms, none)) (hx : d.Valid x)
    (hb : d.Valid b) (hxb : x ≤ b) (hspans : Covering spans x b ms) (hy : d.Valid y) (hxy : x ≤ y) (hyb : y ≤ b)
    (hclear : ∀ l ∈ ms, l.shape = .comment → y ≤ l.start ∨ l.stop ≤ y) :
    (lexemes lineComments (d.glyphs x y)).2 =
        (lexemes lineComments ((d.blanked spans).glyphs x y)).2 ∧
      Blanking (lexemes lineComments (d.glyphs x y)).1
        (lexemes lineComments ((d.blanked spans).glyphs x y)).1 := by
  induction ms generalizing x with
  | nil =>
    have htiles := tiles_lexemes hx hb hxb (by rw [hms])
    rw [hms] at htiles
    cases htiles
    obtain rfl := le_antisymm hxy hyb
    rw [glyphs_self, glyphs_self]
    exact ⟨rfl, .same _⟩
  | cons l ms ih =>
    obtain ⟨rfl, hlv, hll, hlb, hword, hrest⟩ := of_lexemes_eq_cons hms hx hb
    have htiles := tiles_lexemes hlv hb hlb (by rw [hrest])
    rw [hrest] at htiles
    by_cases hlast : l.stop ≤ y
    · -- the window goes on after the lexeme
      obtain ⟨hfault, hothers⟩ :=
        ih hrest hlv hlb (hspans.others hll) hlast fun k hk => hclear k (by simp [hk])
      rw [lexemes_of_stop_le hword hx hlv hll hb hy hlast hyb]
      by_cases hs : l.shape = .comment
      · obtain ⟨blanks, hne, hblanks, hread⟩ := exists_blanks_of_stop_le hx hlv hll hy
          hlast fun z hz hzl => (hspans.first_iff htiles hz hzl).2 hs
        rw [hread]
        exact ⟨hfault, .comment hs hne hblanks hothers⟩
      · rw [lexemes_blanked_of_stop_le hword hx hlv hll hb hy hlast hyb hs
          fun z hz hzl hc => hs ((hspans.first_iff htiles hz hzl).1 hc)]
        exact ⟨hfault, .keep _ hothers⟩
    · -- the window ends within the lexeme, which is no comment
      rw [glyphs_blanked hx hy hxy fun z hz hzy hc => ?_]
      · exact ⟨rfl, .same _⟩
      · have hs := (hspans.first_iff htiles hz (hzy.trans (not_le.1 hlast))).1 hc
        have hyl := (hclear l (by simp) hs).resolve_right hlast
        exact absurd (lt_of_le_of_lt hz hzy) (not_lt.2 hyl)

lemma Tiles.eq_end {a a' b b' : Position} {ls : List Lexeme} (h : Tiles d a ls b)
    (h' : Tiles d a' ls b') (ha : a = a') : b = b' := by
  induction h generalizing a' with
  | nil x =>
    cases h'
    exact ha
  | cons _ _ _ _ _ ih =>
    cases h' with
    | cons _ _ _ _ others => exact ih others rfl

lemma Tiles.exists_split {a b : Position} {ls : List Lexeme} (h : Tiles d a ls b) (hax : a ≤ x)
    (hxb : x ≤ b) (hout : ∀ l ∈ ls, ¬ (l.start < x ∧ x < l.stop)) :
    ∃ front back, ls = front ++ back ∧ Tiles d a front x ∧ Tiles d x back b := by
  induction h with
  | nil a =>
    obtain rfl := le_antisymm hax hxb
    exact ⟨[], [], rfl, .nil _, .nil _⟩
  | @cons l ls b valid valid' lt char others ih =>
    rcases lt_or_eq_of_le hax with hlt | rfl
    · have hlx : l.stop ≤ x := not_lt.1 fun hxl => hout l (by simp) ⟨hlt, hxl⟩
      obtain ⟨front, back, rfl, hfront, hback⟩ := ih hlx hxb fun k hk => hout k (by simp [hk])
      exact ⟨l :: front, back, rfl, .cons valid valid' lt char hfront, hback⟩
    · exact ⟨[], l :: ls, rfl, .nil _, .cons valid valid' lt char others⟩

/-- From a place that is within no lexeme of a window on, the lexemes are those of the window. -/
theorem exists_lexemes_from {a : Position} {ls : List Lexeme}
    (h : lexemes lineComments (d.glyphs a b) = (ls, none)) (ha : d.Valid a) (hb : d.Valid b) (hab : a ≤ b)
    (hax : a ≤ x) (hxb : x ≤ b) (hout : ∀ l ∈ ls, ¬ (l.start < x ∧ x < l.stop)) :
    ∃ front back, ls = front ++ back ∧ Reads lineComments (d.glyphs a b) front (d.glyphs x b) ∧
      lexemes lineComments (d.glyphs x b) = (back, none) ∧ Tiles d a front x ∧ Tiles d x back b := by
  have htiles := tiles_lexemes ha hb hab (by rw [h])
  rw [h] at htiles
  obtain ⟨front, back, rfl, hfront, hback⟩ := htiles.exists_split hax hxb hout
  obtain ⟨rest, hread, hrest⟩ := reads_of_lexemes (congrArg Prod.fst h)
  obtain ⟨y, -, -, -, rfl, hy⟩ := hread.tiles ha hb hab
  obtain rfl := hfront.eq_end hy rfl
  have hfault := lexemes_of_reads hread
  rw [h, Prod.mk.injEq] at hfault
  exact ⟨front, back, rfl, hread, Prod.ext hrest hfault.2.symm, hfront, hback⟩

end AbbrevSite.Sheet
