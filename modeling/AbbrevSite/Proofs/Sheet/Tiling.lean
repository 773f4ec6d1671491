import AbbrevSite.Proofs.Sheet.Words

/-! The lexemes of a window lie one after the other in it, without gaps. Each is a word of the text, and a
character that is a lexeme is the one that stands at its place. -/
namespace AbbrevSite.Sheet

open Document

variable {d : Document} {lineComments : Bool} {a b x y : Position} {l : Lexeme} {ls ms : List Lexeme}
  {rest : List Glyph}

lemma endOf_glyphs (ha : d.Valid a) (hb : d.Valid b) (h : a ≤ b) : endOf a (d.glyphs a b) = b := by
  induction a, ha, h using forward_induction hb with
  | base => simp
  | step a _ hlt _ _ ih =>
    rw [glyphs_cons hb hlt, endOf_cons]
    exact ih

/-- Lexemes that lie between two places, each of them starting where the one before it stops. -/
inductive Tiles (d : Document) : Position → List Lexeme → Position → Prop
  | nil (x : Position) : Tiles d x [] x
  | cons {l : Lexeme} {ls : List Lexeme} {b : Position} (valid : d.Valid l.start)
      (valid' : d.Valid l.stop) (lt : l.start < l.stop)
      (char : ∀ c, l.shape = .char c → d.readAt l.start = c ∧ l.stop = d.after l.start)
      (others : Tiles d l.stop ls b) : Tiles d l.start (l :: ls) b

lemma lexeme_place
    (h : lexeme lineComments (d.glyphAt x) (d.glyphs (d.after x) b) = .ok (l, rest))
    (hx : d.Valid x) (hb : d.Valid b) (hxb : x < b) :
    l.start = x ∧ d.Valid l.stop ∧ x < l.stop ∧ l.stop ≤ b ∧ rest = d.glyphs l.stop b ∧
      Word lineComments l.shape (chars (d.glyphs x l.stop)) (chars rest) := by
  have hv := valid_after hx (lt_of_lt_of_le hxb (le_stop hb))
  obtain ⟨u, hu, hword, hl⟩ := exists_word_of_lexeme h
  obtain ⟨q, hq, hxq, hqb, rfl, rfl⟩ := exists_glyphs_split hv hb (after_le hb hxb) hu
  have hxq' : x < q := (lt_after d x).trans_le hxq
  obtain rfl : l.stop = q := by
    rw [hl]
    exact endOf_glyphs hv hq hxq
  rw [← glyphs_cons hq hxq'] at hword
  exact ⟨by rw [hl]; rfl, hq, hxq', hqb, rfl, hword⟩

lemma word_char {text after : List Char} {c : Char} (h : Word lineComments (.char c) text after) :
    text = [c] := by
  cases h
  rfl

lemma char_of_word {c : Char} (hx : d.Valid x) (hy : d.Valid y) (hxy : x < y)
    (h : chars (d.glyphs x y) = [c]) : d.readAt x = c ∧ y = d.after x := by
  have hv := valid_after hx (lt_of_lt_of_le hxy (le_stop hy))
  rw [glyphs_cons hy hxy, chars_cons, List.cons.injEq, chars_eq_nil_iff] at h
  refine ⟨h.1, le_antisymm (not_lt.1 fun hlt => ?_) (after_le hy hxy)⟩
  exact glyphs_ne_nil hy hlt h.2

/-- The lexemes that are read of a window lie in it without gaps. -/
theorem Reads.tiles (h : Reads lineComments (d.glyphs a b) ls rest) (ha : d.Valid a)
    (hb : d.Valid b) (hab : a ≤ b) :
    ∃ x, d.Valid x ∧ a ≤ x ∧ x ≤ b ∧ rest = d.glyphs x b ∧ Tiles d a ls x := by
  generalize hgs : d.glyphs a b = gs at h
  induction h generalizing a with
  | done gs => exact ⟨a, ha, le_refl a, hab, hgs.symm, .nil a⟩
  | @next g gs mid rest l ls first others ih =>
    obtain ⟨hlt, rfl, rfl⟩ := of_glyphs_eq_cons hb hgs
    obtain ⟨rfl, hv, hxl, hlb, rfl, hword⟩ := lexeme_place first ha hb hlt
    obtain ⟨x, hx, hlx, hxb, hrest, htiles⟩ := ih hv hlb rfl
    refine ⟨x, hx, (le_of_lt hxl).trans hlx, hxb, hrest, .cons ha hv hxl (fun c hc => ?_) htiles⟩
    rw [hc] at hword
    exact char_of_word ha hv hxl (word_char hword)

namespace Tiles

lemma le (h : Tiles d a ls b) : a ≤ b := by
  induction h with
  | nil x => exact le_refl x
  | cons _ _ lt _ _ ih => exact (le_of_lt lt).trans ih

lemma append_iff : Tiles d a (ls ++ ms) b ↔ ∃ x, Tiles d a ls x ∧ Tiles d x ms b := by
  induction ls generalizing a with
  | nil =>
    refine ⟨fun h => ⟨a, .nil a, h⟩, ?_⟩
    rintro ⟨x, h, h'⟩
    cases h
    exact h'
  | cons l ls ih =>
    constructor
    · intro h
      cases h with
      | cons hv hv' lt char others =>
        obtain ⟨x, h1, h2⟩ := ih.1 others
        exact ⟨x, .cons hv hv' lt char h1, h2⟩
    · rintro ⟨x, h, h'⟩
      cases h with
      | cons hv hv' lt char others => exact .cons hv hv' lt char (ih.2 ⟨x, others, h'⟩)

lemma bounds_of_mem (h : Tiles d a ls b) (hl : l ∈ ls) :
    a ≤ l.start ∧ l.start < l.stop ∧ l.stop ≤ b := by
  obtain ⟨front, back, rfl⟩ := List.append_of_mem hl
  obtain ⟨x, hfront, hback⟩ := append_iff.1 h
  cases hback with
  | cons _ _ lt _ others => exact ⟨hfront.le, lt, others.le⟩

end Tiles

lemma reads_lexemes (lineComments : Bool) (gs : List Glyph) :
    ∃ rest, Reads lineComments gs (lexemes lineComments gs).1 rest ∧ (lexemes lineComments rest).1 = [] :=
  reads_of_lexemes (List.append_nil _).symm

/-- The lexemes of a window without fault lie in it from one end to the other. -/
theorem tiles_lexemes (ha : d.Valid a) (hb : d.Valid b) (hab : a ≤ b)
    (h : (lexemes lineComments (d.glyphs a b)).2 = none) :
    Tiles d a (lexemes lineComments (d.glyphs a b)).1 b := by
  obtain ⟨rest, hread, hrest⟩ := reads_lexemes lineComments (d.glyphs a b)
  obtain ⟨x, hx, -, hxb, rfl, htiles⟩ := hread.tiles ha hb hab
  rw [lexemes_of_reads hread] at h
  obtain rfl : x = b := by
    refine le_antisymm hxb (not_lt.1 fun hlt => ?_)
    have hcons := glyphs_cons hb hlt
    cases hl : lexeme lineComments (d.glyphAt x) (d.glyphs (d.after x) b) with
    | error fault =>
      rw [hcons, lexemes_fault hl] at h
      cases h
    | ok read =>
      obtain ⟨l, rest⟩ := read
      rw [hcons, lexemes_cons hl] at hrest
      cases hrest
  exact htiles

end AbbrevSite.Sheet
