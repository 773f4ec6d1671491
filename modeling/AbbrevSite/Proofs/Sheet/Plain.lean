import AbbrevSite.Parse
import AbbrevSite.Proofs.Sheet.Beyond
import AbbrevSite.Proofs.Sheet.Lexing

/-! Documents without comments, strings and groups. Every character is a lexeme, so that a window can be
cut at every position and is read if and only if its braces balance. -/
namespace AbbrevSite

open Sheet

namespace Document

variable {d : Document} {p q r x : Position}

/-- A document in which no comment, string or group starts. -/
def Plain (d : Document) : Prop := ∀ c ∈ d.text.toList, IsPlain c

lemma Plain.readAt (h : d.Plain) (hp : d.Valid p) (hlt : p < d.stop) : IsPlain (d.readAt p) := by
  apply h
  rw [toList_text]
  exact List.mem_map_of_mem (mem_glyphs_of_le d.valid_origin hp d.valid_stop (Position.origin_le p) hlt)

lemma Plain.mem_line (h : d.Plain) {n : Nat} {c : Char} (hm : c ∈ (d.line n).toList) : IsPlain c := by
  obtain ⟨k, hk, he⟩ := List.mem_iff_getElem.1 hm
  have hlt : k < d.lineLength n := by simpa [lineLength] using hk
  have hn : n < d.lineCount := by
    by_contra hn
    simp [line, Array.getElem?_eq_none (Nat.not_lt.1 hn)] at hm
  have hv : d.Valid ⟨n, k⟩ := ⟨hn, Nat.le_of_lt hlt⟩
  have hstop : (⟨n, k⟩ : Position) < d.stop := by
    have ha : d.Valid ⟨n, k + 1⟩ := ⟨hn, hlt⟩
    refine lt_of_lt_of_le ?_ (le_stop ha)
    simp [Position.lt_def]
  have hr : d.readAt ⟨n, k⟩ = c := by
    have hs : k < (d.line n).size := hlt
    rw [readAt_eq_getElem hs]
    simpa using he
  rw [← hr]
  exact h.readAt hv hstop

/-- Newlines are plain, so the lines decide. -/
theorem plain_iff : d.Plain ↔ ∀ l ∈ d.lines.toList, ∀ c ∈ l.toList, IsPlain c := by
  constructor
  · intro h l hl c hc
    obtain ⟨n, hn, rfl⟩ := List.mem_iff_getElem.1 hl
    have hline : d.line n = d.lines.toList[n] :=
      Option.some_inj.1 ((toList_getElem? hn).symm.trans (List.getElem?_eq_getElem hn))
    rw [← hline] at hc
    exact h.mem_line hc
  · intro h c hc
    rw [toList_text, List.mem_map] at hc
    obtain ⟨g, hg, rfl⟩ := hc
    obtain ⟨x, hx, -, -, rfl⟩ :=
      (mem_glyphs d.valid_stop d.valid_origin (Position.origin_le _)).1 hg
    rw [glyphAt_char]
    by_cases hs : x.column < d.lineLength x.line
    · have hc : d.readAt x ∈ (d.line x.line).toList := by
        have hcol : x.column < (d.line x.line).size := hs
        rw [readAt_eq_getElem hcol]
        simp
      exact h _ (List.mem_iff_getElem?.2 ⟨_, toList_getElem? hx.1⟩) _ hc
    · rw [readAt_of_lineLength_le (Nat.not_lt.1 hs)]
      decide

instance (d : Document) : Decidable d.Plain :=
  decidable_of_iff (d.lines.toList.all (·.toList.all fun c => decide (IsPlain c)) = true) <| by
    simp only [plain_iff, List.all_eq_true, decide_eq_true_eq]

def letter (d : Document) (p : Position) : Lexeme := ⟨.char (d.readAt p), p, d.after p⟩

@[simp] lemma letter_shape : (d.letter p).shape = .char (d.readAt p) := rfl
@[simp] lemma letter_start : (d.letter p).start = p := rfl
@[simp] lemma letter_stop : (d.letter p).stop = d.after p := rfl

/-- The characters between two positions as lexemes. -/
def row (d : Document) (p q : Position) : List Lexeme := (d.glyphs p q).map .ofGlyph

@[simp] lemma row_self : d.row p p = [] := by simp [row]

lemma row_cons (hq : d.Valid q) (h : p < q) : d.row p q = d.letter p :: d.row (d.after p) q := by
  rw [row, glyphs_cons hq h]
  rfl

lemma row_append (hp : d.Valid p) (hq : d.Valid q) (hr : d.Valid r) (h : p ≤ q) (h' : q ≤ r) :
    d.row p r = d.row p q ++ d.row q r := by
  rw [row, glyphs_append hp hq hr h h', List.map_append]
  rfl

lemma row_concat (hp : d.Valid p) (hq : d.Valid q) (h : p < q) :
    d.row p q = d.row p (d.prev q) ++ [d.letter (d.prev q)] := by
  rw [row, glyphs_concat hp hq h, List.map_append]
  rfl

lemma mem_row (hp : d.Valid p) (hq : d.Valid q) (h : p ≤ q) {l : Lexeme} :
    l ∈ d.row p q ↔ ∃ x, d.Valid x ∧ p ≤ x ∧ x < q ∧ l = d.letter x := by
  simp only [row, List.mem_map, mem_glyphs hq hp h]
  constructor
  · rintro ⟨g, ⟨x, hx, hle, hlt, rfl⟩, rfl⟩
    exact ⟨x, hx, hle, hlt, rfl⟩
  · rintro ⟨x, hx, hle, hlt, rfl⟩
    exact ⟨_, ⟨x, hx, hle, hlt, rfl⟩, rfl⟩

lemma bounds_of_mem_row (hp : d.Valid p) (hq : d.Valid q) (h : p ≤ q) {l : Lexeme}
    (hl : l ∈ d.row p q) : p ≤ l.start ∧ l.start < l.stop ∧ l.stop ≤ q := by
  obtain ⟨x, -, hle, hlt, rfl⟩ := (mem_row hp hq h).1 hl
  exact ⟨hle, d.lt_after x, after_le hq hlt⟩

def IsBrace (c : Char) : Prop := c = '{' ∨ c = '}'

lemma not_isBrace_of_isBlank {c : Char} (h : CharClass.isBlank c = true) : ¬ IsBrace c := by
  rintro (rfl | rfl)
  · exact absurd h (by decide)
  · exact absurd h (by decide)

lemma isDelimiter_of_isBrace {c : Char} (h : IsBrace c) : IsDelimiter c := by
  rcases h with h | h
  · exact .inl h
  · exact .inr (.inl h)

section Nest

variable {m n : Nat}

lemma nest_row_concat (hp : d.Valid p) (hq : d.Valid q) (h : p < q) :
    nest n (d.row p q) =
      (nest n (d.row p (d.prev q))).bind fun m => nest m [d.letter (d.prev q)] := by
  rw [row_concat hp hq h, nest_append]

lemma nest_letter_opening (h : d.readAt p = '{') : nest n [d.letter p] = some (n + 1) := by
  rw [nest_opening (by rw [letter_shape, h]), nest_nil]

lemma nest_letter_closing (h : d.readAt p = '}') : nest (n + 1) [d.letter p] = some n := by
  rw [nest_closing_succ (by rw [letter_shape, h]), nest_nil]

lemma nest_letter_other (h : ¬ IsBrace (d.readAt p)) : nest n [d.letter p] = some n := by
  rw [nest_other, nest_nil]
  · exact fun hs => h (.inl (by simpa using hs))
  · exact fun hs => h (.inr (by simpa using hs))

lemma of_nest_letter_eq_none (h : nest n [d.letter p] = none) : d.readAt p = '}' ∧ n = 0 := by
  by_cases hb : IsBrace (d.readAt p)
  · rcases hb with hb | hb
    · rw [nest_letter_opening hb] at h
      cases h
    · cases n with
      | zero => exact ⟨hb, rfl⟩
      | succ n =>
        rw [nest_letter_closing hb] at h
        cases h
  · rw [nest_letter_other hb] at h
    cases h

lemma nest_row_of_no_brace (hp : d.Valid p) (hq : d.Valid q) (hle : p ≤ q)
    (h : d.Throughout (¬ IsBrace ·) p q) : nest n (d.row p q) = some n := by
  refine nest_of_no_brace ?_ ?_ <;> intro l hl hs <;>
    obtain ⟨x, hx, hpx, hxq, rfl⟩ := (mem_row hp hq hle).1 hl
  · exact h x hx hpx hxq (.inl (by simpa using hs))
  · exact h x hx hpx hxq (.inr (by simpa using hs))

lemma exists_nest_row (hp : d.Valid p) (hq : d.Valid q) (hle : p ≤ q)
    (h : d.Throughout (· ≠ '}') p q) : ∃ k, nest n (d.row p q) = some (n + k) := by
  refine nest_of_no_closing fun l hl hs => ?_
  obtain ⟨x, hx, hpx, hxq, rfl⟩ := (mem_row hp hq hle).1 hl
  exact h x hx hpx hxq (by simpa using hs)

lemma exists_nest_row_of_le (hp : d.Valid p) (hq : d.Valid q) (hr : d.Valid r) (h : p ≤ q)
    (h' : q ≤ r) (hn : nest n (d.row p r) = some m) : ∃ k, nest n (d.row p q) = some k := by
  rw [row_append hp hq hr h h', nest_append] at hn
  obtain ⟨k, hk, -⟩ := Option.bind_eq_some_iff.1 hn
  exact ⟨k, hk⟩

end Nest

lemma Plain.lexemes (h : d.Plain) (hp : d.Valid p) (hq : d.Valid q) (hle : p ≤ q)
    (lineComments : Bool) : Sheet.lexemes lineComments (d.glyphs p q) = (d.row p q, none) := by
  refine lexemes_of_isPlain fun g hg => ?_
  obtain ⟨x, hx, -, hlt, rfl⟩ := (mem_glyphs hq hp hle).1 hg
  exact h.readAt hx (lt_of_lt_of_le hlt (le_stop hq))

/-- The tree of a window, and when there is one. -/
theorem Plain.parse_within (h : d.Plain) (hp : d.Valid p) (hq : d.Valid q) (hle : p ≤ q)
    (dialect : Dialect) {t : Tree} :
    (Sheet.parse (Cursor.within d p ⟨p, q, hle⟩) dialect).toOption = some t ↔
      ∃ r, Reading.run d .start (d.row p q) = .ok r ∧ r.finish d ⟨p, q, hle⟩ q = t := by
  let c := Cursor.within d p ⟨p, q, hle⟩
  have hls : Sheet.lexemes dialect.hasLineComments (c.document.glyphs c.position c.window.stop) =
      (d.row p q, none) := h.lexemes hp hq hle _
  have hstop : (if c.atEnd then c.position else c.window.stop) = q := by
    split_ifs with he
    · exact le_antisymm hle (of_decide_eq_true he)
    · rfl
  rw [toOption_eq_some, Sheet.parse_eq_ok_iff, hls, hstop]
  constructor
  · rintro ⟨_, r, he, hr, ht⟩
    cases he
    exact ⟨r, hr, ht⟩
  · rintro ⟨r, hr, ht⟩
    exact ⟨_, r, rfl, hr, ht⟩

theorem Plain.parse?_eq_some_iff (h : d.Plain) {dialect : Dialect} (hs : dialect.isStylesheet = true)
    {t : Tree} : d.parse? dialect = some t ↔
      ∃ r, Reading.run d .start (d.row .origin d.stop) = .ok r ∧ r.finish d d.span d.stop = t := by
  unfold parse? Cursor.parse
  rw [if_pos hs]
  exact h.parse_within d.valid_origin d.valid_stop (Position.origin_le _) dialect

end Document

namespace Sheet.Reading

variable {d : Document} {p q m : Position} {r s t : Reading}

lemma run_row_split (hp : d.Valid p) (hm : d.Valid m) (hq : d.Valid q) (h : p ≤ m) (h' : m ≤ q) :
    run d r (d.row p q) = .ok t ↔
      ∃ s, run d r (d.row p m) = .ok s ∧ run d s (d.row m q) = .ok t := by
  rw [Document.row_append hp hm hq h h', run_append]

lemma run_row_concat (hp : d.Valid p) (hq : d.Valid q) (h : p < q) :
    run d r (d.row p q) = .ok t ↔
      ∃ s, run d r (d.row p (d.prev q)) = .ok s ∧ Step d s (d.letter (d.prev q)) t := by
  rw [Document.row_concat hp hq h, run_concat]

lemma run_row_cons (hq : d.Valid q) (h : p < q) :
    run d r (d.row p q) = .ok t ↔
      ∃ s, Step d r (d.letter p) s ∧ run d s (d.row (d.after p) q) = .ok t := by
  rw [Document.row_cons hq h, run_cons]

lemma run_row_within (hp : d.Valid p) (hq : d.Valid q) (h : p ≤ q)
    (hr : run d .start (d.row p q) = .ok r) : Within q r := by
  refine run_within hr (.start q) fun l hl => ?_
  obtain ⟨-, h2, h3⟩ := Document.bounds_of_mem_row hp hq h hl
  exact ⟨le_of_lt (lt_of_lt_of_le h2 h3), h3⟩

lemma run_row_comments (hp : d.Valid p) (hq : d.Valid q) (h : p ≤ q)
    (hr : run d r (d.row p q) = .ok s) : s.comments = r.comments := by
  induction p, hp, h using Document.forward_induction hq generalizing r with
  | base =>
    rw [Document.row_self] at hr
    cases hr
    rfl
  | step p _ hlt _ _ ih =>
    obtain ⟨a, ha, hls⟩ := (run_row_cons hq hlt).1 hr
    rw [ih hls]
    cases ha with
    | comment hs => cases hs
    | opening => rfl
    | closing => simp [afterClosing]
    | semicolon => simp
    | other => exact addToPrelude_comments

lemma nest_row_of_run (hr : run d .start (d.row p q) = .ok r) :
    nest 0 (d.row p q) = some r.depth := run_nest hr

lemma exists_run_row {n : Nat} (h : nest 0 (d.row p q) = some n) :
    ∃ r, run d .start (d.row p q) = .ok r ∧ r.depth = n := by
  obtain ⟨r, hr⟩ := exists_run (r := .start) h
  exact ⟨r, hr, Option.some_inj.1 ((nest_row_of_run hr).symm.trans h)⟩

end Sheet.Reading
end AbbrevSite
