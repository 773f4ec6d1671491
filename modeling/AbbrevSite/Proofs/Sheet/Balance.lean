import AbbrevSite.Proofs.Sheet.Comments
import AbbrevSite.Proofs.Sheet.Roots
import AbbrevSite.Proofs.Sheet.Tiling
import Mathlib

/-! Which windows can be read as a stylesheet. A window is a row of words, and it can be read exactly if every
word ends and no front part of the row has more closing braces than opening ones. Otherwise the failure
is the first one in the text. -/
namespace AbbrevSite.Sheet

open Document

variable {d : Document} {lineComments : Bool} {a b : Position} {ls : List Lexeme}

abbrev ShapedText := Shape × List Char

/-- A text that starts with a row of words, and what follows them. -/
inductive Words (lineComments : Bool) : List Char → List ShapedText → List Char → Prop
  | nil (cs : List Char) : Words lineComments cs [] cs
  | cons {shape : Shape} {text rest after : List Char} {ws : List ShapedText}
      (first : Word lineComments shape text rest) (others : Words lineComments rest ws after) :
      Words lineComments (text ++ rest) ((shape, text) :: ws) after

/-- No front part of a row has more closing braces than opening ones. -/
def NeverOverclosed (shapes : List Shape) : Prop :=
  ∀ front, front <+: shapes → front.count (.char '}') ≤ front.count (.char '{')

def extent (ws : List ShapedText) : Nat := (ws.map (·.2.length)).sum

@[simp] lemma extent_cons (w : ShapedText) (ws : List ShapedText) :
    extent (w :: ws) = w.2.length + extent ws := by simp [extent]

lemma Word.ne_nil {shape : Shape} {text after : List Char} (h : Word lineComments shape text after) :
    text ≠ [] := by
  cases h with
  | string htext =>
    obtain ⟨quote, body, last, -, -, -, rfl⟩ := htext
    exact List.cons_ne_nil _ _
  | _ => exact List.cons_ne_nil _ _

/-- A row of words as lexemes of a document, the first of them at an offset. -/
def placed (d : Document) : Nat → List ShapedText → List Lexeme
  | _, [] => []
  | n, w :: ws =>
    ⟨w.1, d.positionAt n, d.positionAt (n + w.2.length)⟩ :: placed d (n + w.2.length) ws

@[simp] lemma map_shape_placed (n : Nat) (ws : List ShapedText) :
    (placed d n ws).map (·.shape) = ws.map (·.1) := by
  induction ws generalizing n with
  | nil => rfl
  | cons w ws ih => simp [placed, ih]

lemma offsetAt_add_length_chars (ha : d.Valid a) (hb : d.Valid b) (h : a ≤ b) :
    d.offsetAt a + (chars (d.glyphs a b)).length = d.offsetAt b := by
  rw [chars, List.length_map]
  exact offsetAt_add_length_glyphs ha hb h

lemma Reads.exists_words {rest : List Glyph} (h : Reads lineComments (d.glyphs a b) ls rest)
    (ha : d.Valid a) (hb : d.Valid b) (hab : a ≤ b) :
    ∃ ws x, Words lineComments (chars (d.glyphs a b)) ws (chars rest) ∧
      ls = placed d (d.offsetAt a) ws ∧ d.Valid x ∧ a ≤ x ∧ x ≤ b ∧ rest = d.glyphs x b ∧
      d.offsetAt a + extent ws = d.offsetAt x := by
  generalize hgs : d.glyphs a b = gs at h
  induction h generalizing a with
  | done gs => exact ⟨[], a, .nil _, rfl, ha, le_refl a, hab, hgs.symm, rfl⟩
  | @next g gs mid rest l ls first others ih =>
    have hwhole := hgs
    obtain ⟨hlt, rfl, rfl⟩ := of_glyphs_eq_cons hb hgs
    obtain ⟨rfl, hv, hxl, hlb, rfl, hword⟩ := lexeme_place first ha hb hlt
    obtain ⟨ws, x, hws, hls, hx, hlx, hxb, hrest, hoff⟩ := ih hv hlb rfl
    have hlen := offsetAt_add_length_chars ha hv (le_of_lt hxl)
    refine ⟨(l.shape, chars (d.glyphs l.start l.stop)) :: ws, x, ?_, ?_, hx,
      (le_of_lt hxl).trans hlx, hxb, hrest, ?_⟩
    · rw [← hwhole, glyphs_append ha hv hb (le_of_lt hxl) hlb, chars_append]
      exact .cons hword hws
    · rw [placed, hlen, positionAt_offsetAt ha, positionAt_offsetAt hv, ← hls]
    · rw [← hoff, ← hlen, extent_cons, Nat.add_assoc]

/-- A row of words that a window starts with is what is read of it. -/
lemma Words.reads {ws : List ShapedText} {cs : List Char}
    (h : Words lineComments (chars (d.glyphs a b)) ws cs) (ha : d.Valid a) (hb : d.Valid b)
    (hab : a ≤ b) :
    ∃ x, d.Valid x ∧ a ≤ x ∧ x ≤ b ∧ cs = chars (d.glyphs x b) ∧
      Reads lineComments (d.glyphs a b) (placed d (d.offsetAt a) ws) (d.glyphs x b) ∧
      d.offsetAt a + extent ws = d.offsetAt x := by
  generalize hcs : chars (d.glyphs a b) = all at h
  induction h generalizing a with
  | nil => exact ⟨a, ha, le_refl a, hab, hcs.symm, .done _, rfl⟩
  | @cons shape text rest after ws first others ih =>
    obtain ⟨hs, ks, hsplit, rfl, rfl⟩ := chars_eq_append_iff.1 hcs
    obtain ⟨q, hq, haq, hqb, rfl, rfl⟩ := exists_glyphs_split ha hb hab hsplit
    have hlt : a < q := lt_of_glyphs_ne_nil fun hnil => first.ne_nil (chars_eq_nil_iff.2 hnil)
    have hv := valid_after ha (lt_of_lt_of_le hlt (le_stop hq))
    have hread := first
    rw [glyphs_cons hq hlt] at hread
    have hlex := lexeme_of_word hread
    rw [← glyphs_append hv hq hb (after_le hq hlt) hqb, glyphAt_stop,
      endOf_glyphs hv hq (after_le hq hlt)] at hlex
    obtain ⟨x, hx, hqx, hxb, hafter, hreads, hoff⟩ := ih hq hqb rfl
    have hlen := offsetAt_add_length_chars ha hq haq
    refine ⟨x, hx, haq.trans hqx, hxb, hafter, ?_, ?_⟩
    · rw [placed, hlen, positionAt_offsetAt ha, positionAt_offsetAt hq,
        glyphs_cons hb (hlt.trans_le hqb)]
      exact .next hlex hreads
    · rw [← hoff, ← hlen, extent_cons, Nat.add_assoc]

section Nest

variable {m n : Nat} {l : Lexeme}

/-- What is open after a row is what it opens less what it closes. -/
lemma nest_count (h : nest n ls = some m) :
    m + (ls.map (·.shape)).count (.char '}') = n + (ls.map (·.shape)).count (.char '{') := by
  induction ls generalizing n with
  | nil =>
    cases h
    rfl
  | cons l ls ih =>
    by_cases ho : l.shape = .char '{'
    · rw [nest_opening ho] at h
      have := ih h
      simp [ho]
      omega
    · by_cases hc : l.shape = .char '}'
      · cases n with
        | zero =>
          rw [nest_closing_zero hc] at h
          cases h
        | succ n =>
          rw [nest_closing_succ hc] at h
          have := ih h
          simp [hc]
          omega
      · rw [nest_other ho hc] at h
        simpa [ho, hc] using ih h

lemma forall_prefix_cons {α : Type} {P : List α → Prop} {x : α} {xs : List α} :
    (∀ front, front <+: x :: xs → P front) ↔ P [] ∧ ∀ front, front <+: xs → P (x :: front) := by
  constructor
  · exact fun h => ⟨h [] List.nil_prefix, fun front hf => h _ (List.cons_prefix_cons.2 ⟨rfl, hf⟩)⟩
  · rintro ⟨hnil, hcons⟩ front hf
    cases front with
    | nil => exact hnil
    | cons y front =>
      obtain ⟨rfl, hfront⟩ := List.cons_prefix_cons.1 hf
      exact hcons front hfront

/-- A row can be nested if no front part of it closes more than is open. -/
lemma exists_nest_iff : (∃ m, nest n ls = some m) ↔ ∀ front, front <+: ls.map (·.shape) →
    front.count (.char '}') ≤ n + front.count (.char '{') := by
  induction ls generalizing n with
  | nil => simp [List.prefix_nil]
  | cons l ls ih =>
    rw [List.map_cons, forall_prefix_cons]
    by_cases ho : l.shape = .char '{'
    · rw [nest_opening ho, ih]
      simp [ho, Nat.add_assoc, Nat.add_comm 1]
    · by_cases hc : l.shape = .char '}'
      · cases n with
        | zero =>
          rw [nest_closing_zero hc]
          simp only [reduceCtorEq, exists_false, false_iff, not_and, not_forall]
          exact fun _ => ⟨[], List.nil_prefix, by simp [hc]⟩
        | succ n =>
          rw [nest_closing_succ hc, ih]
          simp only [hc, List.count_nil, Nat.zero_le, true_and, List.count_cons_self]
          refine forall_congr' fun front => imp_congr_right fun _ => ?_
          simp
          omega
      · rw [nest_other ho hc, ih]
        simp [ho, hc]

lemma exists_nest_zero_iff :
    (∃ m, nest 0 ls = some m) ↔ NeverOverclosed (ls.map (·.shape)) := by
  rw [exists_nest_iff]
  simp only [Nat.zero_add]
  rfl

end Nest

namespace Reading

variable {r : Reading} {failure : Failure}

lemma run_cons_eq (l : Lexeme) (ls : List Lexeme) :
    run d r (l :: ls) = step d r l >>= fun s => run d s ls := rfl

lemma step_eq_error_iff {l : Lexeme} : step d r l = .error failure ↔
    l.shape = .char '}' ∧ r.depth = 0 ∧
      failure = .malformed Fault.strayBrace.complaint l.start := by
  by_cases hc : l.shape = .char '}'
  · have hs : step d r l = r.closeBlock d l := by simp [step, hc]
    by_cases hn : r.builder.enclosing = []
    · rw [hs, closeBlock_of_nil hn]
      simp [hc, depth, hn, eq_comm]
    · rw [hs, closeBlock_of_ne_nil hn]
      simp [depth, hn]
  · unfold step
    split <;> simp_all

/-- A run fails at the first brace that closes nothing. -/
theorem run_eq_error_iff : run d r ls = .error failure ↔
    ∃ front l back, ls = front ++ l :: back ∧ nest r.depth front = some 0 ∧
      l.shape = .char '}' ∧ failure = .malformed Fault.strayBrace.complaint l.start := by
  induction ls generalizing r with
  | nil => simp
  | cons l ls ih =>
    rw [run_cons_eq]
    cases hs : step d r l with
    | error failure' =>
      obtain ⟨hc, hd, rfl⟩ := step_eq_error_iff.1 hs
      show Except.error _ = Except.error _ ↔ _
      rw [Except.error.injEq]
      constructor
      · rintro rfl
        exact ⟨[], l, ls, rfl, by rw [hd, nest_nil], hc, rfl⟩
      · rintro ⟨front, l', back, hls, hn, -, rfl⟩
        cases front with
        | nil =>
          obtain ⟨rfl, -⟩ := List.cons.inj hls
          rfl
        | cons k front =>
          obtain ⟨rfl, -⟩ := List.cons.inj hls
          rw [hd, nest_closing_zero hc] at hn
          cases hn
    | ok s =>
      have hnest := (step_iff.1 hs).nest
      show run d s ls = .error failure ↔ _
      rw [ih]
      constructor
      · rintro ⟨front, l', back, rfl, hn, hc, hf⟩
        refine ⟨l :: front, l', back, rfl, ?_, hc, hf⟩
        rw [← List.singleton_append, nest_append_of hnest, hn]
      · rintro ⟨front, l', back, hls, hn, hc, hf⟩
        cases front with
        | nil =>
          obtain ⟨rfl, -⟩ := List.cons.inj hls
          rw [nest_nil, Option.some.injEq] at hn
          rw [hn, nest_closing_zero hc] at hnest
          cases hnest
        | cons k front =>
          obtain ⟨rfl, rfl⟩ := List.cons.inj hls
          rw [← List.singleton_append, nest_append_of hnest] at hn
          exact ⟨front, l', back, rfl, hn, hc, hf⟩

lemma exists_run_placed_iff (d : Document) (n : Nat) {ws : List ShapedText} :
    (∃ r, run d .start (placed d n ws) = .ok r) ↔ NeverOverclosed (ws.map (·.1)) := by
  rw [← map_shape_placed (d := d) n, ← exists_nest_zero_iff]
  constructor
  · rintro ⟨r, hr⟩
    exact ⟨_, run_nest hr⟩
  · rintro ⟨m, hm⟩
    exact exists_run hm

end Reading

/-- The fault that stands first in a window, and where it is met: a brace that closes nothing at the brace, a
comment or string without an end at the end of the window. -/
inductive FirstFault (d : Document) (lineComments : Bool) (window : Span) : Fault → Position → Prop
  | strayBrace {ws : List ShapedText} {rest : List Char}
      (read : Words lineComments (d.charsBetween window.start window.stop) ws ('}' :: rest))
      (balanced : NeverOverclosed (ws.map (·.1)))
      (allClosed : (ws.map (·.1)).count (.char '}') = (ws.map (·.1)).count (.char '{')) :
      FirstFault d lineComments window .strayBrace
        (d.positionAt (d.offsetAt window.start + extent ws))
  | unended {fault : Fault} {ws : List ShapedText} {rest : List Char}
      (read : Words lineComments (d.charsBetween window.start window.stop) ws rest)
      (balanced : NeverOverclosed (ws.map (·.1))) (unended : Unended fault rest) :
      FirstFault d lineComments window fault window.stop

section Window

variable {window : Span} {dialect : Dialect}

lemma stop_within (d : Document) (window : Span) :
    (if (Cursor.within d window.start window).atEnd then window.start else window.stop) = window.stop := by
  split_ifs with h
  · exact le_antisymm window.ordered (of_decide_eq_true h)
  · rfl

lemma parse_within_eq (d : Document) (window : Span) (dialect : Dialect) :
    parse (Cursor.within d window.start window) dialect =
      match Reading.run d .start
          (lexemes dialect.hasLineComments (d.glyphs window.start window.stop)).1 with
      | .error failure => .error failure
      | .ok r =>
        match (lexemes dialect.hasLineComments (d.glyphs window.start window.stop)).2 with
        | some fault => .error (.malformed fault.complaint window.stop)
        | none => .ok (r.finish d window window.stop) := by
  have hstop := stop_within d window
  rw [parse_eq_parseLexemes, parseLexemes, Reading.readLexemes]
  show (match Reading.run d .start
          (lexemes dialect.hasLineComments (d.glyphs window.start window.stop)).1 with
      | .error failure => _
      | .ok r => _) = _
  rw [show (Cursor.within d window.start window).position = window.start from rfl,
    show (Cursor.within d window.start window).window = window from rfl, hstop]
  rfl

lemma parse_within_eq_ok {t : Tree} : parse (Cursor.within d window.start window) dialect = .ok t ↔
    ∃ ls r, lexemes dialect.hasLineComments (d.glyphs window.start window.stop) = (ls, none) ∧
      Reading.run d .start ls = .ok r ∧ r.finish d window window.stop = t := by
  have hstop := stop_within d window
  rw [parse_eq_ok_iff]
  simp only [Cursor.within] at hstop ⊢
  rw [hstop]

variable (ha : d.Valid window.start) (hb : d.Valid window.stop)
include ha hb

/-- The lexemes of a window as words, up to a fault or to the end. -/
lemma exists_words_lexemes (lineComments : Bool) :
    ∃ ws x, (lexemes lineComments (d.glyphs window.start window.stop)).1 =
        placed d (d.offsetAt window.start) ws ∧
      Words lineComments (d.charsBetween window.start window.stop) ws
        (chars (d.glyphs x window.stop)) ∧
      d.Valid x ∧ x ≤ window.stop ∧
      ((lexemes lineComments (d.glyphs window.start window.stop)).2 = none → x = window.stop) ∧
      ∀ fault, (lexemes lineComments (d.glyphs window.start window.stop)).2 = some fault →
        Unended fault (chars (d.glyphs x window.stop)) := by
  obtain ⟨rest, hread, hrest⟩ := reads_lexemes lineComments (d.glyphs window.start window.stop)
  obtain ⟨ws, x, hws, hls, hx, -, hxb, rfl, -⟩ := hread.exists_words ha hb window.ordered
  rw [chars, map_char_glyphs ha hb window.ordered] at hws
  refine ⟨ws, x, hls, hws, hx, hxb, ?_⟩
  rw [lexemes_of_reads hread]
  rcases lt_or_eq_of_le hxb with hlt | rfl
  · have hcons := glyphs_cons hb hlt
    cases hl : lexeme lineComments (d.glyphAt x) (d.glyphs (d.after x) window.stop) with
    | error fault =>
      rw [hcons, lexemes_fault hl]
      refine ⟨nofun, fun fault' h => ?_⟩
      cases h
      exact lexeme_eq_error_iff.1 hl
    | ok read =>
      obtain ⟨l, rest⟩ := read
      rw [hcons, lexemes_cons hl] at hrest
      cases hrest
  · rw [glyphs_self, lexemes_nil]
    exact ⟨fun _ => rfl, nofun⟩

lemma lexemes_of_words {ws : List ShapedText} {rest : List Char}
    (h : Words lineComments (d.charsBetween window.start window.stop) ws rest) :
    ∃ x, d.Valid x ∧ x ≤ window.stop ∧ rest = chars (d.glyphs x window.stop) ∧
      d.offsetAt window.start + extent ws = d.offsetAt x ∧
      lexemes lineComments (d.glyphs window.start window.stop) =
        (placed d (d.offsetAt window.start) ws ++ (lexemes lineComments (d.glyphs x window.stop)).1,
          (lexemes lineComments (d.glyphs x window.stop)).2) := by
  rw [← map_char_glyphs ha hb window.ordered] at h
  obtain ⟨x, hx, -, hxb, hrest, hread, hoff⟩ := h.reads ha hb window.ordered
  exact ⟨x, hx, hxb, hrest, hoff, lexemes_of_reads hread⟩

lemma lexemes_of_all_words {ws : List ShapedText}
    (h : Words lineComments (d.charsBetween window.start window.stop) ws []) :
    lexemes lineComments (d.glyphs window.start window.stop) =
      (placed d (d.offsetAt window.start) ws, none) := by
  obtain ⟨x, -, -, hrest, -, heq⟩ := lexemes_of_words ha hb h
  rw [heq, chars_eq_nil_iff.1 hrest.symm, lexemes_nil, List.append_nil]

lemma parse_within_ok_iff :
    (∃ t, parse (Cursor.within d window.start window) dialect = .ok t) ↔
      ∃ ws, Words dialect.hasLineComments (d.charsBetween window.start window.stop) ws [] ∧
        NeverOverclosed (ws.map (·.1)) := by
  constructor
  · rintro ⟨t, ht⟩
    obtain ⟨ws, x, hls, hws, -, -, hend, -⟩ :=
      exists_words_lexemes ha hb dialect.hasLineComments
    obtain ⟨ls, r, hlex, hr, -⟩ := parse_eq_ok_iff.1 ht
    have hlex' : lexemes dialect.hasLineComments (d.glyphs window.start window.stop) = (ls, none) := hlex
    rw [hlex'] at hls hend
    obtain rfl := hend rfl
    have hls : ls = placed d (d.offsetAt window.start) ws := hls
    rw [glyphs_self, chars_nil] at hws
    exact ⟨ws, hws, (Reading.exists_run_placed_iff d _).1 ⟨r, hls ▸ hr⟩⟩
  · rintro ⟨ws, hws, hbal⟩
    have hlex := lexemes_of_all_words ha hb hws
    obtain ⟨r, hr⟩ := (Reading.exists_run_placed_iff d (d.offsetAt window.start)).2 hbal
    rw [parse_within_eq, hlex]
    simp only [hr]
    exact ⟨_, rfl⟩

omit ha in
lemma start_eq_of_first {x : Position} {l : Lexeme} {ls : List Lexeme} {c : Char} (hx : d.Valid x)
    (h : (lexemes lineComments (d.glyphs x window.stop)).1 = l :: ls) (hc : l.shape = .char c) :
    l.start = x ∧ chars (d.glyphs x window.stop) = c :: chars (d.glyphs (d.after x) window.stop) := by
  obtain ⟨hlt, rest, hl, -⟩ := lexeme_of_lexemes hb h
  obtain ⟨hstart, hv, hxl, -, -, hword⟩ := lexeme_place hl hx hb hlt
  rw [hc] at hword
  refine ⟨hstart, ?_⟩
  rw [glyphs_cons hb hlt, chars_cons, glyphAt_char, (char_of_word hx hv hxl (word_char hword)).1]

lemma exists_strayBrace {failure : Failure}
    (h : Reading.run d .start (lexemes lineComments (d.glyphs window.start window.stop)).1 = .error failure) :
    ∃ p, FirstFault d lineComments window .strayBrace p ∧
      failure = .malformed Fault.strayBrace.complaint p := by
  obtain ⟨front, l, back, hls, hn, hc, rfl⟩ := Reading.run_eq_error_iff.1 h
  obtain ⟨rest, hread, hrest⟩ := reads_of_lexemes hls
  obtain ⟨ws, x, hws, rfl, hx, -, hxb, rfl, hoff⟩ := hread.exists_words ha hb window.ordered
  obtain ⟨hstart, hchars⟩ := start_eq_of_first hb hx hrest hc
  rw [hchars, chars, map_char_glyphs ha hb window.ordered] at hws
  have hcount := nest_count hn
  have hbal := exists_nest_zero_iff.1 ⟨0, hn⟩
  rw [map_shape_placed] at hcount hbal
  have hfault := FirstFault.strayBrace hws hbal
    (by simpa [Reading.depth, Reading.start, Builder.start] using hcount)
  rw [hoff, positionAt_offsetAt hx, ← hstart] at hfault
  exact ⟨_, hfault, rfl⟩

lemma exists_firstFault {failure : Failure}
    (h : parse (Cursor.within d window.start window) dialect = .error failure) :
    ∃ fault p, FirstFault d dialect.hasLineComments window fault p ∧
      failure = .malformed fault.complaint p := by
  rw [parse_within_eq] at h
  cases hr : Reading.run d .start
      (lexemes dialect.hasLineComments (d.glyphs window.start window.stop)).1 with
  | error failure' =>
    rw [hr] at h
    cases h
    exact ⟨_, exists_strayBrace ha hb hr⟩
  | ok r =>
    rw [hr] at h
    obtain ⟨ws, x, hls, hws, -, -, -, hfault⟩ := exists_words_lexemes ha hb dialect.hasLineComments
    cases hf : (lexemes dialect.hasLineComments (d.glyphs window.start window.stop)).2 with
    | none =>
      rw [hf] at h
      cases h
    | some fault =>
      rw [hf] at h
      cases h
      rw [hls] at hr
      exact ⟨fault, _, .unended hws ((Reading.exists_run_placed_iff d _).1 ⟨r, hr⟩) (hfault fault hf), rfl⟩

lemma parse_of_firstFault {fault : Fault} {p : Position}
    (h : FirstFault d dialect.hasLineComments window fault p) :
    parse (Cursor.within d window.start window) dialect = .error (.malformed fault.complaint p) := by
  rw [parse_within_eq]
  cases h with
  | @strayBrace ws rest read balanced allClosed =>
    obtain ⟨x, hx, hxb, hrest, hoff, hlex⟩ := lexemes_of_words ha hb read
    have hlt : x < window.stop := lt_of_glyphs_ne_nil (d := d) fun hnil => by simp [hnil] at hrest
    rw [glyphs_cons hb hlt, chars_cons, List.cons.injEq, glyphAt_char] at hrest
    have hplain : IsPlain (d.glyphAt x).char := by
      rw [glyphAt_char, ← hrest.1]
      decide
    rw [glyphs_cons hb hlt, lexemes_cons (lexeme_of_isPlain _ hplain)] at hlex
    rw [← map_shape_placed (d := d) (d.offsetAt window.start)] at balanced allClosed
    obtain ⟨m, hm⟩ := exists_nest_zero_iff.2 balanced
    have hcount := nest_count hm
    obtain rfl : m = 0 := by omega
    have hrun := Reading.run_eq_error_iff (d := d) (r := .start).2
      ⟨_, .ofGlyph (d.glyphAt x), _, congrArg Prod.fst hlex, hm, by simp [Lexeme.ofGlyph, ← hrest.1], rfl⟩
    rw [hrun, hoff, positionAt_offsetAt hx]
    rfl
  | @unended _ ws rest read balanced unended =>
    obtain ⟨x, hx, hxb, hrest, hoff, hlex⟩ := lexemes_of_words ha hb read
    have hlt : x < window.stop := lt_of_glyphs_ne_nil (d := d) fun hnil => by
      rw [hnil, chars_nil] at hrest
      subst hrest
      cases unended with
      | string h => simp [OpenString] at h
    rw [glyphs_cons hb hlt] at hrest
    rw [hrest] at unended
    rw [glyphs_cons hb hlt, lexemes_fault (lexeme_eq_error_iff.2 unended), List.append_nil] at hlex
    obtain ⟨r, hr⟩ := (Reading.exists_run_placed_iff d (d.offsetAt window.start)).2 balanced
    rw [hlex]
    simp only [hr]

/-- A window can be read exactly if it is a row of words in which no brace closes nothing; the words are then
its lexemes, and its tree records the comments among them and has a block for each opening brace. If it
cannot be read, the failure is the fault that stands first. -/
theorem parse_within_iff :
    ((∃ t, parse (Cursor.within d window.start window) dialect = .ok t) ↔
      ∃ ws, Words dialect.hasLineComments (d.charsBetween window.start window.stop) ws [] ∧
        NeverOverclosed (ws.map (·.1))) ∧
    (∀ failure, parse (Cursor.within d window.start window) dialect = .error failure ↔
      ∃ fault p, FirstFault d dialect.hasLineComments window fault p ∧
        failure = .malformed fault.complaint p) ∧
    ∀ t ws, parse (Cursor.within d window.start window) dialect = .ok t →
      Words dialect.hasLineComments (d.charsBetween window.start window.stop) ws [] →
      t.comments = (placed d (d.offsetAt window.start) ws).filterMap Lexeme.comment? ∧
        t.forest.blocks = (ws.map (·.1)).count (.char '{') := by
  refine ⟨parse_within_ok_iff ha hb, fun failure => ⟨exists_firstFault ha hb, ?_⟩, ?_⟩
  · rintro ⟨fault, p, hfault, rfl⟩
    exact parse_of_firstFault ha hb hfault
  · intro t ws ht hws
    have hlex := lexemes_of_all_words ha hb hws
    refine ⟨?_, ?_⟩
    · have hcomments := (parse_comments ht).2
      rw [hcomments]
      exact congrArg (fun read => read.1.filterMap Lexeme.comment?) hlex
    · obtain ⟨ls, r, hls, hr, rfl⟩ := parse_eq_ok_iff.1 ht
      obtain ⟨rfl, -⟩ := Prod.mk.inj (hls.symm.trans hlex)
      rw [Reading.finish_forest, Reading.forestAt, Reading.endStatement_blocks, Reading.run_blocks hr,
        ← map_shape_placed (d := d) (d.offsetAt window.start), List.count, List.countP_map]
      simp [Reading.start, Builder.start, Builder.closedAt, Forest.inside, Forest.ofReversed,
        Function.comp_def, beq_eq_decide]

end Window

/-- In `}a{/*}*/b:"}"(}`, read from behind the first brace on, the braces of the comment, the string and the
group count for nothing, and the block is still open at the end. -/
theorem parse_within_unclosed_group :
    let d := Document.ofText "css" "\x7da\x7b/*\x7d*/b:\"\x7d\"(\x7d"
    let window : Span := ⟨⟨0, 1⟩, ⟨0, 15⟩, by decide⟩
    d.Valid window.start ∧ d.Valid window.stop ∧ ∃ t ws,
      parse (Cursor.within d window.start window) .css = .ok t ∧
        Words false (d.charsBetween window.start window.stop) ws [] ∧
        NeverOverclosed (ws.map (·.1)) ∧
        t.comments = (placed d (d.offsetAt window.start) ws).filterMap Lexeme.comment? ∧
        t.forest.blocks = (ws.map (·.1)).count (.char '{') := by
  intro d window
  have ha : d.Valid window.start := by decide
  have hb : d.Valid window.stop := by decide
  have hread : (parse (Cursor.within d window.start window) .css).toOption.isSome = true := by
    rw [parse_eq_parseLexemes]
    cbv
  obtain ⟨t, ht⟩ := Option.isSome_iff_exists.1 hread
  have ht := toOption_eq_some.1 ht
  obtain ⟨ws, hws, hbal⟩ := (parse_within_iff ha hb).1.1 ⟨t, ht⟩
  obtain ⟨hcomments, hblocks⟩ := (parse_within_iff ha hb).2.2 t ws ht hws
  exact ⟨ha, hb, t, ws, ht, hws, hbal, hcomments, hblocks⟩

end AbbrevSite.Sheet
