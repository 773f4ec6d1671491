import AbbrevSite.Proofs.Sheet.Comments
import AbbrevSite.Proofs.Sheet.Tiling
import AbbrevSite.Proofs.Text.Offsets
import AbbrevSite.Proofs.Tree.Tokens

/-! The tokens of a statement. A prelude knows its places in the order in which they stand in the text, so the
tokens made of it stand in order, each with its own text; behind its last significant lexeme nothing stands but
blanks and comments. -/
namespace AbbrevSite.Sheet

open Document

variable {d : Document} {comments : List Span} {a b x y : Position} {l m : Lexeme} {ls : List Lexeme}
  {p : Prelude}

/-- Blanks, semicolons and comments, all a stylesheet has outside its trees. -/
def Filler (d : Document) (comments : List Span) (a b : Position) : Prop :=
  a ≤ b ∧ ∀ x, d.Valid x → a ≤ x → x < b →
    CharClass.isBlank (d.readAt x) = true ∨ d.readAt x = ';' ∨ ∃ s ∈ comments, s.start ≤ x ∧ x < s.stop

/-- A place inside no comment; it may be an end of one. -/
def Clear (comments : List Span) (x : Position) : Prop := ∀ s ∈ comments, x ≤ s.start ∨ s.stop ≤ x

lemma filler_self (x : Position) : Filler d comments x x := ⟨le_refl x, fun _ _ h h' => absurd h (not_le_of_gt h')⟩

lemma Filler.trans (h : Filler d comments a x) (h' : Filler d comments x b) : Filler d comments a b := by
  refine ⟨h.1.trans h'.1, fun z hz haz hzb => ?_⟩
  rcases lt_or_ge z x with hlt | hge
  · exact h.2 z hz haz hlt
  · exact h'.2 z hz hge hzb

/-- A lexeme at its place: a character is the one that stands there, a comment is among the comments, and no
comment goes on over an end of it. -/
structure Lexeme.Stands (d : Document) (comments : List Span) (l : Lexeme) : Prop where
  valid : d.Valid l.start
  lt : l.start < l.stop
  char {c : Char} (h : l.shape = .char c) : d.readAt l.start = c ∧ l.stop = d.after l.start
  recorded (h : l.shape = .comment) : .between l.start l.stop ∈ comments
  clear_start : Clear comments l.start
  clear_stop : Clear comments l.stop

namespace Lexeme.Stands

lemma filler_char (h : l.Stands d comments) {c : Char} (hs : l.shape = .char c)
    (hc : CharClass.isBlank c = true ∨ c = ';') : Filler d comments l.start l.stop := by
  obtain ⟨hr, hl⟩ := h.char hs
  refine ⟨le_of_lt h.lt, fun z hz hle hlt => ?_⟩
  obtain rfl : l.start = z := by
    refine le_antisymm hle (not_lt.1 fun hsz => ?_)
    have := after_le hz hsz
    rw [hl] at hlt
    exact absurd hlt (not_lt_of_ge this)
  rw [hr]
  rcases hc with hc | hc
  · exact .inl hc
  · exact .inr (.inl hc)

lemma filler_comment (h : l.Stands d comments) (hs : l.shape = .comment) :
    Filler d comments l.start l.stop := by
  refine ⟨le_of_lt h.lt, fun z _ hle hlt => .inr (.inr ⟨_, h.recorded hs, ?_⟩)⟩
  rw [Span.between_of_le (le_of_lt h.lt)]
  exact ⟨hle, hlt⟩

end Lexeme.Stands

namespace Tiles

lemma pairwise (h : Tiles d a ls b) : ls.Pairwise fun l m => l.stop ≤ m.start := by
  induction h with
  | nil => exact .nil
  | cons _ _ _ _ others ih => exact .cons (fun m hm => (others.bounds_of_mem hm).1) ih

lemma start_valid (h : Tiles d a ls b) (hl : l ∈ ls) : d.Valid l.start := by
  obtain ⟨front, back, rfl⟩ := List.append_of_mem hl
  obtain ⟨x, -, hback⟩ := append_iff.1 h
  cases hback with
  | cons hv _ _ _ _ => exact hv

lemma stop_valid (h : Tiles d a ls b) (hl : l ∈ ls) : d.Valid l.stop := by
  obtain ⟨front, back, rfl⟩ := List.append_of_mem hl
  obtain ⟨x, -, hback⟩ := append_iff.1 h
  cases hback with
  | cons _ hv _ _ _ => exact hv

lemma char_of_mem (h : Tiles d a ls b) (hl : l ∈ ls) {c : Char} (hs : l.shape = .char c) :
    d.readAt l.start = c ∧ l.stop = d.after l.start := by
  obtain ⟨front, back, rfl⟩ := List.append_of_mem hl
  obtain ⟨x, -, hback⟩ := append_iff.1 h
  cases hback with
  | cons _ _ _ char _ => exact char c hs

lemma apart (h : Tiles d a ls b) (hl : l ∈ ls) (hm : m ∈ ls) :
    l = m ∨ l.stop ≤ m.start ∨ m.stop ≤ l.start := by
  induction h with
  | nil => cases hl
  | cons _ _ _ _ others ih =>
    rcases List.mem_cons.1 hl with rfl | hl' <;> rcases List.mem_cons.1 hm with rfl | hm'
    · exact .inl rfl
    · exact .inr (.inl (others.bounds_of_mem hm').1)
    · exact .inr (.inr (others.bounds_of_mem hl').1)
    · exact ih hl' hm'

lemma mem_comments (h : Tiles d a ls b) {s : Span} (hs : s ∈ ls.filterMap Lexeme.comment?) :
    ∃ m ∈ ls, m.shape = .comment ∧ s.start = m.start ∧ s.stop = m.stop := by
  obtain ⟨m, hm, hspan⟩ := List.mem_filterMap.1 hs
  unfold Lexeme.comment? at hspan
  split_ifs at hspan with hc
  cases hspan
  rw [Span.between_of_le (le_of_lt (h.bounds_of_mem hm).2.1)]
  exact ⟨m, hm, hc, rfl, rfl⟩

lemma comment_bounds (h : Tiles d a ls b) {s : Span} (hs : s ∈ ls.filterMap Lexeme.comment?) :
    a ≤ s.start ∧ s.stop ≤ b := by
  obtain ⟨m, hm, -, hstart, hstop⟩ := h.mem_comments hs
  obtain ⟨ham, -, hmb⟩ := h.bounds_of_mem hm
  rw [hstart, hstop]
  exact ⟨ham, hmb⟩

/-- Every lexeme of a row stands at its place among the comments of the row. -/
theorem stands (h : Tiles d a ls b) (hl : l ∈ ls) : l.Stands d (ls.filterMap Lexeme.comment?) where
  valid := h.start_valid hl
  lt := (h.bounds_of_mem hl).2.1
  char hs := h.char_of_mem hl hs
  recorded hs := List.mem_filterMap.2 ⟨l, hl, if_pos hs⟩
  clear_start := by
    intro s hs
    obtain ⟨m, hm, -, hstart, hstop⟩ := h.mem_comments hs
    rw [hstart, hstop]
    have hlt := (h.bounds_of_mem hl).2.1
    rcases h.apart hl hm with rfl | hlm | hml
    · exact .inl (le_refl _)
    · exact .inl ((le_of_lt hlt).trans hlm)
    · exact .inr hml
  clear_stop := by
    intro s hs
    obtain ⟨m, hm, -, hstart, hstop⟩ := h.mem_comments hs
    rw [hstart, hstop]
    have hlt := (h.bounds_of_mem hl).2.1
    rcases h.apart hl hm with rfl | hlm | hml
    · exact .inr (le_refl _)
    · exact .inl hlm
    · exact .inr (hml.trans (le_of_lt hlt))

lemma pairwise_comments (h : Tiles d a ls b) :
    (ls.filterMap Lexeme.comment?).Pairwise fun s s' => s.stop ≤ s'.start := by
  refine (h.pairwise.imp_of_mem (S := fun l m => l.start ≤ l.stop ∧ m.start ≤ m.stop ∧ l.stop ≤ m.start)
    fun hl hm hlm => ⟨le_of_lt (h.bounds_of_mem hl).2.1, le_of_lt (h.bounds_of_mem hm).2.1, hlm⟩).filterMap
    _ fun l m ⟨hl, hm, hlm⟩ s hs s' hs' => ?_
  unfold Lexeme.comment? at hs hs'
  split_ifs at hs hs'
  cases hs
  cases hs'
  rw [Span.between_of_le hl, Span.between_of_le hm]
  exact hlm

end Tiles

lemma charsBetween_after (hx : d.Valid x) (hy : d.Valid (d.after x)) :
    d.charsBetween x (d.after x) = [d.readAt x] := by
  rw [← map_char_glyphs hx hy (le_of_lt (lt_after d x)), glyphs_cons hy (lt_after d x), glyphs_self]
  rfl

lemma charToken_span (h : l.start ≤ l.stop) (c : Char) : (charToken c l).span = ⟨l.start, l.stop, h⟩ :=
  Span.between_of_le h

lemma Lexeme.Stands.charToken_text (h : l.Stands d comments) (hv : d.Valid l.stop) {c : Char}
    (hs : l.shape = .char c) : (charToken c l).text = d.textOf (charToken c l).span := by
  obtain ⟨hr, hl⟩ := h.char hs
  rw [charToken_span (le_of_lt h.lt)]
  show c.toString = String.ofList (d.charsBetween l.start l.stop)
  rw [hl] at hv ⊢
  rw [charsBetween_after h.valid hv, hr]
  rfl

namespace Prelude

/-- The places a prelude knows, in the order in which they stand. -/
structure Ordered (d : Document) (p : Prelude) : Prop where
  le : p.start ≤ p.stop
  atStop {q : Position} (h : p.atStop = some q) : p.start ≤ q ∧ q ≤ p.stop
  first {f : Position} (h : p.first = some f) : p.start ≤ f ∧ f ≤ p.stop ∧ ∀ q, p.atStop = some q → q ≤ f
  fresh (h : p.inAtName = true) : p.first = none
  nameStop {q : Position} (h : p.nameStop = some q) : p.start ≤ q ∧ ∃ c, p.colon = some c ∧ q ≤ c
  colon {c : Position} (h : p.colon = some c) :
    d.Valid c ∧ d.readAt c = ':' ∧ d.after c ≤ p.stop ∧ p.nameStop.isSome
  value {v : Position} (h : p.valueStart = some v) : v ≤ p.stop ∧ ∃ c, p.colon = some c ∧ d.after c ≤ v

/-- A prelude that is read up to a place: behind its last significant lexeme the text has only filler. -/
structure Stands (d : Document) (comments : List Span) (p : Prelude) (x : Position) : Prop where
  ordered : p.Ordered d
  lt : p.start < p.stop
  filler : Filler d comments p.stop x
  clear_start : Clear comments p.start
  clear_stop : Clear comments p.stop

lemma ordered_startAt (x : Position) : (startAt x).Ordered d where
  le := le_refl x
  atStop := nofun
  first := nofun
  fresh := nofun
  nameStop := nofun
  colon := nofun
  value := nofun

namespace Ordered

lemma addPlain (h : p.Ordered d) (hle : p.stop ≤ l.start) (hl : l.start ≤ l.stop) : (p.addPlain l).Ordered d where
  le := (h.le.trans hle).trans hl
  atStop hq := ⟨(h.atStop hq).1, ((h.atStop hq).2.trans hle).trans hl⟩
  first := by
    intro f hf
    rcases Option.or_eq_some_iff.1 hf with hf | ⟨-, hf⟩
    · obtain ⟨h1, h2, h3⟩ := h.first hf
      exact ⟨h1, (h2.trans hle).trans hl, h3⟩
    · cases hf
      exact ⟨h.le.trans hle, hl, fun q hq => (h.atStop hq).2.trans hle⟩
  fresh := nofun
  nameStop := h.nameStop
  colon hc := by
    obtain ⟨h1, h2, h3, h4⟩ := h.colon hc
    exact ⟨h1, h2, (h3.trans hle).trans hl, h4⟩
  value := by
    intro v hv
    have hor : (if p.colon.isSome then p.valueStart.or (some l.start) else p.valueStart) = some v := hv
    split_ifs at hor with hc
    · rcases Option.or_eq_some_iff.1 hor with hv | ⟨-, hv⟩
      · exact ⟨((h.value hv).1.trans hle).trans hl, (h.value hv).2⟩
      · cases hv
        obtain ⟨c, hc⟩ := Option.isSome_iff_exists.1 hc
        exact ⟨hl, c, hc, (h.colon hc).2.2.1.trans hle⟩
    · exact ⟨((h.value hor).1.trans hle).trans hl, (h.value hor).2⟩

lemma addColon (h : p.Ordered d) (hle : p.stop ≤ l.start) (hl : l.Stands d comments)
    (hs : l.shape = .char ':') (hnone : p.colon = none) : (p.addColon l).Ordered d where
  le := (h.le.trans hle).trans (le_of_lt hl.lt)
  atStop hq := ⟨(h.atStop hq).1, ((h.atStop hq).2.trans hle).trans (le_of_lt hl.lt)⟩
  first := by
    intro f hf
    rcases Option.or_eq_some_iff.1 hf with hf | ⟨-, hf⟩
    · obtain ⟨h1, h2, h3⟩ := h.first hf
      exact ⟨h1, (h2.trans hle).trans (le_of_lt hl.lt), h3⟩
    · cases hf
      exact ⟨h.le.trans hle, le_of_lt hl.lt, fun q hq => (h.atStop hq).2.trans hle⟩
  fresh := nofun
  nameStop := by
    rintro q ⟨⟩
    exact ⟨h.le, _, rfl, hle⟩
  colon := by
    rintro c ⟨⟩
    exact ⟨hl.valid, (hl.char hs).1, le_of_eq (hl.char hs).2.symm, rfl⟩
  value := by
    intro v hv
    obtain ⟨-, c, hc, -⟩ := h.value hv
    rw [hnone] at hc
    cases hc

lemma addAtName (h : p.Ordered d) (hle : p.stop ≤ l.start) (hl : l.start ≤ l.stop) (hin : p.inAtName = true) :
    { p with stop := l.stop, atStop := some l.stop : Prelude }.Ordered d where
  le := (h.le.trans hle).trans hl
  atStop := by
    rintro q ⟨⟩
    exact ⟨(h.le.trans hle).trans hl, le_refl _⟩
  first hf := by
    have hn := h.fresh hin
    rw [hn] at hf
    cases hf
  fresh := h.fresh
  nameStop := h.nameStop
  colon hc := by
    obtain ⟨h1, h2, h3, h4⟩ := h.colon hc
    exact ⟨h1, h2, (h3.trans hle).trans hl, h4⟩
  value hv := ⟨((h.value hv).1.trans hle).trans hl, (h.value hv).2⟩

lemma endAtName (h : p.Ordered d) : { p with inAtName := false : Prelude }.Ordered d where
  le := h.le
  atStop := h.atStop
  first := h.first
  fresh := nofun
  nameStop := h.nameStop
  colon := h.colon
  value := h.value

end Ordered

lemma add_cases (p : Prelude) (l : Lexeme) :
    ((l.shape = .comment ∨ ∃ c, l.shape = .char c ∧ CharClass.isBlank c = true) ∧
        p.add l = { p with inAtName := false }) ∨
      (p.inAtName = true ∧ p.add l = { p with stop := l.stop, atStop := some l.stop }) ∨
      (l.shape = .char ':' ∧ p.colon = none ∧ p.add l = p.addColon l) ∨ p.add l = p.addPlain l := by
  unfold add
  split
  · rename_i hs
    exact .inl ⟨.inl hs, rfl⟩
  · exact .inr (.inr (.inr rfl))
  · exact .inr (.inr (.inr rfl))
  · rename_i c hs
    split_ifs with h1 h2 h3
    · rw [Bool.and_eq_true] at h1
      exact .inr (.inl ⟨h1.1, rfl⟩)
    · exact .inl ⟨.inr ⟨c, hs, h2⟩, rfl⟩
    · obtain ⟨rfl, hnone⟩ := h3
      exact .inr (.inr (.inl ⟨hs, hnone, rfl⟩))
    · exact .inr (.inr (.inr rfl))

/-- Reading on in a prelude. -/
theorem Stands.add (h : p.Stands d comments l.start) (hl : l.Stands d comments) :
    (p.add l).Stands d comments l.stop := by
  have hlt := h.lt.trans_le (h.filler.1.trans (le_of_lt hl.lt))
  rcases add_cases p l with ⟨hs, he⟩ | ⟨hin, he⟩ | ⟨hs, hnone, he⟩ | he
  · rw [he]
    refine ⟨h.ordered.endAtName, h.lt, h.filler.trans ?_, h.clear_start, h.clear_stop⟩
    rcases hs with hs | ⟨c, hs, hc⟩
    · exact hl.filler_comment hs
    · exact hl.filler_char hs (.inl hc)
  · rw [he]
    exact ⟨h.ordered.addAtName h.filler.1 (le_of_lt hl.lt) hin, hlt, filler_self _, h.clear_start, hl.clear_stop⟩
  · rw [he]
    exact ⟨h.ordered.addColon h.filler.1 hl hs hnone, hlt, filler_self _, h.clear_start, hl.clear_stop⟩
  · rw [he]
    exact ⟨h.ordered.addPlain h.filler.1 (le_of_lt hl.lt), hlt, filler_self _, h.clear_start, hl.clear_stop⟩

/-- The prelude a significant lexeme starts. -/
theorem stands_ofFirst (hl : l.Stands d comments) (hc : l.shape ≠ .comment)
    (hb : ∀ c, l.shape = .char c → CharClass.isBlank c = false) : (ofFirst l).Stands d comments l.stop := by
  unfold ofFirst
  split_ifs with hat
  · refine ⟨?_, hl.lt, filler_self _, hl.clear_start, hl.clear_stop⟩
    exact {
      le := le_of_lt hl.lt
      atStop := by
        rintro q ⟨⟩
        exact ⟨le_of_lt hl.lt, le_refl _⟩
      first := nofun
      fresh := fun _ => rfl
      nameStop := nofun
      colon := nofun
      value := nofun }
  · have hord := ordered_startAt (d := d) l.start
    rcases add_cases (startAt l.start) l with ⟨hs, -⟩ | ⟨hin, -⟩ | ⟨hs, hnone, he⟩ | he
    · rcases hs with hs | ⟨c, hs, hblank⟩
      · exact absurd hs hc
      · rw [hb c hs] at hblank
        cases hblank
    · cases hin
    · rw [he]
      exact ⟨hord.addColon (le_refl _) hl hs hnone, hl.lt, filler_self _, hl.clear_start, hl.clear_stop⟩
    · rw [he]
      exact ⟨hord.addPlain (le_refl _) (le_of_lt hl.lt), hl.lt, filler_self _, hl.clear_start, hl.clear_stop⟩

lemma tokenBetween_eq (h : x ≤ y) : tokenBetween d x y = ⟨⟨x, y, h⟩, d.textOf ⟨x, y, h⟩⟩ := by
  unfold tokenBetween
  rw [Span.between_of_le h]

lemma inOrder_tokenBetween (h : x ≤ y) : d.InOrder x [tokenBetween d x y] y := by
  rw [tokenBetween_eq h]
  exact ⟨le_refl _, rfl, le_refl _⟩

lemma inOrder_tokenBetween_cons {ts : List Token} (h : x ≤ y) (hts : d.InOrder y ts a) :
    d.InOrder x (tokenBetween d x y :: ts) a := (inOrder_tokenBetween h).append hts

lemma inOrder_colon {c : Position} (hc : d.Valid c) (hr : d.readAt c = ':') :
    d.InOrder c [⟨.between c ⟨c.line, c.column + 1⟩, ":"⟩] (d.after c) := by
  have hcol : c.column < d.lineLength c.line := by
    refine lt_of_not_ge fun hle => ?_
    rw [readAt_of_lineLength_le hle] at hr
    cases hr
  have hafter := after_of_column_lt hcol
  have hv : d.Valid (d.after c) := by
    rw [hafter]
    exact ⟨hc.1, hcol⟩
  rw [← hafter, Span.between_of_le (le_of_lt (lt_after d c))]
  refine ⟨le_refl _, ?_, le_refl _⟩
  show ":" = String.ofList (d.charsBetween c (d.after c))
  rw [charsBetween_after hc hv, hr]

namespace Ordered

lemma inOrder_atRule (h : p.Ordered d) {q : Position} (hq : p.atStop = some q) :
    d.InOrder p.start (tokenBetween d p.start q :: (p.expression d).toList) p.stop := by
  obtain ⟨h1, h2⟩ := h.atStop hq
  refine inOrder_tokenBetween_cons h1 (.toList h2 fun t ht => ?_)
  obtain ⟨f, hf, rfl⟩ := Option.map_eq_some_iff.1 ht
  obtain ⟨-, hfs, hqf⟩ := h.first hf
  rw [tokenBetween_eq hfs]
  exact ⟨hqf q hq, rfl, le_refl _⟩

theorem inOrder_block (h : p.Ordered d) {opening : Token} (hle : p.stop ≤ opening.span.start)
    (ht : opening.text = d.textOf opening.span) :
    d.InOrder p.start (p.block d opening).tokens opening.span.stop := by
  have ho : d.InOrder p.stop [opening] opening.span.stop := .cons ht hle (le_refl _)
  unfold block
  split
  · rename_i q hq
    have := (h.inOrder_atRule hq).append ho
    simpa [Kind.tokens] using this
  · exact inOrder_tokenBetween_cons h.le ho

lemma inOrder_separator (h : p.Ordered d) {c : Position} (hc : p.colon = some c) :
    d.InOrder (p.nameStop.getD p.stop)
      ((p.colon.map fun colon => (⟨.between colon ⟨colon.line, colon.column + 1⟩, ":"⟩ : Token)).toList ++
        (p.valueStart.map fun start => tokenBetween d start p.stop).toList) p.stop := by
  obtain ⟨hv, hr, hafter, hname⟩ := h.colon hc
  obtain ⟨q, hq⟩ := Option.isSome_iff_exists.1 hname
  obtain ⟨-, c', hc', hqc⟩ := h.nameStop hq
  obtain rfl : c = c' := Option.some_inj.1 (hc.symm.trans hc')
  rw [hc, hq]
  refine ((inOrder_colon hv hr).mono hqc (le_refl _)).append (.toList hafter fun t ht => ?_)
  obtain ⟨v, hval, rfl⟩ := Option.map_eq_some_iff.1 ht
  obtain ⟨hvs, c', hc', hcv⟩ := h.value hval
  obtain rfl : c = c' := Option.some_inj.1 (hc.symm.trans hc')
  rw [tokenBetween_eq hvs]
  exact ⟨hcv, rfl, le_refl _⟩

/-- The tokens of a statement without a block. -/
theorem inOrder_statement (h : p.Ordered d) {terminator : Option Token}
    (ht : d.InOrder p.stop terminator.toList x) :
    d.InOrder p.start (p.statement d terminator).tokens x := by
  unfold statement
  split
  · rename_i q hq
    simpa [Kind.tokens] using (h.inOrder_atRule hq).mono (le_refl _) ht.le
  · show d.InOrder p.start (_ :: (_ ++ _)) x
    cases hc : p.colon with
    | none =>
      have hname : p.nameStop = none := by
        refine Option.eq_none_iff_forall_ne_some.2 fun q hq => ?_
        obtain ⟨-, c, hc', -⟩ := h.nameStop hq
        rw [hc] at hc'
        cases hc'
      have hvalue : p.valueStart = none := by
        refine Option.eq_none_iff_forall_ne_some.2 fun v hv => ?_
        obtain ⟨-, c, hc', -⟩ := h.value hv
        rw [hc] at hc'
        cases hc'
      rw [hname, hvalue]
      exact inOrder_tokenBetween_cons h.le ht
    | some c =>
      have hsep := h.inOrder_separator hc
      rw [hc] at hsep
      have hname : p.start ≤ p.nameStop.getD p.stop := by
        obtain ⟨q, hq⟩ := Option.isSome_iff_exists.1 (h.colon hc).2.2.2
        rw [hq]
        exact (h.nameStop hq).1
      exact inOrder_tokenBetween_cons hname (hsep.append ht)

end Ordered
end Prelude
end AbbrevSite.Sheet
