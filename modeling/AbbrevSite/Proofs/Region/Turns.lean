import AbbrevSite.Proofs.Region.Bounds
import AbbrevSite.Proofs.Sheet.Cover
import AbbrevSite.Proofs.Text.Offsets

/-! The loops of the search for a region, turn by turn. A turn ends its loop or leaves less of the text to go through
than there was before it, so a loop ends after at most one turn more than it has characters or lines to go. -/
namespace AbbrevSite

open Document

section Loops

variable {σ α : Type}

/-- The result of a loop, if it ends within a number of turns. A turn ends the loop or leads to the next state. -/
def endsWithin (turn : σ → α ⊕ σ) : Nat → σ → Option α
  | 0, _ => none
  | n + 1, x =>
    match turn x with
    | .inl a => some a
    | .inr y => endsWithin turn n y

def Computes (turn : σ → α ⊕ σ) (f : σ → α) : Prop := ∀ x, f x = (turn x).elim id f

/-- What each turn lowers, as long as `inv` holds, bounds the number of turns. -/
theorem endsWithin_eq {turn : σ → α ⊕ σ} {f : σ → α} (hf : Computes turn f) (inv : σ → Prop) (size : σ → Nat)
    (hturn : ∀ x y, inv x → turn x = .inr y → inv y ∧ size y < size x) {x : σ} (hx : inv x) {n : Nat}
    (hn : size x < n) : endsWithin turn n x = some (f x) := by
  induction n generalizing x with
  | zero => exact absurd hn (Nat.not_lt_zero _)
  | succ n ih =>
    rw [endsWithin, hf x]
    cases ht : turn x with
    | inl a => rfl
    | inr y =>
      obtain ⟨hy, hlt⟩ := hturn x y hx ht
      exact ih hy (by omega)

end Loops

namespace Sheet

def closeTurn : List Glyph → Option (Position × List Glyph) ⊕ List Glyph
  | g :: h :: rest => if g.char = '*' ∧ h.char = '/' then .inl (some (h.stop, rest)) else .inr (h :: rest)
  | _ => .inl none

lemma computes_closeTurn : Computes closeTurn closeComment := by
  intro gs
  fun_cases closeComment gs with
  | case1 | case2 => rfl
  | case3 g h rest hc => simp [closeTurn, hc]
  | case4 g h rest hc => simp [closeTurn, hc]

lemma length_closeTurn {gs hs : List Glyph} (h : closeTurn gs = .inr hs) : hs.length < gs.length := by
  unfold closeTurn at h
  split at h
  · split_ifs at h
    cases h
    simp
  · cases h

end Sheet

namespace Document

variable {d : Document}

/-- A turn of the search for the start of a block comment: one line. -/
def openingTurn (d : Document) : Nat × Nat → Option Position ⊕ Nat × Nat
  | (line, column) =>
    match lastPair '/' '*' (d.line line) column with
    | some column => .inl (some ⟨line, column⟩)
    | none =>
      match line with
      | 0 => .inl none
      | line + 1 => .inr (line, d.lineLength line)

lemma computes_openingTurn : Computes d.openingTurn fun x => d.openingBefore x.1 x.2 := by
  rintro ⟨line, column⟩
  cases hp : lastPair '/' '*' (d.line line) column <;> cases line <;> simp [openingBefore, openingTurn, hp]

lemma line_openingTurn {x y : Nat × Nat} (h : d.openingTurn x = .inr y) : y.1 < x.1 := by
  obtain ⟨line, column⟩ := x
  cases line <;> simp only [openingTurn] at h <;> split at h <;> cases h
  exact Nat.lt_succ_self _

end Document

namespace Cursor

def skipTurn (b : Char → Bool) (c : Cursor) : Cursor ⊕ Cursor := if (c.eat b).1 then .inr (c.eat b).2 else .inl c

lemma computes_skipTurn (b : Char → Bool) : Computes (skipTurn b) (skipWhile b) := by
  intro c
  rw [skipWhile, skipTurn]
  split <;> rfl

end Cursor

namespace RegionSearch

def stopTurn (lineComments : Bool) (last : Position) : List Glyph → Position ⊕ List Glyph
  | [] => .inl last
  | g :: rest =>
    if g.char = '}' then .inl g.stop
    else if g.char = '/' then
      match rest with
      | [] => .inl last
      | h :: rest =>
        if lineComments ∧ h.char = '/' then .inr (rest.dropWhile fun g => g.char != '\n')
        else if h.char = '*' then
          match Sheet.closeComment rest with
          | none => .inl last
          | some (_, rest) => .inr rest
        else .inr (h :: rest)
    else .inr rest

lemma computes_stopTurn (lineComments : Bool) (last : Position) :
    Computes (stopTurn lineComments last) (stopAfter lineComments last) := by
  intro gs
  cases gs with
  | nil => rw [stopAfter]; rfl
  | cons g rest =>
    cases rest with
    | nil =>
      rw [stopAfter, stopTurn]
      split_ifs <;> rfl
    | cons h rest =>
      rw [stopAfter, stopTurn]
      split_ifs
      · rfl
      · rfl
      · split <;> simp [*]
      · rfl
      · rfl

variable (s : RegionSearch)

/-- Going on at a place, unless that is too far back. -/
def unlessExhausted {σ α : Type} (q : Position) (a : α) (x : σ) : α ⊕ σ := if s.exhausted q then .inl a else .inr x

def braceTurn : Nat × Nat × Position → Front ⊕ Nat × Nat × Position
  | (line, depth, p) =>
    if p = .origin then .inl (.edge .origin)
    else
      let q := s.stepBack line p
      let back := s.leaveBlockComment q
      match s.document.readAt q with
      | '{' =>
        match depth with
        | 0 => .inl (.brace q)
        | depth + 1 => s.unlessExhausted q (.edge .origin) (p.line, depth, q)
      | '}' =>
        if s.lineComments then s.unlessExhausted q (.edge .origin) (p.line, depth + 1, q)
        else .inl (.edge (s.document.after q))
      | '/' => s.unlessExhausted back (.edge .origin) (p.line, depth, back)
      | _ => s.unlessExhausted q (.edge .origin) (p.line, depth, q)

/-- A turn of the search for the last character of the selector before a brace. -/
def selectorTurn (brace : Position) : Nat × Nat × Position → Position ⊕ Nat × Nat × Position
  | (line, nested, p) =>
    if p = .origin then .inl brace
    else
      let q := s.stepBack line p
      let back := s.leaveBlockComment q
      let c := s.document.readAt q
      if CharClass.isBlank c then s.unlessExhausted q brace (p.line, nested, q)
      else if c = '/' then s.unlessExhausted back brace (p.line, nested, back)
      else if c = '}' then s.unlessExhausted q brace (p.line, nested + 1, q)
      else
        match nested with
        | 0 => .inl (if c = '{' then brace else s.selectorStart q)
        | n + 1 => s.unlessExhausted q brace (p.line, if c = '{' then n else n + 1, q)

def delimiterTurn (p : Position) : Position ⊕ Position :=
  if p = .origin then .inl (s.skipBlanks p)
  else if p ≤ s.farthest then .inl (s.skipBlanks p)
  else
    let q := s.document.prev p
    let c := s.document.readAt q
    if s.lineComments && q.line != p.line && (s.document.lineCommentColumn q.line).isSome then .inl (s.skipBlanks p)
    else if c = '{' ∨ c = '}' ∨ c = ';' ∨ (c = '/' ∧ s.endsComment q) then .inl (s.skipBlanks p)
    else .inr q

variable {s}

lemma elim_unlessExhausted {σ α : Type} {q : Position} {a : α} {x : σ} {f : σ → α} :
    (s.unlessExhausted q a x).elim id f = if s.exhausted q then a else f x := by
  unfold unlessExhausted
  split <;> rfl

lemma eq_of_unlessExhausted {σ α : Type} {q : Position} {a : α} {x y : σ} (h : s.unlessExhausted q a x = .inr y) :
    y = x := by
  unfold unlessExhausted at h
  split at h
  · cases h
  · exact (Sum.inr.inj h).symm

lemma computes_braceTurn : Computes s.braceTurn fun x => s.findBrace x.1 x.2.1 x.2.2 := by
  rintro ⟨line, depth, p⟩
  dsimp only
  rw [findBrace, braceTurn]
  by_cases h0 : p = .origin
  · rw [dif_pos h0, if_pos h0]
    rfl
  · rw [dif_neg h0, if_neg h0]
    generalize s.stepBack line p = q
    generalize hc : s.document.readAt q = c
    dsimp only
    rw [hc]
    split
    · cases depth with
      | zero => rfl
      | succ depth => simp [elim_unlessExhausted]
    · split_ifs <;> simp [elim_unlessExhausted, *]
    · simp [elim_unlessExhausted]
    · simp [elim_unlessExhausted, *]

lemma computes_selectorTurn (brace : Position) :
    Computes (s.selectorTurn brace) fun x => s.beforeBrace brace x.1 x.2.1 x.2.2 := by
  rintro ⟨line, nested, p⟩
  dsimp only
  rw [beforeBrace, selectorTurn]
  by_cases h0 : p = .origin
  · rw [dif_pos h0, if_pos h0]
    rfl
  · rw [dif_neg h0, if_neg h0]
    dsimp only
    cases nested <;> split_ifs <;> simp [elim_unlessExhausted, *]

lemma computes_delimiterTurn : Computes s.delimiterTurn s.selectorStart := by
  intro p
  rw [selectorStart, delimiterTurn]
  dsimp only
  split_ifs <;> rfl

lemma length_stopTurn {lineComments : Bool} {last : Position} {gs hs : List Glyph}
    (h : stopTurn lineComments last gs = .inr hs) : hs.length < gs.length := by
  cases gs with
  | nil => cases h
  | cons g rest =>
    cases rest with
    | nil =>
      rw [stopTurn] at h
      split_ifs at h
      cases h
      exact Nat.lt_succ_self _
    | cons g' rest =>
      have hdrop := (List.dropWhile_sublist (l := rest) fun g => g.char != '\n').length_le
      rw [stopTurn] at h
      split_ifs at h
      · cases h
        simp only [List.length_cons]
        omega
      · split at h
        · cases h
        · rename_i hclose
          have hlen := Sheet.length_closeComment hclose
          cases h
          simp only [List.length_cons]
          omega
      · cases h
        exact Nat.lt_succ_self _
      · cases h
        exact Nat.lt_succ_self _

section Back

variable {line depth : Nat} {p : Position} {x : Nat × Nat × Position} (hp : s.document.Valid p)
include hp

lemma valid_lt_stepBack (line : Nat) (h0 : p ≠ .origin) :
    (s.document.Valid (s.stepBack line p) ∧ s.stepBack line p < p) ∧
      s.document.Valid (s.leaveBlockComment (s.stepBack line p)) ∧ s.leaveBlockComment (s.stepBack line p) < p := by
  have hv := stepBack_valid line hp
  have hlt : s.stepBack line p < p := s.stepBack_lt h0
  exact ⟨⟨hv, hlt⟩, leaveBlockComment_valid hv, (s.leaveBlockComment_le _).trans_lt hlt⟩

lemma lt_braceTurn (h : s.braceTurn (line, depth, p) = .inr x) : s.document.Valid x.2.2 ∧ x.2.2 < p := by
  have h0 : p ≠ .origin := by
    rintro rfl
    cases h
  obtain ⟨hq, hback⟩ := valid_lt_stepBack hp line h0
  rw [braceTurn, if_neg h0] at h
  dsimp only at h
  split at h
  · cases depth with
    | zero => cases h
    | succ depth =>
      obtain rfl := eq_of_unlessExhausted h
      exact hq
  · split_ifs at h
    obtain rfl := eq_of_unlessExhausted h
    exact hq
  · obtain rfl := eq_of_unlessExhausted h
    exact hback
  · obtain rfl := eq_of_unlessExhausted h
    exact hq

lemma lt_selectorTurn {brace : Position} (h : s.selectorTurn brace (line, depth, p) = .inr x) :
    s.document.Valid x.2.2 ∧ x.2.2 < p := by
  have h0 : p ≠ .origin := by
    rintro rfl
    cases h
  obtain ⟨hq, hback⟩ := valid_lt_stepBack hp line h0
  rw [selectorTurn, if_neg h0] at h
  dsimp only at h
  split_ifs at h
  · obtain rfl := eq_of_unlessExhausted h
    exact hq
  · obtain rfl := eq_of_unlessExhausted h
    exact hback
  · obtain rfl := eq_of_unlessExhausted h
    exact hq
  all_goals
    cases depth with
    | zero => cases h
    | succ depth =>
      obtain rfl := eq_of_unlessExhausted h
      exact hq

lemma lt_delimiterTurn {q : Position} (h : s.delimiterTurn p = .inr q) : s.document.Valid q ∧ q < p := by
  rw [delimiterTurn] at h
  dsimp only at h
  split_ifs at h with h0
  cases h
  exact ⟨valid_prev hp, prev_lt h0⟩

end Back

lemma skipTurn_whole {d : Document} {b : Char → Bool} {c c' : Cursor} (hc : c.document = d ∧ c.window = d.span)
    (hv : d.Valid c.position) (h : c.skipTurn b = .inr c') :
    (c'.document = d ∧ c'.window = d.span) ∧ d.Valid c'.position ∧ c.position < c'.position := by
  unfold Cursor.skipTurn at h
  split_ifs at h with heat
  cases h
  obtain ⟨rfl, hw⟩ := hc
  obtain ⟨hlt, -, he⟩ := Cursor.eat_of_true hw heat
  rw [he]
  exact ⟨⟨rfl, hw⟩, valid_after hv hlt, lt_after _ _⟩

/-- Every loop of a search ends, wherever it is started: going back after at most one turn for each character before its
place and one more, going on after at most one for each character behind it and one more. -/
structure LoopsEnd (s : RegionSearch) : Prop where
  stopAfter (lineComments : Bool) (last : Position) (gs : List Glyph) :
    endsWithin (stopTurn lineComments last) (gs.length + 1) gs = some (stopAfter lineComments last gs)
  closeComment (gs : List Glyph) : endsWithin Sheet.closeTurn (gs.length + 1) gs = some (Sheet.closeComment gs)
  findBrace (line depth : Nat) (p : Position) (hp : s.document.Valid p) :
    endsWithin s.braceTurn (s.document.offsetAt p + 1) (line, depth, p) = some (s.findBrace line depth p)
  beforeBrace (brace : Position) (line nested : Nat) (p : Position) (hp : s.document.Valid p) :
    endsWithin (s.selectorTurn brace) (s.document.offsetAt p + 1) (line, nested, p) =
      some (s.beforeBrace brace line nested p)
  selectorStart (p : Position) (hp : s.document.Valid p) :
    endsWithin s.delimiterTurn (s.document.offsetAt p + 1) p = some (s.selectorStart p)
  openingBefore (line column : Nat) :
    endsWithin s.document.openingTurn (line + 1) (line, column) = some (s.document.openingBefore line column)
  skipBlanks (p : Position) (hp : s.document.Valid p) :
    endsWithin (Cursor.skipTurn CharClass.isBlank) (s.document.length - s.document.offsetAt p + 1)
      (.whole s.document p) = some ((Cursor.whole s.document p).skipWhile CharClass.isBlank)

theorem loopsEnd (s : RegionSearch) : s.LoopsEnd where
  stopAfter lineComments last gs := by
    refine endsWithin_eq (computes_stopTurn lineComments last) (fun _ => True) List.length ?_ trivial
      (Nat.lt_succ_self _)
    exact fun _ _ _ h => ⟨trivial, length_stopTurn h⟩
  closeComment gs := by
    refine endsWithin_eq Sheet.computes_closeTurn (fun _ => True) List.length ?_ trivial
      (Nat.lt_succ_self _)
    exact fun _ _ _ h => ⟨trivial, Sheet.length_closeTurn h⟩
  findBrace line depth p hp := by
    refine endsWithin_eq computes_braceTurn (fun x => s.document.Valid x.2.2)
      (fun x => s.document.offsetAt x.2.2) ?_ hp (Nat.lt_succ_self _)
    rintro ⟨line, depth, p⟩ y hp h
    obtain ⟨hy, hlt⟩ := lt_braceTurn hp h
    exact ⟨hy, offsetAt_lt hy hp hlt⟩
  beforeBrace brace line nested p hp := by
    refine endsWithin_eq (computes_selectorTurn brace) (fun x => s.document.Valid x.2.2)
      (fun x => s.document.offsetAt x.2.2) ?_ hp (Nat.lt_succ_self _)
    rintro ⟨line, nested, p⟩ y hp h
    obtain ⟨hy, hlt⟩ := lt_selectorTurn hp h
    exact ⟨hy, offsetAt_lt hy hp hlt⟩
  selectorStart p hp := by
    refine endsWithin_eq computes_delimiterTurn s.document.Valid s.document.offsetAt ?_ hp
      (Nat.lt_succ_self _)
    intro p y hp h
    obtain ⟨hy, hlt⟩ := lt_delimiterTurn hp h
    exact ⟨hy, offsetAt_lt hy hp hlt⟩
  openingBefore line column := by
    refine endsWithin_eq computes_openingTurn (fun _ => True) Prod.fst ?_ trivial (Nat.lt_succ_self _)
    exact fun _ _ _ h => ⟨trivial, line_openingTurn h⟩
  skipBlanks p hp := by
    refine endsWithin_eq (Cursor.computes_skipTurn _)
      (fun c => (c.document = s.document ∧ c.window = s.document.span) ∧ s.document.Valid c.position)
      (fun c => s.document.length - s.document.offsetAt c.position) ?_ ⟨⟨rfl, rfl⟩, hp⟩ (Nat.lt_succ_self _)
    rintro c c' ⟨hc, hv⟩ h
    obtain ⟨hc', hv', hlt⟩ := skipTurn_whole hc hv h
    have hoffset := offsetAt_lt hv hv' hlt
    have hlength := offsetAt_le_length hv'
    exact ⟨⟨hc', hv'⟩, by omega⟩

end RegionSearch

lemma Sheet.bounds_of_parse {d : Document} {window : Span} {dialect : Dialect} {t : Tree} (ha : d.Valid window.start)
    (hb : d.Valid window.stop) (h : parse (Cursor.within d window.start window) dialect = .ok t) :
    (∀ n ∈ t.preorder, window.start ≤ n.span.start ∧ n.span.stop ≤ window.stop) ∧
      ∀ c ∈ t.comments, window.start ≤ c.start ∧ c.stop ≤ window.stop := by
  have hspan : t.root.span = window := by
    obtain ⟨ls, r, -, -, rfl⟩ := parse_within_eq_ok.1 h
    rfl
  refine ⟨fun n hn => ?_, fun c hc => ?_⟩
  · rcases List.mem_cons.1 hn with rfl | hn
    · rw [hspan]
      exact ⟨le_refl _, le_refl _⟩
    · have hlaid := (covers_within ha hb h).laidOut
      rw [hspan] at hlaid
      obtain ⟨hstart, -, hstop⟩ := hlaid.bounds isGap_filler hn
      exact ⟨hstart, hstop⟩
  · obtain ⟨hread, hcomments⟩ := parse_comments h
    rw [hcomments] at hc
    exact (tiles_lexemes ha hb window.ordered hread).comment_bounds hc

namespace Document

/-- The loops of the search for the region around a position end, whatever the text, the language, the position and the
limits. The region lies in the text and has the place nearest to the position in it, and whatever it is read into lies
in the region. -/
theorem regionAround_encloses (d : Document) (limits : Limits) (p : Position) :
    (RegionSearch.new d d.sheetDialect limits p).LoopsEnd ∧
      .origin ≤ (d.regionAround limits p).start ∧ (d.regionAround limits p).start ≤ d.clamp p ∧
      d.clamp p ≤ (d.regionAround limits p).stop ∧ (d.regionAround limits p).stop ≤ d.stop ∧
      ∀ t ∈ d.parseAround? limits p,
        (∀ n ∈ t.preorder, (d.regionAround limits p).start ≤ n.span.start ∧
          n.span.stop ≤ (d.regionAround limits p).stop) ∧
        ∀ c ∈ t.comments, (d.regionAround limits p).start ≤ c.start ∧ c.stop ≤ (d.regionAround limits p).stop := by
  set s := RegionSearch.new d d.sheetDialect limits p with hs
  have hv : s.document.Valid s.position := d.clamp_valid p
  obtain ⟨hstart, hstop⟩ := d.regionAround_valid limits p
  have hregion : d.regionAround limits p = ⟨s.start, s.stop, RegionSearch.start_le_stop hv⟩ :=
    Span.between_of_le (RegionSearch.start_le_stop hv)
  refine ⟨s.loopsEnd, Position.origin_le _, ?_, ?_, Document.le_stop hstop, fun t ht => ?_⟩
  · rw [hregion]
    exact RegionSearch.start_le hv
  · rw [hregion]
    exact RegionSearch.le_stop hv
  · exact Sheet.bounds_of_parse hstart hstop (Sheet.toOption_eq_some.1 ht)

/-- A text with a brace that closes nothing and one that is never closed, the end of a comment that was never opened, a
brace in a comment and a stray slash, around a position behind its last line. -/
theorem regionAround_encloses_unbalanced :
    let d := Document.ofText "scss" "\x7d*/a//\x7b\n\x7b/c"
    let region := d.regionAround .standard ⟨9, 99⟩
    (RegionSearch.new d d.sheetDialect .standard ⟨9, 99⟩).LoopsEnd ∧ region.start ≤ d.clamp ⟨9, 99⟩ ∧
      d.clamp ⟨9, 99⟩ ≤ region.stop ∧ ∃ t, d.parseAround? .standard ⟨9, 99⟩ = some t ∧
        ∀ n ∈ t.preorder, region.start ≤ n.span.start ∧ n.span.stop ≤ region.stop := by
  have hread : ((Document.ofText "scss" "\x7d*/a//\x7b\n\x7b/c").parseAround? .standard ⟨9, 99⟩).isSome = true := by
    simp only [Document.parseAround?, Sheet.parse_eq_parseLexemes]
    cbv
  obtain ⟨t, ht⟩ := Option.isSome_iff_exists.1 hread
  intro d region
  obtain ⟨hends, -, hstart, hstop, -, htree⟩ := d.regionAround_encloses .standard ⟨9, 99⟩
  exact ⟨hends, hstart, hstop, t, ht, (htree t ht).1⟩

end Document
end AbbrevSite
