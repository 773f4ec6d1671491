import AbbrevSite.Proofs.Sheet.Block
import AbbrevSite.Region.Parse

/-! The search for a region in a document without comments, strings and groups. Each of its scans stops
at the first character that ends it: going back the brace of the enclosing block and the delimiter before
its selector, going on the closing brace. -/
namespace AbbrevSite

open Sheet

section Text

variable {d : Document} {p q : Position}

lemma firstPair_eq_none {a b : Char} {cs : List Char} (n : Nat) (h : a ∉ cs) :
    firstPair a b n cs = none := by
  induction cs generalizing n with
  | nil => rfl
  | cons c cs ih =>
    rw [List.mem_cons, not_or] at h
    cases cs with
    | nil => rfl
    | cons e cs => rw [firstPair, if_neg (fun hc => h.1 hc.1.symm), ih (n + 1) h.2]

namespace Document.Plain

lemma not_mem_line (h : d.Plain) (n : Nat) : '/' ∉ (d.line n).toList :=
  fun hm => (h.mem_line hm).2.2.2 rfl

lemma lineCommentColumn (h : d.Plain) (n : Nat) : d.lineCommentColumn n = none :=
  firstPair_eq_none 0 (h.not_mem_line n)

lemma readAt_prev (h : d.Plain) (hp : d.Valid p) (h0 : p ≠ .origin) :
    d.readAt (d.prev p) ≠ '/' :=
  (h.readAt (valid_prev hp) (prev_lt_stop hp h0)).2.2.2

end Document.Plain

/-- Between two places no block is closed that is not opened there, and so many stay open. -/
structure Document.Opens (d : Document) (n : Nat) (p q : Position) : Prop where
  valid : d.Valid p
  le : p ≤ q
  nest : nest 0 (d.row p q) = some n

lemma Document.Opens.here (hp : d.Valid p) : d.Opens 0 p p := ⟨hp, le_refl p, by rw [row_self, nest_nil]⟩

lemma Document.Opens.concat {m n : Nat} (h : d.Opens m p (d.prev q)) (hq : d.Valid q) (h0 : q ≠ .origin)
    (hm : Sheet.nest m [d.letter (d.prev q)] = some n) : d.Opens n p q := by
  refine ⟨h.valid, h.le.trans (d.prev_le q), ?_⟩
  rw [nest_row_concat h.valid hq (h.le.trans_lt (prev_lt h0)), h.nest]
  exact hm

end Text

namespace Cursor

open Document (le_stop valid_after lt_after throughout_self afterWithin_of_valid)

variable {c : Cursor} {b : Char → Bool}

lemma eat_of_true (hw : c.window = c.document.span)
    (h : (c.eat b).1 = true) :
    c.position < c.document.stop ∧ b (c.document.readAt c.position) = true ∧
      (c.eat b).2 = { c with position := c.document.after c.position } := by
  have hs : c.window.stop = c.document.stop := by rw [hw]; rfl
  unfold eat at h ⊢
  split_ifs at h ⊢ with hp
  unfold peek? atEnd at hp
  rw [hs] at hp
  by_cases he : c.document.stop ≤ c.position
  · simp [he] at hp
  · have hlt : c.position < c.document.stop := not_le.1 he
    simp only [he, decide_false, Bool.false_eq_true, if_false, Option.any_some] at hp
    refine ⟨hlt, hp, ?_⟩
    simp only [skip, atEnd, hs, he, decide_false, Bool.false_eq_true, if_false]
    rw [afterWithin_of_valid c.document.valid_stop hlt]

lemma eat_of_false (hw : c.window = c.document.span) (hv : c.document.Valid c.position)
    (h : ¬ (c.eat b).1 = true) :
    c.position = c.document.stop ∨ b (c.document.readAt c.position) = false := by
  have hs : c.window.stop = c.document.stop := by rw [hw]; rfl
  have hp : c.peek?.any b = false := by
    by_contra hp
    rw [eat, if_pos (by simpa using hp)] at h
    exact h rfl
  unfold peek? atEnd at hp
  rw [hs] at hp
  by_cases he : c.document.stop ≤ c.position
  · exact .inl (le_antisymm (le_stop hv) he)
  · right
    simpa [he] using hp

lemma skipWhile_spec (hw : c.window = c.document.span) (hv : c.document.Valid c.position) :
    c.document.Valid (c.skipWhile b).position ∧ c.position ≤ (c.skipWhile b).position ∧
      c.document.Throughout (b · = true) c.position (c.skipWhile b).position ∧
      ((c.skipWhile b).position = c.document.stop ∨
        b (c.document.readAt (c.skipWhile b).position) = false) := by
  fun_induction skipWhile b c with
  | case1 c h ih =>
    obtain ⟨hlt, hb, he⟩ := eat_of_true hw h
    rw [he] at ih ⊢
    obtain ⟨h1, h2, h3, h4⟩ := ih hw (valid_after hv hlt)
    exact ⟨h1, (le_of_lt (lt_after _ _)).trans h2, h3.cons hb, h4⟩
  | case2 c h =>
    exact ⟨hv, le_refl _, throughout_self, eat_of_false hw hv h⟩

end Cursor

namespace RegionSearch

open Document

variable {s : RegionSearch} {brace p q : Position} {line depth nested : Nat}

lemma stepBack_of_plain (hd : s.document.Plain) : s.stepBack line p = s.document.prev p := by
  unfold stepBack leaveLineComment
  rw [hd.lineCommentColumn]
  split_ifs <;> rfl

lemma findBrace_origin : s.findBrace line depth .origin = .edge .origin := by
  rw [findBrace, dif_pos rfl]

lemma beforeBrace_origin : s.beforeBrace brace line nested .origin = brace := by
  rw [beforeBrace, dif_pos rfl]

lemma start_of_edge (h : s.findBrace s.position.line 0 s.position = .edge p) : s.start = p := by
  rw [start, h]

lemma start_of_brace (h : s.findBrace s.position.line 0 s.position = .brace p) :
    s.start = s.beforeBrace p p.line 0 p := by
  rw [start, h]

section Step

variable {y : Position} (h0 : p ≠ .origin) (hq : s.stepBack line p = q)
include h0 hq

lemma findBrace_zero_of_opening (hc : s.document.readAt q = '{') : s.findBrace line 0 p = .brace q := by
  rw [findBrace, dif_neg h0]
  simp [hq, hc]

lemma findBrace_succ_of_opening (hc : s.document.readAt q = '{') : s.findBrace line (depth + 1) p =
    if s.exhausted q then .edge .origin else s.findBrace p.line depth q := by
  rw [findBrace, dif_neg h0]
  simp [hq, hc]

lemma findBrace_of_closing (hc : s.document.readAt q = '}') : s.findBrace line depth p =
    if s.lineComments then
      if s.exhausted q then .edge .origin else s.findBrace p.line (depth + 1) q
    else .edge (s.document.after q) := by
  rw [findBrace, dif_neg h0]
  simp [hq, hc]

lemma findBrace_of_slash (hc : s.document.readAt q = '/') (hy : s.leaveBlockComment q = y) :
    s.findBrace line depth p = if s.exhausted y then .edge .origin else s.findBrace p.line depth y := by
  rw [findBrace, dif_neg h0]
  simp [hq, hc, hy]

lemma findBrace_of_other (hc : ¬ IsBrace (s.document.readAt q)) (hc' : s.document.readAt q ≠ '/') :
    s.findBrace line depth p = if s.exhausted q then .edge .origin else s.findBrace p.line depth q := by
  rw [IsBrace, not_or] at hc
  rw [findBrace, dif_neg h0]
  simp only [hq]
  split
  · exact absurd ‹_› hc.1
  · exact absurd ‹_› hc.2
  · exact absurd ‹_› hc'
  · rfl

lemma beforeBrace_of_blank (hc : CharClass.isBlank (s.document.readAt q) = true) :
    s.beforeBrace brace line nested p =
      if s.exhausted q then brace else s.beforeBrace brace p.line nested q := by
  rw [beforeBrace, dif_neg h0]
  simp only [hq, if_pos hc]

lemma beforeBrace_of_slash (hc : s.document.readAt q = '/') (hy : s.leaveBlockComment q = y) :
    s.beforeBrace brace line nested p =
      if s.exhausted y then brace else s.beforeBrace brace p.line nested y := by
  have hb : CharClass.isBlank '/' = false := by decide
  rw [beforeBrace, dif_neg h0]
  simp [hq, hc, hb, hy]

lemma beforeBrace_of_closing (hc : s.document.readAt q = '}') : s.beforeBrace brace line nested p =
    if s.exhausted q then brace else s.beforeBrace brace p.line (nested + 1) q := by
  have hb : CharClass.isBlank '}' = false := by decide
  rw [beforeBrace, dif_neg h0]
  simp [hq, hc, hb]

lemma beforeBrace_zero_of_other (hb : CharClass.isBlank (s.document.readAt q) = false)
    (hc : s.document.readAt q ≠ '/') (hc' : s.document.readAt q ≠ '}') :
    s.beforeBrace brace line 0 p = if s.document.readAt q = '{' then brace else s.selectorStart q := by
  rw [beforeBrace, dif_neg h0]
  simp [hq, hb, hc, hc']

lemma beforeBrace_succ_of_other (hb : CharClass.isBlank (s.document.readAt q) = false)
    (hc : s.document.readAt q ≠ '/') (hc' : s.document.readAt q ≠ '}') :
    s.beforeBrace brace line (nested + 1) p = if s.exhausted q then brace
      else s.beforeBrace brace p.line (if s.document.readAt q = '{' then nested else nested + 1) q := by
  rw [beforeBrace, dif_neg h0]
  simp [hq, hb, hc, hc']

end Step

/-- The brace of a block with so many blocks open between it and a place, or the start of the text. -/
inductive Around (d : Document) (p : Position) (n : Nat) : Front → Prop
  | start : Around d p n (.edge .origin)
  | brace {q : Position} (valid : d.Valid q) (opening : d.readAt q = '{') (inside : d.Opens n (d.after q) p) :
      Around d p n (.brace q)

lemma Around.concat {d : Document} {m n : Nat} {front : Front} (h : Around d (d.prev p) m front) (hp : d.Valid p)
    (h0 : p ≠ .origin) (hm : nest m [d.letter (d.prev p)] = some n) : Around d p n front := by
  cases h with
  | start => exact .start
  | brace hq hb hin => exact .brace hq hb (hin.concat hp h0 hm)

/-- Where blocks nest, going back leads to the brace of the innermost block around, or to the start of
the text. -/
theorem findBrace_nesting (hd : s.document.Plain) (hl : s.lineComments = true)
    (hp : s.document.Valid p) (line depth : Nat) : Around s.document p depth (s.findBrace line depth p) := by
  induction p, hp using backward_induction generalizing line depth with
  | base =>
    rw [findBrace_origin]
    exact .start
  | step p hp h0 ih =>
    have found (m : Nat) (hm : nest m [s.document.letter (s.document.prev p)] = some depth) :
        Around s.document p depth (if s.exhausted (s.document.prev p) then Front.edge .origin
          else s.findBrace p.line m (s.document.prev p)) := by
      split_ifs
      · exact .start
      · exact (ih p.line m).concat hp h0 hm
    by_cases ho : s.document.readAt (s.document.prev p) = '{'
    · cases depth with
      | zero =>
        rw [findBrace_zero_of_opening h0 (stepBack_of_plain hd) ho]
        refine .brace (valid_prev hp) ho ?_
        rw [after_prev hp h0]
        exact .here hp
      | succ n =>
        rw [findBrace_succ_of_opening h0 (stepBack_of_plain hd) ho]
        exact found n (nest_letter_opening ho)
    · by_cases hc : s.document.readAt (s.document.prev p) = '}'
      · rw [findBrace_of_closing h0 (stepBack_of_plain hd) hc, if_pos hl]
        exact found (depth + 1) (nest_letter_closing hc)
      · have hb : ¬ IsBrace (s.document.readAt (s.document.prev p)) := not_or.2 ⟨ho, hc⟩
        rw [findBrace_of_other h0 (stepBack_of_plain hd) hb (hd.readAt_prev hp h0)]
        exact found depth (nest_letter_other hb)

/-- A stretch without braces in which going back is not at its end. -/
structure Clear (s : RegionSearch) (e p : Position) : Prop where
  noBrace : s.document.Throughout (¬ IsBrace ·) e p
  near : ∀ x, s.document.Valid x → e ≤ x → x < p → s.exhausted x = false

/-- Where blocks do not nest, going back ends at the last brace, at the start of the text or where it
may go no further. -/
theorem findBrace_flat (hd : s.document.Plain) (hl : s.lineComments = false)
    (hp : s.document.Valid p) (line : Nat) :
    ∃ e, s.document.Valid e ∧ e ≤ p ∧ s.Clear e p ∧
      (s.findBrace line 0 p = .edge .origin ∧
          (e = .origin ∨ ¬ IsBrace (s.document.readAt (s.document.prev e)) ∧
            s.exhausted (s.document.prev e) = true) ∨
        e ≠ .origin ∧ s.document.readAt (s.document.prev e) = '{' ∧
          s.findBrace line 0 p = .brace (s.document.prev e) ∨
        e ≠ .origin ∧ s.document.readAt (s.document.prev e) = '}' ∧
          s.findBrace line 0 p = .edge e) := by
  induction p, hp using backward_induction generalizing line with
  | base =>
    exact ⟨.origin, valid_origin _, le_refl _, ⟨throughout_self, fun x _ h h' => by order⟩,
      .inl ⟨findBrace_origin, .inl rfl⟩⟩
  | step p hp h0 ih =>
    have here : s.Clear p p := ⟨throughout_self, fun x _ h h' => by order⟩
    by_cases ho : s.document.readAt (s.document.prev p) = '{'
    · exact ⟨p, hp, le_refl p, here, .inr (.inl ⟨h0, ho, findBrace_zero_of_opening h0 (stepBack_of_plain hd) ho⟩)⟩
    · by_cases hc : s.document.readAt (s.document.prev p) = '}'
      · refine ⟨p, hp, le_refl p, here, .inr (.inr ⟨h0, hc, ?_⟩)⟩
        rw [findBrace_of_closing h0 (stepBack_of_plain hd) hc, hl, if_neg Bool.false_ne_true, after_prev hp h0]
      · have hb : ¬ IsBrace (s.document.readAt (s.document.prev p)) := not_or.2 ⟨ho, hc⟩
        rw [findBrace_of_other h0 (stepBack_of_plain hd) hb (hd.readAt_prev hp h0)]
        cases hx : s.exhausted (s.document.prev p) with
        | true => exact ⟨p, hp, le_refl p, here, .inl ⟨rfl, .inr ⟨hb, hx⟩⟩⟩
        | false =>
          obtain ⟨e, he, hle, hclear, hfound⟩ := ih p.line
          refine ⟨e, he, hle.trans (prev_le _ p), ⟨hclear.noBrace.concat hp hb, ?_⟩, by simpa using hfound⟩
          intro x hv hex hxp
          rcases lt_or_eq_of_le (le_prev hv hp hxp) with hx' | rfl
          · exact hclear.near x hv hex hx'
          · exact hx

lemma skipBlanks_spec (hp : s.document.Valid p) :
    s.document.Valid (s.skipBlanks p) ∧ p ≤ s.skipBlanks p ∧
      s.document.Throughout (CharClass.isBlank · = true) p (s.skipBlanks p) ∧
      (s.skipBlanks p = s.document.stop ∨
        CharClass.isBlank (s.document.readAt (s.skipBlanks p)) = false) :=
  Cursor.skipWhile_spec rfl hp

lemma skipBlanks_of_significant (hp : s.document.Valid p) (hq : s.document.Valid q) (hpq : p ≤ q)
    (hb : CharClass.isBlank (s.document.readAt q) = false) :
    s.skipBlanks p ≤ q ∧ CharClass.isBlank (s.document.readAt (s.skipBlanks p)) = false := by
  obtain ⟨hv, -, hblank, hend⟩ := skipBlanks_spec hp
  have hle : s.skipBlanks p ≤ q := by
    by_contra hlt
    have ht : CharClass.isBlank (s.document.readAt q) = true := hblank q hq hpq (not_le.1 hlt)
    rw [hb] at ht
    cases ht
  refine ⟨hle, ?_⟩
  rcases hend with hstop | hsig
  · rwa [le_antisymm hle (hstop ▸ le_stop hq)]
  · exact hsig

/-- From a character of a selector the search goes back to the delimiter before it, to the start of
the text or as far as it may. -/
lemma selectorStart_spec (hd : s.document.Plain) (hp : s.document.Valid p) :
    ∃ e, s.document.Valid e ∧ e ≤ p ∧ s.selectorStart p = s.skipBlanks e ∧
      s.document.Throughout (¬ IsDelimiter ·) e p ∧
      (e = .origin ∨ e ≤ s.farthest ∨ IsDelimiter (s.document.readAt (s.document.prev e))) := by
  induction p, hp using backward_induction with
  | base =>
    exact ⟨.origin, valid_origin _, le_refl _, by rw [selectorStart, dif_pos rfl], throughout_self,
      .inl rfl⟩
  | step p hp h0 ih =>
    by_cases hf : p ≤ s.farthest
    · exact ⟨p, hp, le_refl p, by rw [selectorStart, dif_neg h0, if_pos hf], throughout_self,
        .inr (.inl hf)⟩
    · by_cases hc : IsDelimiter (s.document.readAt (s.document.prev p))
      · refine ⟨p, hp, le_refl p, ?_, throughout_self, .inr (.inr hc)⟩
        rw [selectorStart, dif_neg h0, if_neg hf]
        rcases hc with hc | hc | hc <;> simp [hc]
      · obtain ⟨e, he, hle, heq, hno, hend⟩ := ih
        refine ⟨e, he, hle.trans (prev_le _ p), ?_, hno.concat hp hc, hend⟩
        have hs := hd.readAt_prev hp h0
        rw [selectorStart, dif_neg h0, if_neg hf]
        simp only [IsDelimiter, not_or] at hc
        simpa [hd.lineCommentColumn, hc, hs] using heq

lemma exists_selectorStart_eq (hp : s.document.Valid p) :
    ∃ e, s.document.Valid e ∧ e ≤ p ∧ s.selectorStart p = s.skipBlanks e ∧
      s.document.Throughout (¬ IsDelimiter ·) e p := by
  fun_induction selectorStart s p with
  | case1 | case2 | case3 | case4 => exact ⟨_, hp, le_refl _, rfl, throughout_self⟩
  | case5 p _ _ q c _ hc ih =>
    obtain ⟨e, he, hle, heq, hno⟩ := ih (valid_prev hp)
    refine ⟨e, he, hle.trans (prev_le _ p), heq, hno.concat hp ?_⟩
    rintro (hd | hd | hd)
    · exact hc (.inl hd)
    · exact hc (.inr (.inl hd))
    · exact hc (.inr (.inr (.inl hd)))

lemma selectorStart_le (hq : s.document.Valid q) (hb : CharClass.isBlank (s.document.readAt q) = false) :
    s.document.Valid (s.selectorStart q) ∧ s.selectorStart q ≤ q ∧
      s.document.Throughout (¬ IsDelimiter ·) (s.selectorStart q) q := by
  obtain ⟨e, he, hle, heq, hno⟩ := exists_selectorStart_eq hq
  obtain ⟨hv, hes, -, -⟩ := skipBlanks_spec he
  rw [heq]
  exact ⟨hv, (skipBlanks_of_significant he hq hle hb).1, hno.sub hes (le_refl q)⟩

/-- The start of a selector is its first significant character, if the search may go back to it. -/
theorem selectorStart_eq {y e : Position} (hd : s.document.Plain) (hq : s.document.Valid q)
    (hy : s.document.Valid y) (hyq : y ≤ q) (he : s.document.Valid e) (hey : e ≤ y)
    (hfirst : CharClass.isBlank (s.document.readAt y) = false)
    (hno : s.document.Throughout (¬ IsDelimiter ·) y q)
    (hblank : s.document.Throughout (CharClass.isBlank · = true) e y)
    (hend : e = .origin ∨ IsDelimiter (s.document.readAt (s.document.prev e)))
    (hnear : s.farthest < y ∨ s.farthest = .origin) : s.selectorStart q = y := by
  obtain ⟨a, ha, haq, heq, hnoa, hstop⟩ := selectorStart_spec hd hq
  obtain ⟨hz, haz, hblanka, hzend⟩ := skipBlanks_spec (s := s) ha
  rw [heq]
  have hay : a ≤ y := by
    rcases hstop with rfl | hf | hdel
    · exact Position.origin_le y
    · rcases hnear with hn | hn
      · order
      · exact (hf.trans (le_of_eq hn)).trans (Position.origin_le y)
    · by_contra hya
      have hya := not_le.1 hya
      have ha0 := ne_origin_of_lt hya
      have hlt := prev_lt (d := s.document) ha0
      exact hno _ (valid_prev ha) (le_prev hy ha hya) (by order) hdel
  have hzy : s.skipBlanks a ≤ y := by
    by_contra hyz
    have ht : CharClass.isBlank (s.document.readAt y) = true := hblanka y hy hay (not_le.1 hyz)
    rw [hfirst] at ht
    cases ht
  refine le_antisymm hzy (not_lt.1 fun hlt => ?_)
  have hsig : CharClass.isBlank (s.document.readAt (s.skipBlanks a)) = false := by
    refine hzend.resolve_left fun hs => ?_
    have := le_stop hy
    order
  have hze : s.skipBlanks a < e := by
    by_contra hez
    have ht : CharClass.isBlank (s.document.readAt (s.skipBlanks a)) = true :=
      hblank _ hz (not_lt.1 hez) hlt
    rw [hsig] at ht
    cases ht
  have he0 := ne_origin_of_lt hze
  have hprev := prev_lt (d := s.document) he0
  exact hnoa _ (valid_prev he) (haz.trans (le_prev hz he hze)) (by order) (hend.resolve_left he0)

/-- From the start that is found up to the brace as many blocks are closed as are opened. -/
theorem beforeBrace_nest (hd : s.document.Plain) (hp : s.document.Valid p) (brace : Position)
    (line nested : Nat) :
    s.beforeBrace brace line nested p = brace ∨
      s.document.Opens nested (s.beforeBrace brace line nested p) p := by
  induction p, hp using backward_induction generalizing line nested with
  | base => exact .inl beforeBrace_origin
  | step p hp h0 ih =>
    have found (m : Nat) (hm : nest m [s.document.letter (s.document.prev p)] = some nested) :
        (if s.exhausted (s.document.prev p) then brace
          else s.beforeBrace brace p.line m (s.document.prev p)) = brace ∨
        s.document.Opens nested (if s.exhausted (s.document.prev p) then brace
          else s.beforeBrace brace p.line m (s.document.prev p)) p := by
      split_ifs
      · exact .inl rfl
      · exact (ih p.line m).imp_right fun h => h.concat hp h0 hm
    cases hb : CharClass.isBlank (s.document.readAt (s.document.prev p)) with
    | true =>
      rw [beforeBrace_of_blank h0 (stepBack_of_plain hd) hb]
      exact found nested (nest_letter_other (not_isBrace_of_isBlank hb))
    | false =>
      by_cases hc : s.document.readAt (s.document.prev p) = '}'
      · rw [beforeBrace_of_closing h0 (stepBack_of_plain hd) hc]
        exact found (nested + 1) (nest_letter_closing hc)
      · cases nested with
        | succ n =>
          rw [beforeBrace_succ_of_other h0 (stepBack_of_plain hd) hb (hd.readAt_prev hp h0) hc]
          by_cases ho : s.document.readAt (s.document.prev p) = '{'
          · rw [if_pos ho]
            exact found n (nest_letter_opening ho)
          · rw [if_neg ho]
            exact found (n + 1) (nest_letter_other (not_or.2 ⟨ho, hc⟩))
        | zero =>
          rw [beforeBrace_zero_of_other h0 (stepBack_of_plain hd) hb (hd.readAt_prev hp h0) hc]
          split_ifs with ho
          · exact .inl rfl
          · -- a selector holds no brace
            have hv := valid_prev hp
            obtain ⟨hy, hle, hno⟩ := selectorStart_le hv hb
            have hopens : s.document.Opens 0 (s.selectorStart (s.document.prev p)) (s.document.prev p) :=
              ⟨hy, hle, nest_row_of_no_brace hy hv hle (hno.mono fun c hc hb => hc (isDelimiter_of_isBrace hb))⟩
            exact .inr (hopens.concat hp h0 (nest_letter_other (not_or.2 ⟨ho, hc⟩)))

lemma opens_beforeBrace (hd : s.document.Plain) (hp : s.document.Valid p) (line : Nat) :
    s.document.Opens 0 (s.beforeBrace p line 0 p) p := by
  rcases beforeBrace_nest hd hp p line 0 with hy | h
  · rw [hy]
    exact .here hp
  · exact h

/-- Over blanks the search goes back to the last character of the selector. -/
theorem beforeBrace_eq (hd : s.document.Plain) (hq : s.document.Valid q)
    (hsig : CharClass.isBlank (s.document.readAt q) = false)
    (hbrace : ¬ IsBrace (s.document.readAt q)) (hp : s.document.Valid p) (hqp : q < p)
    (hblank : s.document.Throughout (CharClass.isBlank · = true) (s.document.after q) p)
    (hnear : ∀ x, s.document.Valid x → q < x → x < p → s.exhausted x = false) :
    s.beforeBrace brace line 0 p = s.selectorStart q := by
  induction p, hp using backward_induction generalizing line with
  | base => exact absurd hqp (not_lt.2 (Position.origin_le q))
  | step p hp h0 ih =>
    have hlt := prev_lt (d := s.document) h0
    have hv := valid_prev hp
    rcases lt_or_eq_of_le (le_prev hq hp hqp) with hx | hx
    · have hb : CharClass.isBlank (s.document.readAt (s.document.prev p)) = true :=
        hblank _ hv (after_le hv hx) hlt
      rw [beforeBrace_of_blank h0 (stepBack_of_plain hd) hb, hnear _ hv hx hlt, if_neg Bool.false_ne_true]
      exact ih hx (hblank.sub (le_refl _) (le_of_lt hlt))
        fun x hvx hqx hxp => hnear x hvx hqx (hxp.trans hlt)
    · rw [IsBrace, not_or, hx] at hbrace
      rw [hx] at hsig
      rw [beforeBrace_zero_of_other h0 (stepBack_of_plain hd) hsig (hd.readAt_prev hp h0) hbrace.2, if_neg hbrace.1, hx]

lemma stopAfter_cons {lineComments : Bool} {last : Position} {g : Glyph} (gs : List Glyph)
    (h : g.char ≠ '/') : stopAfter lineComments last (g :: gs) =
      if g.char = '}' then g.stop else stopAfter lineComments last gs := by
  rw [stopAfter.eq_def]
  simp [h]

/-- A region ends after the first closing brace from its position on, or at the end of the text. -/
theorem stop_spec (hd : s.document.Plain) (hp : s.document.Valid s.position) :
    ∃ e, s.document.Valid e ∧ s.position ≤ e ∧ s.document.Throughout (· ≠ '}') s.position e ∧
      Reading.CutAt s.document e s.stop := by
  unfold stop
  have hle := le_stop hp
  generalize s.position = p at hp hle ⊢
  induction p, hp, hle using forward_induction s.document.valid_stop with
  | base =>
    refine ⟨_, valid_stop _, le_refl _, throughout_self, .last rfl ?_⟩
    rw [glyphs_self, stopAfter]
  | step p hv hlt _ _ ih =>
    have hs : (s.document.glyphAt p).char ≠ '/' := (hd.readAt hv hlt).2.2.2
    rw [glyphs_cons s.document.valid_stop hlt, stopAfter_cons _ hs, glyphAt_char, glyphAt_stop]
    by_cases hc : s.document.readAt p = '}'
    · rw [if_pos hc]
      exact ⟨p, hv, le_refl p, throughout_self, .brace hlt hc rfl⟩
    · rw [if_neg hc]
      obtain ⟨e, he, hle, hno, hend⟩ := ih
      exact ⟨e, he, (le_of_lt (lt_after _ p)).trans hle, hno.cons hc, hend⟩

end RegionSearch
end AbbrevSite
