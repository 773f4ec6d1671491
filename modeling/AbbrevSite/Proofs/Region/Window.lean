import AbbrevSite.Proofs.Region.Bounds
import AbbrevSite.Proofs.Text.Offsets

/-! The region around a position of a document without comments, strings and groups: where it starts,
where it ends and the tree that is read of it. -/
namespace AbbrevSite

open Sheet Document

namespace RegionSearch

variable {s : RegionSearch}

/-- Where blocks nest, a region starts with the text or at the selector of the innermost block. -/
theorem start_nesting (hd : s.document.Plain) (hl : s.lineComments = true)
    (hp : s.document.Valid s.position) :
    s.start = .origin ∨
      ∃ q, s.document.Valid q ∧ q < s.position ∧ s.document.readAt q = '{' ∧
        nest 0 (s.document.row (s.document.after q) s.position) = some 0 ∧
        s.document.Valid s.start ∧ s.start ≤ q ∧ nest 0 (s.document.row s.start q) = some 0 := by
  have haround := findBrace_nesting hd hl hp s.position.line 0
  generalize hf : s.findBrace s.position.line 0 s.position = front at haround
  cases haround with
  | start => exact .inl (start_of_edge hf)
  | @brace q hq hb hin =>
    have hopens := opens_beforeBrace hd hq q.line
    rw [← start_of_brace hf] at hopens
    exact .inr ⟨q, hq, (lt_after _ q).trans_le hin.le, hb, hin.nest, hopens.valid, hopens.le, hopens.nest⟩

/-- Where a region starts if blocks do not nest, by the place where going back ends: with the text, at the selector
of an opening brace or after a closing one. -/
inductive FlatStart (s : RegionSearch) (e : Position) : Prop
  | text (start : s.start = .origin)
      (ends : e = .origin ∨ ¬ IsBrace (s.document.readAt (s.document.prev e)) ∧
        s.exhausted (s.document.prev e) = true)
  | opening (ne_origin : e ≠ .origin) (brace : s.document.readAt (s.document.prev e) = '{')
      (start : s.start = s.beforeBrace (s.document.prev e) (s.document.prev e).line 0 (s.document.prev e))
      (balanced : s.document.Opens 0 s.start (s.document.prev e))
  | closing (ne_origin : e ≠ .origin) (brace : s.document.readAt (s.document.prev e) = '}') (start : s.start = e)

theorem start_flat (hd : s.document.Plain) (hl : s.lineComments = false)
    (hp : s.document.Valid s.position) :
    ∃ e, s.document.Valid e ∧ e ≤ s.position ∧ s.Clear e s.position ∧ s.FlatStart e := by
  obtain ⟨e, he, hle, hclear, hfound⟩ := findBrace_flat hd hl hp s.position.line
  refine ⟨e, he, hle, hclear, ?_⟩
  rcases hfound with ⟨hf, hend⟩ | ⟨h0, hb, hf⟩ | ⟨h0, hb, hf⟩
  · exact .text (start_of_edge hf) hend
  · have hs := start_of_brace hf
    exact .opening h0 hb hs (hs ▸ opens_beforeBrace hd (valid_prev he) _)
  · exact .closing h0 hb (start_of_edge hf)

end RegionSearch

namespace Document

variable {d : Document} {p : Position} {limits : Limits}

lemma sheetDialect_of_name {dialect : Dialect} (h : d.languageId = dialect.name)
    (hs : dialect.isStylesheet = true) : d.sheetDialect = dialect := by
  unfold sheetDialect
  rw [h, Dialect.ofName?_name]
  exact if_pos hs

abbrev search (d : Document) (limits : Limits) (p : Position) : RegionSearch :=
  .new d d.sheetDialect limits p

lemma search_position (limits : Limits) (hp : d.Valid p) : (d.search limits p).position = p :=
  clamp_of_valid hp

lemma search_farthest (limits : Limits) (hp : d.Valid p) :
    (d.search limits p).farthest = d.positionAt (d.offsetAt p - limits.lookbackChars) := by
  rw [← congrArg d.offsetAt (clamp_of_valid hp)]
  rfl

lemma search_lineComments {dialect : Dialect} (limits : Limits) (p : Position)
    (h : d.languageId = dialect.name) (hs : dialect.isStylesheet = true) :
    (d.search limits p).lineComments = dialect.hasLineComments := by
  rw [← sheetDialect_of_name h hs]
  rfl

lemma valid_search_position (limits : Limits) (hp : d.Valid p) :
    d.Valid (d.search limits p).position := by rwa [search_position limits hp]

lemma Plain.search_stop (h : d.Plain) (limits : Limits) (hp : d.Valid p) :
    ∃ e, d.Valid e ∧ p ≤ e ∧ d.Throughout (· ≠ '}') p e ∧
      Reading.CutAt d e (d.search limits p).stop := by
  have hs := RegionSearch.stop_spec (s := d.search limits p) h (valid_search_position limits hp)
  rwa [search_position limits hp] at hs

lemma Plain.search_start (h : d.Plain) (limits : Limits) (hp : d.Valid p)
    (hl : (d.search limits p).lineComments = true) :
    (d.search limits p).start = .origin ∨
      ∃ q, d.Valid q ∧ q < p ∧ d.readAt q = '{' ∧ nest 0 (d.row (d.after q) p) = some 0 ∧
        d.Valid (d.search limits p).start ∧ (d.search limits p).start ≤ q ∧
        nest 0 (d.row (d.search limits p).start q) = some 0 := by
  have hs := RegionSearch.start_nesting (s := d.search limits p) h hl
    (valid_search_position limits hp)
  rwa [search_position limits hp] at hs

/-- The tree of the region around a position. -/
theorem Plain.parseAround?_eq_some_iff (h : d.Plain) (hp : d.Valid p) {t : Tree} :
    d.parseAround? limits p = some t ↔
      ∃ r window, Reading.run d .start
          (d.row (d.search limits p).start (d.search limits p).stop) = .ok r ∧
        r.finish d window (d.search limits p).stop = t ∧
        window = .between (d.search limits p).start (d.search limits p).stop := by
  have hv := valid_search_position limits hp
  have hs := RegionSearch.start_valid (s := d.search limits p) hv
  have he := RegionSearch.stop_valid (s := d.search limits p) hv
  have hle := RegionSearch.start_le_stop (s := d.search limits p) hv
  have hw := Span.between_of_le hle
  unfold parseAround? regionAround RegionSearch.region
  show (Sheet.parse (Cursor.within d (Span.between (d.search limits p).start
    (d.search limits p).stop).start (.between (d.search limits p).start
      (d.search limits p).stop)) _).toOption = _ ↔ _
  rw [hw, h.parse_within hs he hle]
  constructor
  · rintro ⟨r, hr, ht⟩
    exact ⟨r, _, hr, ht, rfl⟩
  · rintro ⟨r, w, hr, ht, rfl⟩
    exact ⟨r, hr, ht⟩

lemma Plain.parseAround?_eq_none_iff_nest (h : d.Plain) (hp : d.Valid p) :
    d.parseAround? limits p = none ↔
      nest 0 (d.row (d.search limits p).start (d.search limits p).stop) = none := by
  constructor
  · intro hn
    by_contra hc
    obtain ⟨n, hc⟩ := Option.ne_none_iff_exists'.1 hc
    obtain ⟨r, hr, -⟩ := Reading.exists_run_row hc
    have hs := (h.parseAround?_eq_some_iff hp).2 ⟨r, _, hr, rfl, rfl⟩
    rw [hn] at hs
    cases hs
  · intro hn
    cases ht : d.parseAround? limits p with
    | none => rfl
    | some t =>
      obtain ⟨r, _, hr, -, -⟩ := (h.parseAround?_eq_some_iff hp).1 ht
      rw [Reading.nest_row_of_run hr] at hn
      cases hn

lemma exhausted_eq_false_iff {x : Position} (hp : d.Valid p) (hx : d.Valid x) (h0 : x ≠ .origin) :
    (d.search limits p).exhausted x = false ↔
      p.line - x.line ≤ limits.lookbackLines ∧
        d.offsetAt p < d.offsetAt x + limits.lookbackChars := by
  have hpos : (d.search limits p).position = p := search_position limits hp
  have hx0 : 0 < d.offsetAt x := by
    have hlt : Position.origin < x := lt_of_le_of_ne (Position.origin_le x) (Ne.symm h0)
    have := offsetAt_lt d.valid_origin hx hlt
    omega
  have hle : d.offsetAt p - limits.lookbackChars ≤ d.length :=
    (Nat.sub_le _ _).trans (offsetAt_le_length hp)
  unfold RegionSearch.exhausted
  rw [Bool.or_eq_false_iff, hpos, search_farthest limits hp, decide_eq_false_iff_not, decide_eq_false_iff_not, not_le,
    positionAt_lt_iff hle hx, Nat.not_lt]
  refine and_congr Iff.rfl ?_
  omega

end Document

namespace RegionSearch

variable {s : RegionSearch} {e e' p : Position}

/-- A place where going back ends: after a brace, at the start of the text or as far as it may go. -/
def Ends (s : RegionSearch) (e : Position) : Prop :=
  e = .origin ∨ IsBrace (s.document.readAt (s.document.prev e)) ∨
    s.exhausted (s.document.prev e) = true

lemma Clear.le_of_ends (h : s.Clear e p) (he : s.document.Valid e) (he' : s.document.Valid e')
    (hle : e' ≤ p) (hends : s.Ends e') : e' ≤ e := by
  by_contra hlt
  have hlt := not_le.1 hlt
  have h0 := ne_origin_of_lt hlt
  have hprev := prev_lt (d := s.document) h0
  have hx := le_prev he he' hlt
  rcases hends with rfl | hb | hx'
  · exact h0 rfl
  · exact h.noBrace _ (valid_prev he') hx (by order) hb
  · have := h.near _ (valid_prev he') hx (by order)
    rw [hx'] at this
    cases this

theorem Clear.eq_of_ends (h : s.Clear e p) (h' : s.Clear e' p) (he : s.document.Valid e)
    (he' : s.document.Valid e') (hle : e ≤ p) (hle' : e' ≤ p) (hends : s.Ends e)
    (hends' : s.Ends e') : e = e' :=
  le_antisymm (h'.le_of_ends he' he hle hends) (h.le_of_ends he he' hle' hends')

lemma FlatStart.ends (h : s.FlatStart e) : s.Ends e := by
  rcases h with ⟨-, he | ⟨-, hx⟩⟩ | ⟨-, hb⟩ | ⟨-, hb⟩
  · exact .inl he
  · exact .inr (.inr hx)
  · exact .inr (.inl (.inl hb))
  · exact .inr (.inl (.inr hb))

section Flat

variable (hd : s.document.Plain) (hl : s.lineComments = false)
  (hp : s.document.Valid s.position)
include hd hl hp

theorem start_of_ends (he : s.document.Valid e) (hle : e ≤ s.position)
    (hclear : s.Clear e s.position) (hends : s.Ends e) : s.FlatStart e := by
  obtain ⟨e', he', hle', hclear', hstart⟩ := start_flat hd hl hp
  obtain rfl := hclear.eq_of_ends hclear' he he' hle hle' hends hstart.ends
  exact hstart

lemma start_of_opening {q : Position} (hq : s.document.Valid q) (hqp : q < s.position)
    (ho : s.document.readAt q = '{') (hclear : s.Clear (s.document.after q) s.position) :
    s.start = s.beforeBrace q q.line 0 q := by
  have hva := valid_after hq (lt_of_lt_of_le hqp (Document.le_stop hp))
  have hprev : s.document.prev (s.document.after q) = q := prev_after hq.2
  have hends : s.Ends (s.document.after q) := .inr (.inl (.inl (by rw [hprev, ho])))
  cases start_of_ends hd hl hp hva (after_le hp hqp) hclear hends with
  | text _ hend =>
    rw [hprev] at hend
    rcases hend with he | ⟨hb, -⟩
    · exact absurd he (ne_origin_of_lt (lt_after _ q))
    · exact absurd (.inl ho) hb
  | opening _ _ hs => rwa [hprev] at hs
  | closing _ hb =>
    rw [hprev, ho] at hb
    exact absurd hb (by decide)

lemma start_of_closing (he : s.document.Valid e) (h0 : e ≠ .origin) (hle : e ≤ s.position)
    (hc : s.document.readAt (s.document.prev e) = '}') (hclear : s.Clear e s.position) :
    s.start = e := by
  cases start_of_ends hd hl hp he hle hclear (.inr (.inl (.inr hc))) with
  | text _ hend =>
    rcases hend with he | ⟨hb, -⟩
    · exact absurd he h0
    · exact absurd (.inr hc) hb
  | opening _ hb =>
    rw [hc] at hb
    exact absurd hb (by decide)
  | closing _ _ hs => exact hs

end Flat

end RegionSearch
end AbbrevSite
