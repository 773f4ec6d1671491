import AbbrevSite.Proofs.Region.Window
import Mathlib

/-! When the region around a position of plain `css` can be read. Blocks are not expected to nest there,
so that the search starts after the last block closed; a position between the end of a nested block and
the end of the block around has no tree. -/
namespace AbbrevSite

open Sheet Document

variable {d : Document} {p e c : Position} {limits : Limits}

namespace Document

lemma Plain.exists_nest_row_origin (h : d.Plain) {dialect : Dialect}
    (hs : dialect.isStylesheet = true) (hread : (d.parse? dialect).isSome = true)
    (hp : d.Valid p) : ∃ n, nest 0 (d.row .origin p) = some n := by
  obtain ⟨t, ht⟩ := Option.isSome_iff_exists.1 hread
  obtain ⟨r, hr, -⟩ := (h.parse?_eq_some_iff hs).1 ht
  exact exists_nest_row_of_le d.valid_origin hp d.valid_stop (Position.origin_le p) (le_stop hp)
    (Reading.nest_row_of_run hr)

end Document

/-- The first brace from `p` on, at `c`, closes a block. -/
structure ClosesNext (d : Document) (p c : Position) : Prop where
  valid : d.Valid c
  le : p ≤ c
  lt_stop : c < d.stop
  closing : d.readAt c = '}'
  noBrace : d.Throughout (¬ IsBrace ·) p c

/-- The last brace before `p`, right before `e`, closes a block. -/
structure ClosesLast (d : Document) (e p : Position) : Prop where
  valid : d.Valid e
  ne_origin : e ≠ .origin
  le : e ≤ p
  closing : d.readAt (d.prev e) = '}'
  noBrace : d.Throughout (¬ IsBrace ·) e p

lemma nest_row_opening {a x : Position} {m : Nat} (ha : d.Valid a) (hx : d.Valid x)
    (hc : d.Valid c) (hax : a ≤ x) (hxc : x < c) (hm : nest 0 (d.row a x) = some m)
    (ho : d.readAt x = '{') (hno : d.Throughout (· ≠ '}') (d.after x) c) :
    ∃ n, nest 0 (d.row a c) = some (n + 1) := by
  have hva := valid_after hx (lt_of_lt_of_le hxc (le_stop hc))
  obtain ⟨k, hk⟩ := exists_nest_row (n := m + 1) hva hc (after_le hc hxc) hno
  refine ⟨m + k, ?_⟩
  rw [row_append ha hx hc hax (le_of_lt hxc), nest_append, hm, row_cons hc hxc,
    ← List.singleton_append, Option.bind_some, nest_append, nest_letter_opening ho,
    Option.bind_some, hk]
  congr 1
  omega

namespace RegionSearch

variable {s : RegionSearch}

lemma stop_of_closesNext (hd : s.document.Plain) (hp : s.document.Valid s.position)
    (h : ClosesNext s.document s.position c) : s.stop = s.document.after c := by
  obtain ⟨e, he, hpe, hno, ⟨rfl, -⟩ | ⟨-, hc, hs⟩⟩ := stop_spec hd hp
  · exact absurd h.closing (hno c h.valid h.le h.lt_stop)
  · rcases lt_trichotomy e c with hlt | rfl | hlt
    · exact absurd (.inr hc) (h.noBrace e he hpe hlt)
    · exact hs
    · exact absurd h.closing (hno c h.valid h.le hlt)

/-- From a place after which no block is closed before the position, a region can be read unless the
next brace closes one. -/
lemma nest_row_stop_eq_none_iff (hd : s.document.Plain) (hp : s.document.Valid s.position)
    (h : ClosesLast s.document e s.position) :
    nest 0 (s.document.row e s.stop) = none ↔ ∃ c, ClosesNext s.document s.position c := by
  constructor
  · intro hn
    obtain ⟨c, hc, hpc, hno, hend⟩ := stop_spec hd hp
    have hec := h.le.trans hpc
    have hnoe : s.document.Throughout (· ≠ '}') e c :=
      (h.noBrace.mono fun x hx hx' => hx (.inr hx')).append hno
    rcases hend with ⟨-, hs⟩ | ⟨hlt, hcl, hs⟩
    · obtain ⟨k, hk⟩ := exists_nest_row (n := 0) h.valid hc hec hnoe
      rw [hs, hk] at hn
      cases hn
    · refine ⟨c, hc, hpc, hlt, hcl, fun x hx hpx hxc => ?_⟩
      rintro (ho | hx')
      · -- an opening brace on the way would be closed by the one at `c`
        have hex := h.le.trans hpx
        obtain ⟨m, hm⟩ := exists_nest_row (n := 0) h.valid hx hex (hnoe.sub (le_refl e) (le_of_lt hxc))
        have hax := hex.trans (le_of_lt (lt_after s.document x))
        obtain ⟨n, hn'⟩ := nest_row_opening h.valid hx hc hex hxc hm ho (hnoe.sub hax (le_refl c))
        have hva := valid_after hc hlt
        rw [hs, nest_row_concat h.valid hva (lt_of_le_of_lt hec (lt_after _ c)), prev_after hc.2,
          hn', Option.bind_some, nest_letter_closing hcl] at hn
        cases hn
      · exact hno x hx hpx hxc hx'
  · rintro ⟨c, hc⟩
    have hec := h.le.trans hc.le
    have hva := valid_after hc.valid hc.lt_stop
    rw [stop_of_closesNext hd hp hc, nest_row_concat h.valid hva
      (lt_of_le_of_lt hec (lt_after _ c)), prev_after hc.valid.2,
      nest_row_of_no_brace h.valid hc.valid hec (h.noBrace.append hc.noBrace), Option.bind_some,
      nest_closing_zero (by rw [letter_shape, hc.closing])]

/-- A region of a text that can be read can be read too, unless it starts after a block closed. -/
lemma closesLast_of_nest_eq_none (hd : s.document.Plain) (hl : s.lineComments = false)
    (hp : s.document.Valid s.position) {n : Nat}
    (hread : nest 0 (s.document.row .origin s.document.stop) = some n)
    (hn : nest 0 (s.document.row s.start s.stop) = none) :
    ∃ e, ClosesLast s.document e s.position ∧ s.Clear e s.position ∧ s.start = e := by
  obtain ⟨e, he, hle, hclear, hstart⟩ := start_flat hd hl hp
  have hvs := stop_valid hp
  rcases hstart with ⟨hs, -⟩ | ⟨h0, ho, -, hv, hsle, hnest⟩ | ⟨h0, hb, hs⟩
  · obtain ⟨k, hk⟩ := exists_nest_row_of_le s.document.valid_origin hvs s.document.valid_stop
      (Position.origin_le _) (Document.le_stop hvs) hread
    rw [hs, hk] at hn
    cases hn
  · obtain ⟨c, hc, hpc, hno, hend⟩ := stop_spec hd hp
    have hq := valid_prev he
    have hqc : s.document.prev e < c := by
      have := prev_lt (d := s.document) h0
      order
    have hnoe : s.document.Throughout (· ≠ '}') (s.document.after (s.document.prev e)) c := by
      rw [after_prev he h0]
      exact (hclear.noBrace.mono fun x hx hx' => hx (.inr hx')).append hno
    obtain ⟨m, hm⟩ := nest_row_opening hv hq hc hsle hqc hnest ho hnoe
    rcases hend with ⟨-, hs⟩ | ⟨hlt, hcl, hs⟩
    · rw [hs, hm] at hn
      cases hn
    · have hva := valid_after hc hlt
      have hsc : s.start < s.document.after c :=
        lt_of_lt_of_le (lt_of_le_of_lt hsle hqc) (le_of_lt (lt_after _ c))
      rw [hs, nest_row_concat hv hva hsc, prev_after hc.2, hm, Option.bind_some,
        nest_letter_closing hcl] at hn
      cases hn
  · exact ⟨e, ⟨he, h0, hle, hb, hclear.noBrace⟩, hclear, hs⟩

end RegionSearch

/-- Whether the search for the region around `p` may go back to `e`. -/
def Document.Reachable (d : Document) (limits : Limits) (e p : Position) : Prop :=
  e = p ∨ p.line - e.line ≤ limits.lookbackLines ∧
    d.offsetAt p < d.offsetAt e + limits.lookbackChars

lemma Document.clear_iff (hp : d.Valid p) (he : d.Valid e) (h0 : e ≠ .origin) (hle : e ≤ p)
    (hno : d.Throughout (¬ IsBrace ·) e p) :
    (d.search limits p).Clear e p ↔ d.Reachable limits e p := by
  constructor
  · intro h
    rcases lt_or_eq_of_le hle with hlt | rfl
    · exact .inr ((exhausted_eq_false_iff hp he h0).1 (h.near e he (le_refl e) hlt))
    · exact .inl rfl
  · rintro (rfl | ⟨hlines, hchars⟩)
    · exact ⟨hno, fun x _ hx hx' => by order⟩
    · refine ⟨hno, fun x hx hex hxp => ?_⟩
      have hx0 : x ≠ .origin := by
        rintro rfl
        exact h0 (le_antisymm hex (Position.origin_le e))
      refine (exhausted_eq_false_iff hp hx hx0).2 ⟨?_, ?_⟩
      · simp only [Position.le_def] at hex
        omega
      · rcases lt_or_eq_of_le hex with hlt | rfl
        · have := offsetAt_lt he hx hlt
          omega
        · exact hchars

/-- In a `css` document that can be read, the region around a position has a tree unless the position
stands between two braces that both close a block and the search may go back to the first of them. -/
theorem parseAround?_eq_none_iff (hlang : d.languageId = "css") (hplain : d.Plain)
    (hread : (d.parse? .css).isSome = true) (hp : d.Valid p) :
    d.parseAround? limits p = none ↔
      (∃ e, ClosesLast d e p ∧ d.Reachable limits e p) ∧ ∃ c, ClosesNext d p c := by
  have hpos := search_position limits hp
  have hv : (d.search limits p).document.Valid (d.search limits p).position :=
    valid_search_position limits hp
  have hname : d.languageId = Dialect.css.name := hlang
  have hl : (d.search limits p).lineComments = false := search_lineComments limits p hname rfl
  obtain ⟨n, hn⟩ := hplain.exists_nest_row_origin rfl hread d.valid_stop
  rw [hplain.parseAround?_eq_none_iff_nest hp]
  constructor
  · intro hnone
    obtain ⟨e, hlast, hclear, hs⟩ :=
      RegionSearch.closesLast_of_nest_eq_none (s := d.search limits p) hplain hl hv hn hnone
    rw [hs] at hnone
    have hnext :=
      (RegionSearch.nest_row_stop_eq_none_iff (s := d.search limits p) hplain hv hlast).1 hnone
    rw [hpos] at hlast hclear hnext
    exact ⟨⟨e, hlast, (clear_iff hp hlast.valid hlast.ne_origin hlast.le hlast.noBrace).1 hclear⟩,
      hnext⟩
  · rintro ⟨⟨e, hlast, hreach⟩, hnext⟩
    have hclear := (clear_iff hp hlast.valid hlast.ne_origin hlast.le hlast.noBrace).2 hreach
    have hlast' : ClosesLast d e (d.search limits p).position := by rwa [hpos]
    have hclear' : (d.search limits p).Clear e (d.search limits p).position := by rwa [hpos]
    have hnext' : ∃ c, ClosesNext d (d.search limits p).position c := by rwa [hpos]
    have hs := RegionSearch.start_of_closing (s := d.search limits p) hplain hl hv hlast.valid
      hlast.ne_origin hlast'.le hlast.closing hclear'
    rw [hs]
    exact (RegionSearch.nest_row_stop_eq_none_iff (s := d.search limits p) hplain hv hlast').2 hnext'

/-- Between the ends of two blocks, `@media p\x7ba\x7b\x7d|\x7d`, there is no tree. -/
theorem parseAround?_between_closings :
    let d := Document.ofText "css" "@media p\x7ba\x7b\x7d\x7d"
    d.languageId = "css" ∧ d.Plain ∧ (d.parse? .css).isSome = true ∧ d.Valid ⟨0, 12⟩ ∧
      (d.parseAround? .standard ⟨0, 12⟩ = none ↔
        (∃ e, ClosesLast d e ⟨0, 12⟩ ∧ d.Reachable .standard e ⟨0, 12⟩) ∧
          ∃ c, ClosesNext d ⟨0, 12⟩ c) :=
  have hplain : (Document.ofText "css" "@media p\x7ba\x7b\x7d\x7d").Plain := by decide
  have hread : ((Document.ofText "css" "@media p\x7ba\x7b\x7d\x7d").parse? .css).isSome = true := by
    simp only [Document.parse?, Cursor.parse, Sheet.parse_eq_parseLexemes]
    cbv
  have hp : (Document.ofText "css" "@media p\x7ba\x7b\x7d\x7d").Valid ⟨0, 12⟩ := by decide
  ⟨rfl, hplain, hread, hp, parseAround?_eq_none_iff rfl hplain hread hp⟩

/-- Not every region of a document that can be read can be read. -/
theorem not_forall_parseAround?_isSome :
    ¬ ∀ (d : Document) (p : Position) (limits : Limits), d.languageId = "css" → d.Plain →
      (d.parse? .css).isSome = true → d.Valid p → (d.parseAround? limits p).isSome = true := by
  intro h
  have hs := h (.ofText "css" "@media p\x7ba\x7b\x7d\x7d") ⟨0, 12⟩ .standard rfl (by decide)
    (by simp only [Document.parse?, Cursor.parse, Sheet.parse_eq_parseLexemes]; cbv) (by decide)
  have hn : (Document.ofText "css" "@media p\x7ba\x7b\x7d\x7d").parseAround? .standard ⟨0, 12⟩ = none := by
    simp only [Document.parseAround?, Sheet.parse_eq_parseLexemes]
    cbv
  rw [hn] at hs
  cases hs

end AbbrevSite
