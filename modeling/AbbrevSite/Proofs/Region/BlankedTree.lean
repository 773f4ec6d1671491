import AbbrevSite.Proofs.Region.BlankedRegion
import AbbrevSite.Proofs.Region.Comment

/-! The tree of the region around a position when the comments of the text are blanked. -/
namespace AbbrevSite

open Sheet Document

/-- The kind and the range of every node, the root first. -/
def Tree.ranges (t : Tree) : List (String × Span) := t.preorder.map fun n => (n.kind.typeName, n.span)

namespace Document

variable {d : Document} {dialect : Dialect} {limits : Limits} {p : Position} {t u u' : Tree}

lemma search_blanked (spans : List Span) (limits : Limits) (p : Position) :
    (d.blanked spans).search limits p = (d.search limits p).blanked spans := by
  simp only [search, RegionSearch.new, RegionSearch.blanked, clamp_blanked, offsetAt_blanked, positionAt_blanked]
  rfl

lemma regionAround_eq (limits : Limits) (p : Position) :
    (d.regionAround limits p).start = (d.search limits p).start ∧
      (d.regionAround limits p).stop = (d.search limits p).stop := by
  have hle := RegionSearch.start_le_stop (s := d.search limits p) (d.clamp_valid p)
  unfold regionAround RegionSearch.region
  rw [Span.between_of_le hle]
  exact ⟨rfl, rfl⟩

lemma parseAround?_eq_some_iff (hlang : d.languageId = dialect.name) (hs : dialect.isStylesheet = true) :
    d.parseAround? limits p = some t ↔
      Sheet.parse (Cursor.within d (d.regionAround limits p).start (d.regionAround limits p)) dialect = .ok t := by
  unfold parseAround?
  rw [sheetDialect_of_name hlang hs]
  exact toOption_eq_some

lemma poised_search {s : RegionSearch} (hp : s.document.Valid s.position)
    (hout : t.inComment s.position = false) : s.Poised t.comments s.position.line s.position := by
  have hends : ∀ c ∈ t.comments, s.position < c.start ∨ c.stop < s.position := by
    intro c hc
    have hno := List.any_eq_false.1 hout c hc
    rw [Span.contains_iff, not_and_or, not_le, not_le] at hno
    exact hno
  refine ⟨hp, fun c hc => (hends c hc).imp le_of_lt le_of_lt, fun _ c hc _ hstop => ?_, fun hne => absurd rfl hne⟩
  rcases hends c hc with hlt | hlt
  · exact absurd (hlt.trans_le c.ordered) (by rw [hstop]; exact lt_irrefl _)
  · exact absurd hlt (by rw [hstop]; exact lt_irrefl _)

lemma root_eq_of_parse {window : Span}
    (h : Sheet.parse (Cursor.within d window.start window) dialect = .ok t) : t.root = ⟨0, .stylesheet, window⟩ := by
  obtain ⟨_, _, -, -, rfl⟩ := parse_within_eq_ok.1 h
  rfl

section Regions

variable {window window' : Span} (hwhole : Sheet.parse (Cursor.whole d .origin) dialect = .ok t)
include hwhole

/-- From a later start in the same selector the trees differ in the first node alone. -/
lemma parse_laterStart (hcut : ¬ Cuts d dialect.hasLineComments window.start) (hy : d.Valid window.stop)
    (hstop : window'.stop = window.stop) (hlt : window'.start < window.stop) (hclear : Clear t.comments window.stop)
    (h : d.LaterStart t.comments window.start window'.start) :
    ((∃ u, Sheet.parse (Cursor.within d window'.start window') dialect = .ok u) ↔
        ∃ u, Sheet.parse (Cursor.within (d.blanked t.comments) window.start window) dialect = .ok u) ∧
      (d.readAt window'.start ≠ ';' → ∀ u u',
        Sheet.parse (Cursor.within d window'.start window') dialect = .ok u →
          Sheet.parse (Cursor.within (d.blanked t.comments) window.start window) dialect = .ok u' →
            AgreeBut (some 1) u u') := by
  obtain ⟨c, hc, -, hcx, hblank⟩ := h.comment
  have hcut' := not_cuts_of_blank hwhole h.second.valid hc hcx hblank
  obtain ⟨hiff, hagree⟩ := parse_blanked hwhole h.first.valid hcut hy hclear (some 1)
  obtain ⟨hiff', hagree'⟩ := parse_later hwhole h.first.valid hcut h.second.valid hcut' h.lt hy hstop hlt
    h.first.out h.first.significant h.noDelimiter
  refine ⟨hiff'.symm.trans hiff, fun hsemicolon u u' hu hu' => ?_⟩
  obtain ⟨v, hv⟩ := hiff.2 ⟨u', hu'⟩
  have hdel : ¬ IsDelimiter (d.readAt window'.start) := by
    rintro (hd | hd | hd)
    · exact h.noBrace (.inl hd)
    · exact h.noBrace (.inr hd)
    · exact hsemicolon hd
  have hlater := hagree' h.second.out h.second.significant hdel v u hv hu
  exact hlater.symm.trans (hagree v u' hv hu')

end Regions

lemma SignificantAt.lt_stop {spans : List Span} (hp : d.Valid p)
    (h : d.SignificantAt spans (d.regionAround limits p).start) :
    (d.regionAround limits p).start < (d.regionAround limits p).stop := by
  obtain ⟨hstart, hstop⟩ := regionAround_eq (d := d) limits p
  have hv := valid_search_position limits hp
  have hle := RegionSearch.start_le (s := d.search limits p) hv
  rw [hstart] at h
  rw [hstart, hstop]
  have hne : (d.search limits p).start ≠ d.stop := fun heq => by
    have hsig := h.significant
    rw [heq, readAt_of_lineLength_le (le_refl _)] at hsig
    exact absurd hsig (by decide)
  rcases lt_or_eq_of_le (le_stop hv) with hlt | heq
  · exact hle.trans_lt (RegionSearch.lt_stop hv hlt)
  · exact ((lt_of_le_of_ne (le_stop h.valid) hne).trans_eq heq.symm).trans_le (RegionSearch.le_stop hv)

section Around

variable {text : String} (hd : d = ofText dialect.name text) (hs : dialect.isStylesheet = true)
  (hread : d.parse? dialect = some t) (hm : d.Marked dialect.hasLineComments t.comments) (hp : d.Valid p)
  (hout : t.inComment p = false)
  (hfar : ¬ d.InLineComment t.comments (d.positionAt (d.offsetAt p - limits.lookbackChars)))
include hd hs hread hm hp hout hfar

theorem regionAround_blanked :
    ((d.blanked t.comments).regionAround limits p).stop = (d.regionAround limits p).stop ∧
      Clear t.comments (d.regionAround limits p).stop ∧
      (((d.blanked t.comments).regionAround limits p).start = (d.regionAround limits p).start ∨
        d.LaterStart t.comments ((d.blanked t.comments).regionAround limits p).start
          (d.regionAround limits p).start) := by
  have hlang : d.languageId = dialect.name := by rw [hd]; rfl
  have hline : ∀ n, '\n' ∉ (d.line n).toList := by
    rw [hd]
    exact newline_not_mem_line dialect.name text
  have hcomments := commented_of_parse hline (parse_of_parse? hs hread)
  rw [← search_lineComments limits p hlang hs] at hm hcomments
  rw [← search_farthest limits hp] at hfar
  have hpoised := poised_search (s := d.search limits p) (t := t) (valid_search_position limits hp)
    (by rwa [search_position limits hp])
  obtain ⟨hstart, hstop⟩ := regionAround_eq (d := d) limits p
  obtain ⟨hstart', hstop'⟩ := regionAround_eq (d := d.blanked t.comments) limits p
  rw [hstart, hstop, hstart', hstop', search_blanked]
  obtain ⟨hsame, hclear⟩ := RegionSearch.stop_blanked hcomments hm hpoised.valid hpoised.clear
  exact ⟨hsame, hclear, RegionSearch.start_blanked hcomments hm hfar hpoised⟩

/-- Where the markers of comments stand only at comments, blanking the comments of a stylesheet changes the tree
of the region around a position outside them in texts alone, unless the region starts after a comment in its
selector. It then starts before that comment, and only the first node of its tree is another. -/
theorem parseAround?_blanked
    (hcut : ¬ Cuts d dialect.hasLineComments ((d.blanked t.comments).regionAround limits p).start) :
    ((d.blanked t.comments).regionAround limits p).stop = (d.regionAround limits p).stop ∧
      ((d.parseAround? limits p).isSome = true ↔ ((d.blanked t.comments).parseAround? limits p).isSome = true) ∧
      (((d.blanked t.comments).regionAround limits p).start = (d.regionAround limits p).start ∧
          (∀ u u', d.parseAround? limits p = some u → (d.blanked t.comments).parseAround? limits p = some u' →
            u.root = u'.root ∧ AgreeBut none u u') ∨
        d.LaterStart t.comments ((d.blanked t.comments).regionAround limits p).start
            (d.regionAround limits p).start ∧
          (d.readAt (d.regionAround limits p).start ≠ ';' → ∀ u u', d.parseAround? limits p = some u →
            (d.blanked t.comments).parseAround? limits p = some u' → AgreeBut (some 1) u u')) := by
  have hlang : d.languageId = dialect.name := by rw [hd]; rfl
  have hlang' : (d.blanked t.comments).languageId = dialect.name := hlang
  have hwhole := parse_of_parse? hs hread
  obtain ⟨hstop, hclear, hstart⟩ := regionAround_blanked hd hs hread hm hp hout hfar
  obtain ⟨hv, hv'⟩ := d.regionAround_valid limits p
  simp only [Option.isSome_iff_exists, parseAround?_eq_some_iff hlang hs, parseAround?_eq_some_iff hlang' hs]
  rcases hstart with heq | hlater
  · have hwindow : (d.blanked t.comments).regionAround limits p = d.regionAround limits p := Span.eq_of heq hstop
    rw [hwindow] at hcut ⊢
    obtain ⟨hiff, hagree⟩ := parse_blanked hwhole hv hcut hv' hclear none
    refine ⟨rfl, hiff, .inl ⟨rfl, fun u u' hu hu' => ⟨?_, hagree u u' hu hu'⟩⟩⟩
    rw [root_eq_of_parse hu, root_eq_of_parse hu']
  · have hlt := hlater.second.lt_stop hp
    obtain ⟨hiff, hagree⟩ := parse_laterStart hwhole hcut (hstop ▸ hv') hstop.symm (hstop ▸ hlt) (hstop ▸ hclear) hlater
    exact ⟨hstop, hiff, .inr ⟨hlater, hagree⟩⟩

end Around

/-- In `a\x7b// \x7d⏎ /* \x7b */ b` there is the tree of the whole text around `b`, with and without the comments. -/
theorem parseAround?_blanked_braces :
    let d := ofText Dialect.scss.name "a\x7b// \x7d\n /* \x7b */ b"
    ∃ t, d.parse? .scss = some t ∧ d.Marked true t.comments ∧ d.Valid ⟨1, 10⟩ ∧ t.inComment ⟨1, 10⟩ = false ∧
      ¬ d.InLineComment t.comments (d.positionAt (d.offsetAt ⟨1, 10⟩ - Limits.standard.lookbackChars)) ∧
      ¬ Cuts d true ((d.blanked t.comments).regionAround .standard ⟨1, 10⟩).start ∧
      ∃ u u', d.parseAround? .standard ⟨1, 10⟩ = some u ∧
        (d.blanked t.comments).parseAround? .standard ⟨1, 10⟩ = some u' ∧ u.root = u'.root ∧ AgreeBut none u u' := by
  have hread : let d := ofText Dialect.scss.name "a\x7b// \x7d\n /* \x7b */ b"
      (d.parse? .scss).any (fun t => decide (t.comments = [.between ⟨0, 2⟩ ⟨0, 6⟩, .between ⟨1, 1⟩ ⟨1, 8⟩]) &&
        decide (((d.blanked t.comments).regionAround .standard ⟨1, 10⟩).start = ⟨0, 0⟩) &&
        decide ((d.regionAround .standard ⟨1, 10⟩).start = ⟨0, 0⟩) &&
        (d.parseAround? .standard ⟨1, 10⟩).isSome) = true := by
    simp only [Document.parse?, Cursor.parse, Document.parseAround?, Sheet.parse_eq_parseLexemes]
    cbv
  intro d
  obtain ⟨t, ht, hall⟩ := (Option.any_eq_true _ _).1 hread
  simp only [Bool.and_eq_true, decide_eq_true_eq] at hall
  obtain ⟨⟨⟨hc, hstart'⟩, hstart⟩, hsome⟩ := hall
  have hm : d.Marked true t.comments := by
    rw [hc]
    decide
  have hout : t.inComment ⟨1, 10⟩ = false := by
    rw [Tree.inComment, hc]
    decide
  have hfar : ¬ d.InLineComment t.comments (d.positionAt (d.offsetAt ⟨1, 10⟩ - Limits.standard.lookbackChars)) := by
    rw [hc]
    decide
  have hcut : ¬ Cuts d true ((d.blanked t.comments).regionAround .standard ⟨1, 10⟩).start := by
    rw [hstart']
    rintro ⟨l, -, hl, -⟩
    exact absurd hl (not_lt.2 (Position.origin_le _))
  refine ⟨t, ht, hm, by decide, hout, hfar, hcut, ?_⟩
  obtain ⟨-, hiff, hcases⟩ := parseAround?_blanked rfl rfl ht hm (by decide) hout hfar hcut
  obtain ⟨u, hu⟩ := Option.isSome_iff_exists.1 hsome
  obtain ⟨u', hu'⟩ := Option.isSome_iff_exists.1 (hiff.1 hsome)
  rcases hcases with ⟨-, hagree⟩ | ⟨hlater, -⟩
  · exact ⟨u, u', hu, hu', hagree u u' hu hu'⟩
  · have hlt := hlater.lt
    rw [hstart', hstart] at hlt
    exact absurd hlt (lt_irrefl _)

/-- Whether the comments of a stylesheet show in the tree of the region around a position outside them: without
them its nodes have other kinds or ranges, or one of the two trees is missing. -/
def ShowsComments (dialect : Dialect) (text : String) (limits : Limits) (p : Position) : Prop :=
  let d := ofText dialect.name text
  ∃ t, d.parse? dialect = some t ∧ d.Valid p ∧ t.inComment p = false ∧
    (d.parseAround? limits p).map Tree.ranges ≠ ((d.blanked t.comments).parseAround? limits p).map Tree.ranges

lemma showsComments_iff {text : String} : ShowsComments dialect text limits p ↔
    let d := ofText dialect.name text
    (d.parse? dialect).any (fun t => decide (d.Valid p) && !t.inComment p && decide
      ((d.parseAround? limits p).map Tree.ranges ≠
        ((d.blanked t.comments).parseAround? limits p).map Tree.ranges)) = true := by
  simp [ShowsComments, Option.any_eq_true, Bool.and_eq_true, and_assoc]

/-- A comment in a selector shows, and so may a marker that does not stand at a comment, a limit in a line comment
and a region that starts in a string. -/
theorem showsComments_examples :
    ShowsComments .css "a /* c */ b\x7b\x7d" .standard ⟨0, 12⟩ ∧
      ShowsComments .css "a\x7b/* \x7b /* */ \x7d" .standard ⟨0, 13⟩ ∧
      ShowsComments .scss "a\x7b /* \x7b // */\n c \x7d" .standard ⟨1, 2⟩ ∧
      ShowsComments .css "x\x7b\x7d/* c */a\x7b b*/ \x7d" .standard ⟨0, 17⟩ ∧
      ShowsComments .scss "x\x7b\x7d a\x7b// \x7d\n b \x7d" ⟨1000, 100, 5, 500⟩ ⟨1, 2⟩ ∧
      ShowsComments .css "a\x7bb:\"\x7d\";/* \" */c" .standard ⟨0, 16⟩ := by
  simp only [showsComments_iff, Document.parse?, Cursor.parse, Document.parseAround?, Sheet.parse_eq_parseLexemes]
  refine ⟨?_, ?_, ?_, ?_, ?_, ?_⟩ <;> cbv

end Document
end AbbrevSite
