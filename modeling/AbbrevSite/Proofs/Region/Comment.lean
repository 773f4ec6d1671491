import AbbrevSite.Proofs.Region.Bounds
import AbbrevSite.Proofs.Region.Window
import AbbrevSite.Proofs.Sheet.Comments

/-! Comments in the region around a position. A position in a comment of the document is in a comment of the
region if the region starts with a lexeme of the document and the comment does not stand before it. -/
namespace AbbrevSite

open Sheet Document

namespace Document

variable {d : Document} {limits : Limits} {dialect : Dialect} {p : Position} {c : Span} {t t' : Tree}
  {k : Lexeme}

lemma parse_of_parse? (hs : dialect.isStylesheet = true) (h : d.parse? dialect = some t) :
    Sheet.parse (Cursor.whole d .origin) dialect = .ok t := by
  unfold parse? Cursor.parse at h
  rw [if_pos hs] at h
  exact toOption_eq_some.1 h

lemma clamp_lt_search_stop (hp : p < d.stop) : d.clamp p < (d.search limits p).stop :=
  RegionSearch.lt_stop (s := d.search limits p) (d.clamp_valid p) ((clamp_le hp).trans_lt hp)

lemma search_start_le_stop (hp : p < d.stop) (h : (d.regionAround limits p).start ≤ d.clamp p) :
    (d.search limits p).start ≤ (d.search limits p).stop := by
  refine le_of_not_gt fun hlt => ?_
  have hregion : d.regionAround limits p =
      .between (d.search limits p).start (d.search limits p).stop := rfl
  rw [hregion, Span.between_comm, Span.between_of_le (le_of_lt hlt)] at h
  exact lt_irrefl _ ((clamp_lt_search_stop hp).trans_le h)

/-- A region that starts with a lexeme of the document shows every comment from there on that its position is
in. -/
theorem inComment_parseAround? (hlang : d.languageId = dialect.name)
    (hs : dialect.isStylesheet = true) (hread : d.parse? dialect = some t) (hc : c ∈ t.comments)
    (hp : c.encloses p)
    (hk : k ∈ (lexemes dialect.hasLineComments (d.glyphs .origin d.stop)).1)
    (hstart : k.start = (d.regionAround limits p).start) (hkc : k.start ≤ c.start)
    (ht : d.parseAround? limits p = some t') : t'.inComment p = true := by
  obtain ⟨hcp, hpc⟩ := Span.encloses_iff.1 hp
  have h0 := Position.origin_le d.stop
  obtain ⟨m, hm, hms, hmc, hmc', -⟩ := exists_of_mem_comments (parse_of_parse? hs hread) hc
    d.valid_origin d.valid_stop h0
  rw [← hmc] at hcp hkc
  rw [← hmc'] at hpc
  obtain ⟨_, _, hmv, -, hmlt, -, -, hlex, -⟩ :=
    exists_reads_of_mem hm d.valid_origin d.valid_stop h0
  obtain ⟨-, hslash, -⟩ := comment_cases hlex hms d.valid_stop
  have hps : p < d.stop := hpc.trans_le (comment_stop hlex hms hmv d.valid_stop hmlt).2
  have hnl : d.readAt m.start ≠ '\n' := by
    rw [show d.readAt m.start = '/' from hslash]
    decide
  have hmq := lt_clamp hnl hcp hps
  have hbv : d.Valid (d.search limits p).stop :=
    RegionSearch.stop_valid (s := d.search limits p) (d.clamp_valid p)
  have hqb : d.clamp p < (d.search limits p).stop := clamp_lt_search_stop hps
  have hpb := lt_of_clamp_lt hbv hps hqb
  have hle : (d.search limits p).start ≤ (d.search limits p).stop := by
    refine search_start_le_stop hps ?_
    rw [← hstart]
    exact hkc.trans (le_of_lt hmq)
  have hparse : Sheet.parse (Cursor.within d (d.regionAround limits p).start
      (d.regionAround limits p)) d.sheetDialect = .ok t' := toOption_eq_some.1 ht
  have hregion : d.regionAround limits p =
      .between (d.search limits p).start (d.search limits p).stop := rfl
  rw [sheetDialect_of_name hlang hs, ← hstart, hregion, Span.between_of_le hle] at hparse
  obtain ⟨hfault, hcomments⟩ := parse_comments hparse
  obtain ⟨l, hl, hls, hlm, hpl⟩ := exists_comment_window hk hm hkc hms d.valid_origin h0 hbv
    d.valid_stop ((after_le (d.clamp_valid p) hmq).trans_lt hqb) (le_stop hbv) (le_of_lt hpb) hpc
    hfault
  have hmem : Span.between l.start l.stop ∈ t'.comments := by
    rw [hcomments, List.mem_filterMap]
    exact ⟨l, hl, if_pos hls⟩
  rw [Tree.inComment, List.any_eq_true]
  exact ⟨_, hmem, Span.contains_between (hlm.trans_le (le_of_lt hcp)) hpl⟩

/-- A region that starts at or before its position, with nothing between that starts a comment, a string or a
group, shows no comment there. -/
theorem not_inComment_parseAround?
    (hplain : d.Throughout IsPlain (d.regionAround limits p).start (d.after p))
    (ht : d.parseAround? limits p = some t') : t'.inComment p = false := by
  obtain ⟨hv, hv'⟩ := d.regionAround_valid limits p
  have hle := (d.regionAround limits p).ordered
  have hparse : Sheet.parse (Cursor.within d (d.regionAround limits p).start
      (d.regionAround limits p)) d.sheetDialect = .ok t' := toOption_eq_some.1 ht
  rw [Tree.inComment, List.any_eq_false]
  intro span hspan hcontains
  obtain ⟨m, hm, hms, hmstart, -⟩ := exists_of_mem_comments hparse hspan hv hv' hle
  obtain ⟨_, _, hmv, hlem, hltm, -, -, hlex, -⟩ := exists_reads_of_mem hm hv hv' hle
  obtain ⟨-, hslash, -⟩ := comment_cases hlex hms hv'
  have hmp : m.start < d.after p :=
    (hmstart.trans_le (Span.contains_iff.1 hcontains).1).trans_lt (lt_after d p)
  have hno : IsPlain (d.readAt m.start) := hplain m.start hmv hlem hmp
  exact hno.2.2.2 hslash

end Document
end AbbrevSite
