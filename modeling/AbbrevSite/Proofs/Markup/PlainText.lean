import AbbrevSite.Proofs.Markup.RoundTrip
import AbbrevSite.Proofs.Markup.Runs

/-! Abbreviations in plain text. In every run of text of a source, at its top level or inside an element with markup in
it, an abbreviation is accepted wherever it ends, unless that is where a comment or an element of the row starts or
ends. -/
namespace AbbrevSite

open Document

section Accepts

variable {d : Document} {found : Found} {p q : Position} {s : Settings} {cs : List Char} {inner : Span}

lemma Settled.window (h : Settled cs) (n : Nat) :
    ((cs.take n).all CharClass.isBlank || acceptsAfter (cs.take n)) = true := by
  rw [(h.take n).acceptsAfter_eq, Bool.or_true]

lemma markupAccepts_none (hqp : q ≤ p) (h : Settled (d.charsBetween .origin q).reverse) :
    markupAccepts d none p (.between q p) s = true := by
  unfold markupAccepts
  dsimp only
  rw [Span.between_of_le hqp, Span.between_of_le (Position.origin_le q)]
  exact h.window _

lemma markupAccepts_some {start : Position} (hscript : found.node.kind.isElementNamed "script" = false)
    (hinner : found.node.kind.innerSpan? = some inner) (hp : inner.contains p = true) (hqp : q ≤ p)
    (hstart : ((found.children.takeWhile fun n => n.span.stop ≤ p).getLast?.map (·.span.stop)).getD inner.start = start)
    (hle : start ≤ q) (h : Settled (d.charsBetween start q).reverse) :
    markupAccepts d (some found) p (.between q p) s = true := by
  unfold markupAccepts
  simp only [hscript, Bool.false_eq_true, if_false, hinner, hp, if_true, hstart]
  rw [Span.between_of_le hqp, Span.between_of_le hle]
  exact h.window _

end Accepts

namespace Markup.Source

variable {s row : Source} {d : Document} {text run markup gap : List Char} {x y p q : Position} {languageId : String}

lemma Stands.bounds (h : Stands row y run x markup gap) :
    y ≤ y.along markup ∧ y.along markup ≤ x ∧ x.along run ≤ y.along row.print := by
  obtain ⟨back, hback⟩ := h.print
  rw [h.start, ← hback]
  simp only [Position.along_append]
  exact ⟨y.le_along markup, Position.le_along _ gap, Position.le_along _ back⟩

/-- What is written in a row up to a place of a run of it. -/
lemma Stands.charsBetween (h : Stands row y run x markup gap) (hd : d.Spells y row.print) (hq : x ≤ q)
    (hq' : q ≤ x.along run) : ∃ part, '<' ∉ part ∧ d.charsBetween y q = markup ++ part ∧
      d.charsBetween (y.along markup) q = part := by
  obtain ⟨back, hback⟩ := h.print
  rw [← hback, List.append_assoc] at hd
  have hmarkup := hd.left
  have hgap := hd.right.left.left
  have hrun := hd.right.left.right
  have hx : (y.along markup).along gap = x := by rw [h.start, Position.along_append]
  rw [hx] at hrun
  have hz := d.clamp_valid q
  have hxz := le_clamp hrun.valid hq
  have hzx := clamp_le_of_le hrun.valid_along hq'
  have hbefore : d.charsBetween (y.along markup) x = gap := hx ▸ hgap.charsBetween_along
  obtain ⟨-, hle, -⟩ := h.bounds
  have hpart := charsBetween_append hmarkup.valid_along hrun.valid hz hle hxz
  have hsplit := charsBetween_append hrun.valid hz hrun.valid_along hxz hzx
  rw [hrun.charsBetween_along] at hsplit
  simp only [charsBetween_clamp] at hpart hsplit
  rw [hbefore] at hpart
  refine ⟨gap ++ d.charsBetween x q, fun hangle => h.text ?_, ?_, hpart⟩
  · rw [hsplit, List.mem_append, List.mem_append]
    exact (List.mem_append.1 hangle).imp_right .inl
  · have hwhole := charsBetween_append hmarkup.valid hmarkup.valid_along hz (y.le_along markup) (hle.trans hxz)
    simp only [charsBetween_clamp] at hwhole
    rwa [hmarkup.charsBetween_along, hpart] at hwhole

lemma map_span_roots_forest (row : Source) (n k : Nat) (y : Position) :
    (row.forest n y).roots.map (·.span) = (row.forest k y).roots.map (·.span) := by
  induction row using row_induction generalizing n k y with
  | nil => rfl
  | text run next ih => exact ih n k _
  | item s item next hb ih =>
    obtain ⟨m, inner, i, hforest, hspan⟩ := hb.forest n y
    obtain ⟨m', inner', i', hforest', hspan'⟩ := hb.forest k y
    rw [hforest, hforest', Forest.roots, Forest.roots, List.map_cons, List.map_cons, hspan, hspan', ih i i']

lemma Stands.not_contains (h : Stands row y run x markup gap) (hp : x ≤ p) (hp' : p ≤ x.along run)
    (hends : ∀ m ∈ (row.forest 1 y).roots, p ≠ m.span.start ∧ p ≠ m.span.stop) (n : Nat) :
    ∀ m ∈ (row.forest n y).roots, m.span.contains p = false := by
  intro m hm
  have hspan : m.span ∈ (row.forest 1 y).roots.map (·.span) := by
    rw [map_span_roots_forest row 1 n y]
    exact List.mem_map_of_mem hm
  obtain ⟨m', hm', hsame⟩ := List.mem_map.1 hspan
  have hne := hends m' hm'
  rw [hsame] at hne
  rcases h.apart n m hm with hstop | hstart
  · exact Span.contains_of_stop_lt (lt_of_le_of_ne (hstop.trans hp) (Ne.symm hne.2))
  · exact Span.contains_of_lt_start (lt_of_le_of_ne (hp'.trans hstart) hne.1)

lemma Stands.settled (h : Stands row y run x markup gap) (hd : d.Spells y row.print) (hq : x ≤ q)
    (hq' : q ≤ x.along run) :
    Settled (d.charsBetween y q).reverse ∧ Settled (d.charsBetween (y.along markup) q).reverse := by
  obtain ⟨part, hpart, hwhole, hbehind⟩ := h.charsBetween hd hq hq'
  have hreverse : '<' ∉ part.reverse := by rwa [List.mem_reverse]
  rw [hwhole, hbehind, List.reverse_append]
  refine ⟨.append hreverse ?_, ?_⟩
  · rcases h.endsTag with rfl | hends
    · trivial
    · exact hends.settled
  · rw [← List.append_nil part.reverse]
    exact .append hreverse trivial

/-- In a run of text an abbreviation is accepted, whatever the settings and wherever it stands in the run, unless it ends
where a comment or an element of the row of the run starts or ends. The lines of the text may end in carriage returns,
which no position counts. -/
theorem acceptsAbbreviation_in_text (languageId : String) (hs : s.WellFormed)
    (hnames : ∀ a ∈ s.attributes, '\\' ∉ a.name) (htext : dropReturns text = s.print) (hrow : (y, row) ∈ s.rows .origin) (hrun : (x, run) ∈ row.runs y)
    (hq : x ≤ q) (hqp : q ≤ p) (hp : p ≤ x.along run)
    (hends : ∀ m ∈ (row.forest 1 y).roots, p ≠ m.span.start ∧ p ≠ m.span.stop) :
    ∃ t, (ofText languageId (.ofList text)).parse? .html = some t ∧ ∀ settings,
      acceptsAbbreviation (ofText languageId (.ofList text)) (some t) (t.nodeAt p true) .html p (.between q p)
        settings = true := by
  refine ⟨_, parse?_ofText_print languageId hs htext, fun settings => ?_⟩
  set d := ofText languageId (.ofList text) with hd
  have hspells : d.Spells .origin s.print := by
    have hprint := (spells_ofText languageId (.ofList text)).1
    rwa [String.toList_ofList, htext] at hprint
  show markupAccepts d _ p (.between q p) settings = true
  rw [Tree.nodeAt_true]
  rcases List.mem_cons.1 hrow with hrow | hrow
  · -- at the top level
    cases hrow
    obtain ⟨markup, gap, hstands⟩ := stands_of_mem_runs hs hnames hrun
    rw [Forest.descend_of_none (hstands.not_contains (hq.trans hqp) hp hends 1)]
    exact markupAccepts_none hqp (hstands.settled hspells hq (hqp.trans hp)).1
  · -- inside an element
    have hwithin := within_of_mem_inners hrow
    obtain ⟨front, back, -, -, hprint, hy⟩ := hwithin.print
    rw [hprint] at hspells
    have hrow' : d.Spells y row.print := hy ▸ hspells.right.left
    obtain ⟨markup, gap, hstands⟩ :=
      stands_of_mem_runs (hwithin.wellFormed hs) (fun a ha => hnames a (hwithin.attributes a ha)) hrun
    obtain ⟨hmarkup, hgap, hstop⟩ := hstands.bounds
    have hyp : y ≤ p := (hmarkup.trans hgap).trans (hq.trans hqp)
    have hpy : p ≤ y.along row.print := hp.trans hstop
    obtain ⟨found, hfound, hscript, hinner, k, hchildren⟩ :=
      descend_of_mem_inners hs hrow hyp hpy (hstands.not_contains (hq.trans hqp) hp hends) 1
    rw [hfound]
    refine markupAccepts_some hscript hinner (Span.contains_iff.2 ⟨hyp, hpy⟩) hqp ?_ (hgap.trans hq)
      (hstands.settled hrow' hq (hqp.trans hp)).2
    rw [hchildren, hstands.ended k p (hq.trans hqp) hp]
    split_ifs with hnil
    · rw [hnil]
      rfl
    · rfl

/-- In `a><p x="<">1<br/>=>\d|</p>e`, with a carriage return at the end, the run behind `<br/>` starts with what could
be taken for the end of a tag. -/
theorem acceptsAbbreviation_in_text_of_element :
    let row : Source := .text ['1'] (.empty ['b', 'r'] [] true (.text ['=', '>', '\\', 'd'] .nil))
    let s : Source := .text ['a', '>'] (.element ['p'] [⟨['x'], some ['<']⟩] row (.text ['e'] .nil))
    let text := s.print ++ ['\r']
    s.WellFormed ∧ (∀ a ∈ s.attributes, '\\' ∉ a.name) ∧ dropReturns text = s.print ∧
      ((⟨0, 11⟩, row) : Position × Source) ∈ s.rows .origin ∧
      ((⟨0, 17⟩, ['=', '>', '\\', 'd']) : Position × List Char) ∈ row.runs ⟨0, 11⟩ ∧
      (∀ m ∈ (row.forest 1 ⟨0, 11⟩).roots, (⟨0, 21⟩ : Position) ≠ m.span.start ∧ (⟨0, 21⟩ : Position) ≠ m.span.stop) ∧
      ∃ t, (ofText "html" (.ofList text)).parse? .html = some t ∧ ∀ settings,
        acceptsAbbreviation (ofText "html" (.ofList text)) (some t) (t.nodeAt ⟨0, 21⟩ true) .html ⟨0, 21⟩
          (.between ⟨0, 20⟩ ⟨0, 21⟩) settings = true := by
  intro row s text
  have hs : s.WellFormed := by decide +kernel
  have hnames : ∀ a ∈ s.attributes, '\\' ∉ a.name := by decide +kernel
  have htext : dropReturns text = s.print := by decide +kernel
  have hrow : ((⟨0, 11⟩, row) : Position × Source) ∈ s.rows .origin := by decide +kernel
  have hrun : ((⟨0, 17⟩, ['=', '>', '\\', 'd']) : Position × List Char) ∈ row.runs ⟨0, 11⟩ := by decide +kernel
  have hends : ∀ m ∈ (row.forest 1 ⟨0, 11⟩).roots, (⟨0, 21⟩ : Position) ≠ m.span.start ∧
      (⟨0, 21⟩ : Position) ≠ m.span.stop := by decide +kernel
  exact ⟨hs, hnames, htext, hrow, hrun, hends,
    acceptsAbbreviation_in_text "html" hs hnames htext hrow hrun (by decide) (by decide) (by decide) hends⟩

end Markup.Source
end AbbrevSite
