import AbbrevSite.Completion
import AbbrevSite.Proofs.Completion.Sheet
import AbbrevSite.Proofs.Markup.Nesting
import AbbrevSite.Proofs.Tree.Descent

/-! Completions in markup. What the tree of the document has at a position decides whether an abbreviation may
expand there; inside a tag or a comment nothing is completed. -/
namespace AbbrevSite

open Document

/-- Whether a position is strictly inside the opening or the closing tag of an element. -/
def Kind.hasTagAt (k : Kind) (p : Position) : Bool :=
  match k with
  | .element _ opening closing _ => opening.span.encloses p || closing.any (·.span.encloses p)
  | _ => false

namespace Markup

variable {d : Document} {n : Node} {p : Position}

/-- A tag of an element lies outside its body. -/
lemma WellTagged.of_hasTagAt (h : WellTagged d n) (ht : n.kind.hasTagAt p = true) :
    n.span.encloses p = true ∧ ∀ x y, bodyOf n = some (x, y) → p < x ∨ y < p := by
  obtain ⟨id, kind, span⟩ := n
  cases kind with
  | element name opening closing attributes =>
    obtain ⟨hstart, hstop, htags, -⟩ := h
    have hstart : span.start = opening.span.start := hstart
    have hstop : span.stop = (closing.map (·.span.stop)).getD opening.span.stop := hstop
    simp only [Kind.hasTagAt, Bool.or_eq_true] at ht
    rw [Span.encloses_iff, hstart, hstop]
    cases closing with
    | none => exact ⟨Span.encloses_iff.1 (ht.resolve_right Bool.false_ne_true), nofun⟩
    | some closing =>
      obtain ⟨-, -, hopen, -, -⟩ := htags
      have hbody : bodyOf ⟨id, .element name opening (some closing) attributes, span⟩ =
          some (opening.span.stop, closing.span.start) := by
        show some _ = _
        rw [Span.between_of_le hopen]
      rcases ht with ht | ht <;> obtain ⟨hp, hp'⟩ := Span.encloses_iff.1 ht
      · refine ⟨⟨hp, hp'.trans_le (hopen.trans closing.span.ordered)⟩, fun x y hxy => ?_⟩
        cases hbody.symm.trans hxy
        exact .inl hp'
      · refine ⟨⟨(opening.span.ordered.trans hopen).trans_lt hp, hp'⟩, fun x y hxy => ?_⟩
        cases hbody.symm.trans hxy
        exact .inr hp
  | _ => cases ht

lemma WellNested.nodeAt_eq {t : Tree} (h : WellNested d t) (hn : n ∈ t.forest.preorder)
    (hp : n.span.encloses p = true) (hout : ∀ x y, bodyOf n = some (x, y) → p < x ∨ y < p) :
    ∃ found, t.nodeAt p true = some found ∧ found.node = n := by
  obtain ⟨hstart, hstop⟩ := Span.encloses_iff.1 hp
  rw [t.nodeAt_true]
  exact h.laidOut.descend_eq isGap_le hn hstart (le_of_lt hstop) hout

lemma wellNested_parse? {t : Tree} (h : d.parse? .html = some t) :
    t.root.kind = .document ∧ WellNested d t := by
  have ht : parse (Cursor.within d d.span.start d.span) .html = t := Option.some_inj.1 h
  have hnested : WellNested d t := ht ▸ wellNested_within .html d.valid_origin d.valid_stop
  refine ⟨?_, hnested⟩
  rw [← ht, parse_within_eq]

end Markup

section Mapping

variable {b : Behaviour}

lemma Behaviour.dialectOf?_html (hex : b.isExcluded "html" = false)
    (hmap : ∀ e ∈ b.includeLanguages, e.1 ≠ "html") : b.dialectOf? "html" = some .html := by
  have hall := Toml.Table.forall_mem_extend (t := Modes.included) (P := fun e => e.1 ≠ "html")
    (by decide) hmap
  have hkeep : (b.languageMapping.get? "html").getD "html" = "html" := by
    cases hget : b.languageMapping.get? "html" with
    | none => rfl
    | some value => exact absurd rfl (hall _ (List.mem_filter.1 (Toml.Table.mem_of_get? hget)).1)
  have hexcluded : b.excludeLanguages.contains "html" = false := hex
  unfold dialectOf? Modes.dialect?
  rw [hkeep, hexcluded]
  decide

end Mapping

namespace Provider

variable {s : Settings} {d : Document} {p : Position} {last : Option Family} {request : Request}
  {list : CompletionList}

lemma setting_html (hlang : d.languageId = "html") (hreq : request.trigger ≠ .incomplete) :
    setting d .html last request p = htmlSetting d .html p := by
  simp only [setting, if_pos hlang, if_neg hreq]
  rfl

/-- What is asked before there are offers in a document of language `html`. -/
lemma allows_html_iff (hlang : d.languageId = "html") (hmap : ∀ e ∈ s.behaviour.includeLanguages, e.1 ≠ "html")
    {dialect : Dialect} {x : Abbreviation.Extracted} {k : Setting} :
    Allows s last d p request dialect x k ↔ dialect = .html ∧ k = setting d .html last request p ∧
      s.behaviour.isExcluded "html" = false ∧ s.behaviour.showExpanded ≠ .never ∧
      Abbreviation.extract? d p k.dialect.isMarkup = some x ∧ Abbreviation.isValid k.dialect x.text = true ∧
      k.admits s d p x.span = true := by
  have hown : ownSheetDialect? d = none := by
    rw [ownSheetDialect?, hlang]
    decide
  have hread (k : Setting) : settingRead? s d p request k = some k := by
    simp only [settingRead?, hown, ite_self]
  have hscript : scriptLanguages.contains "html" = false := by decide
  constructor
  · intro h
    have hex := h.notExcluded
    have hdialect := h.dialectOf
    rw [hlang] at hex hdialect
    obtain rfl : dialect = .html := Option.some_inj.1 (hdialect.symm.trans (Behaviour.dialectOf?_html hex hmap))
    obtain rfl : setting d .html last request p = k := Option.some_inj.1 ((hread _).symm.trans h.read)
    exact ⟨rfl, rfl, hex, h.shown, h.extracted, h.valid, h.admitted⟩
  · rintro ⟨rfl, rfl, hex, hshown, hx, hv, hadmits⟩
    exact ⟨by rwa [hlang], by rw [hlang]; exact Behaviour.dialectOf?_html hex hmap, hshown, hx, hv, hread _, hadmits,
      by rw [hlang, hscript, Bool.and_false, Bool.false_and]⟩

/-- The position is in no stylesheet that the node found there holds. -/
structure NoSheetAt (found : Found) (p : Position) : Prop where
  style : inStyleAttribute (some found) p = false
  body : ∀ inner ∈ found.node.kind.innerSpan?, inner.encloses p = false

lemma htmlSetting_eq {t : Tree} {found : Found} (ht : d.parse? .html = some t)
    (hfound : t.nodeAt p true = some found) (h : NoSheetAt found p) :
    htmlSetting d .html p = ⟨.html, true, some t⟩ := by
  have hbind : (some t).bind (·.nodeAt p true) = some found := hfound
  have hsheet : d.embeddedSheet? (some found) p = none := by
    simp only [embeddedSheet?, Option.bind_eq_bind, Option.bind_some]
    rw [Option.bind_eq_none_iff]
    intro _ _
    cases hinner : found.node.kind.innerSpan? with
    | none => rfl
    | some inner =>
      have hno := h.body inner hinner
      simp [hno]
  simp only [htmlSetting, ht, hbind, h.style, hsheet, Bool.false_eq_true, if_false]

lemma complete_eq_none_of_node {provider : Provider} {t : Tree} {found : Found} (hlang : d.languageId = "html")
    (hmap : ∀ e ∈ provider.settings.behaviour.includeLanguages, e.1 ≠ "html")
    (hreq : request.trigger ≠ .incomplete) (ht : d.parse? .html = some t)
    (hfound : t.nodeAt p true = some found) (hsheet : NoSheetAt found p)
    (hscript : found.node.kind.isElementNamed "script" = false)
    (hinner : ∀ inner ∈ found.node.kind.innerSpan?, inner.contains p = false) :
    (provider.complete d p request).1 = none := by
  by_contra hne
  obtain ⟨list, hlist⟩ := Option.ne_none_iff_exists'.1 hne
  obtain ⟨dialect, x, k, -, hallows, -, -⟩ := complete_eq_some_iff.1 hlist
  obtain ⟨-, rfl, -, -, -, -, hadmits⟩ := (allows_html_iff hlang hmap).1 hallows
  have hbind : (some t).bind (·.nodeAt p true) = some found := hfound
  rw [setting_html hlang hreq, htmlSetting_eq ht hfound hsheet] at hadmits
  simp only [Setting.admits, Bool.not_true, Bool.false_or, acceptsAbbreviation, Dialect.isStylesheet, hbind,
    markupAccepts, hscript, Bool.false_eq_true, if_false] at hadmits
  split at hadmits
  · cases hadmits
  · rename_i inner heq
    rw [hinner inner heq] at hadmits
    cases hadmits

/-- Strictly inside a tag of an element other than `script` nothing is completed, unless the position is in the
value of the first `style` attribute of the element; nor is it strictly inside a comment. -/
theorem complete_in_tag {provider : Provider} {t : Tree} {n : Node} (hlang : d.languageId = "html")
    (hmap : ∀ e ∈ provider.settings.behaviour.includeLanguages, e.1 ≠ "html")
    (hreq : request.trigger ≠ .incomplete) (ht : d.parse? .html = some t) (hn : n ∈ t.preorder)
    (hp : n.kind.isElementNamed "script" = false ∧ n.kind.hasTagAt p = true ∧
          (∀ a ∈ n.kind.attribute? "style", ∀ value ∈ a.value, value.span.contains p = false) ∨
        n.kind = .comment ∧ n.span.encloses p = true) :
    (provider.complete d p request).1 = none := by
  obtain ⟨hroot, hnested⟩ := Markup.wellNested_parse? ht
  have hn : n ∈ t.forest.preorder := by
    rcases List.mem_cons.1 hn with rfl | hn
    · rw [hroot] at hp
      rcases hp with ⟨-, h, -⟩ | ⟨h, -⟩ <;> cases h
    · exact hn
  rcases hp with ⟨hscript, htag, hstyle⟩ | ⟨hcomment, hp⟩
  · obtain ⟨hin, hout⟩ := (hnested.wellTagged (List.mem_cons_of_mem _ hn)).of_hasTagAt htag
    obtain ⟨found, hfound, rfl⟩ := hnested.nodeAt_eq hn hin hout
    have hinner : ∀ inner ∈ found.node.kind.innerSpan?, inner.contains p = false := by
      intro inner hinner
      have hbody : Markup.bodyOf found.node = some (inner.start, inner.stop) := by
        rw [Markup.bodyOf, hinner]
        rfl
      rcases hout _ _ hbody with h | h
      · exact Span.contains_of_lt_start h
      · exact Span.contains_of_stop_lt h
    refine complete_eq_none_of_node hlang hmap hreq ht hfound ⟨?_, fun inner h => ?_⟩ hscript hinner
    · rw [inStyleAttribute, Option.any_some, Option.any_eq_false]
      intro a ha
      simpa [Option.any_eq_false] using hstyle a ha
    · have hno := hinner inner h
      rw [Bool.eq_false_iff] at hno ⊢
      intro henc
      obtain ⟨h1, h2⟩ := Span.encloses_iff.1 henc
      exact hno (Span.contains_iff.2 ⟨le_of_lt h1, le_of_lt h2⟩)
  · obtain ⟨found, hfound, rfl⟩ := hnested.nodeAt_eq hn hp
      (by simp [Markup.bodyOf, hcomment, Kind.innerSpan?])
    refine complete_eq_none_of_node hlang hmap hreq ht hfound ⟨?_, ?_⟩ ?_ ?_ <;>
      simp [inStyleAttribute, hcomment, Kind.attribute?, Kind.attributes, Kind.innerSpan?, Kind.isElementNamed,
        Kind.elementName?]

/-- In `<ul><li style="a" class="div|">x</ul>` the element `li` is left unclosed; nothing is completed in its tag. -/
theorem complete_in_unclosed_tag :
    let d := Document.ofText "html" "<ul><li style=\"a\" class=\"div\">x</ul>"
    let provider := Provider.new .standard
    ∃ t, d.parse? .html = some t ∧ ∃ n ∈ t.preorder, n.kind.isElementNamed "script" = false ∧
      n.kind.hasTagAt ⟨0, 28⟩ = true ∧
      (∀ a ∈ n.kind.attribute? "style", ∀ value ∈ a.value, value.span.contains ⟨0, 28⟩ = false) ∧
      (provider.complete d ⟨0, 28⟩ ⟨.invoked, none⟩).1 = none := by
  intro d provider
  have hread : (d.parse? .html).any (fun t => t.preorder.any fun n =>
      !n.kind.isElementNamed "script" && n.kind.hasTagAt ⟨0, 28⟩ &&
        (n.kind.attribute? "style").all fun a => a.value.all fun v => !v.span.contains ⟨0, 28⟩) = true := by
    cbv
  simp only [Option.any_eq_true, List.any_eq_true, Bool.and_eq_true, Bool.not_eq_true', Option.all_eq_true] at hread
  obtain ⟨t, ht, n, hn, ⟨hscript, htag⟩, hstyle⟩ := hread
  exact ⟨t, ht, n, hn, hscript, htag, hstyle,
    complete_in_tag rfl (by decide) (by decide) ht hn (.inl ⟨hscript, htag, hstyle⟩)⟩

end Provider
end AbbrevSite
