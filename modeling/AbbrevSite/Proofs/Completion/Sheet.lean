import AbbrevSite.Proofs.Completion.Answer
import AbbrevSite.Proofs.Region.Comment
import AbbrevSite.Proofs.Toml.Tables
import Mathlib

/-! Completions in a stylesheet. Whether there are any depends on the settings, on the abbreviation and on the
tree of the document or of the region around the position. In a comment there are none, unless only the
region is read and no comment of its tree covers the position. -/
namespace AbbrevSite

open Document
open Toml (Table)

def Dialect.sheetModes : List Dialect := [.css, .scss, .less, .sass, .stylus]

section Modes

variable {dialect : Dialect}

lemma Dialect.isStylesheet_of_mem (h : dialect ∈ sheetModes) : dialect.isStylesheet = true := by
  revert dialect
  decide

lemma Modes.dialect?_name (h : dialect ∈ Dialect.sheetModes) {excluded : List String}
    (hex : excluded.contains dialect.name = false) :
    Modes.dialect? dialect.name excluded = some dialect := by
  have hname : ∀ dialect ∈ Dialect.sheetModes, dialect.name ≠ "" ∧
      (Modes.words dialect.name.toList).any (Modes.jsxWords.contains ·) = false ∧
      dialect.name ≠ "sass-indented" ∧ dialect.name ≠ "jade" ∧ dialect.name ≠ "wxss" := by decide
  obtain ⟨hne, hwords, hsass, hjade, hwxss⟩ := hname dialect h
  have hfirst : ¬(dialect.name = "" ∨ excluded.contains dialect.name = true) := by
    rw [hex]
    simp [hne]
  rw [Modes.dialect?, if_neg hfirst, if_neg (by rw [hwords]; decide)]
  · exact Dialect.ofName?_name dialect
  · exact hsass
  · exact hjade
  · exact hwxss

lemma Behaviour.dialectOf?_name (h : dialect ∈ Dialect.sheetModes) {b : Behaviour}
    (hex : b.isExcluded dialect.name = false)
    (hmap : ∀ e ∈ b.includeLanguages, e.1 = dialect.name → e.2 = dialect.name) :
    b.dialectOf? dialect.name = some dialect := by
  have hincluded : ∀ dialect ∈ Dialect.sheetModes, ∀ e ∈ Modes.included, e.1 ≠ dialect.name := by
    decide
  have hall := Table.forall_mem_extend (P := fun e => e.1 = dialect.name → e.2 = dialect.name)
    (fun e he he' => absurd he' (hincluded dialect h e he)) hmap
  have hkeep : (b.languageMapping.get? dialect.name).getD dialect.name = dialect.name := by
    cases hget : b.languageMapping.get? dialect.name with
    | none => rfl
    | some value => exact hall _ (List.mem_filter.1 (Table.mem_of_get? hget)).1 rfl
  rw [dialectOf?, hkeep]
  exact Modes.dialect?_name h hex

end Modes

namespace Provider

variable {s : Settings} {d : Document} {p : Position} {dialect : Dialect} {last : Option Family}
  {request : Request} {list : CompletionList}

/-- The settings allow offers in a document, and there is one for the abbreviation at a position. -/
structure Proposes (s : Settings) (d : Document) (p : Position) (dialect : Dialect)
    (found : Abbreviation.Extracted) : Prop where
  notExcluded : s.behaviour.isExcluded d.languageId = false
  shown : s.behaviour.showExpanded ≠ .never
  extracted : Abbreviation.extract? d p false = some found
  offered : Abbreviation.offers d p dialect (s.behaviour.expandOptions dialect) ≠ []

lemma setting_sheet (h : dialect ∈ Dialect.sheetModes) (hlang : d.languageId = dialect.name)
    (last : Option Family) (request : Request) (p : Position) :
    setting d dialect last request p = ⟨dialect, false, none⟩ := by
  have hnames : ∀ dialect ∈ Dialect.sheetModes, dialect.name ≠ "html" ∧
      (dialect == .html || dialect == .jsx || dialect == .xml) = false := by decide
  obtain ⟨hne, hc⟩ := hnames dialect h
  rw [← hlang] at hne
  simp only [setting, if_neg hne, hc]

lemma ownSheetDialect?_of_name (h : dialect ∈ Dialect.sheetModes)
    (hlang : d.languageId = dialect.name) : ownSheetDialect? d = some dialect := by
  rw [ownSheetDialect?, hlang, Dialect.ofName?_name]
  simp [Dialect.isStylesheet_of_mem h]

lemma isValid_of_offers {found : Abbreviation.Extracted} {o : ExpandOptions}
    (hs : dialect.isStylesheet = true) (hf : Abbreviation.extract? d p false = some found)
    (ho : Abbreviation.offers d p dialect o ≠ []) : Abbreviation.isValid dialect found.text = true := by
  by_contra hv
  refine ho ?_
  simp only [Abbreviation.offers, Dialect.isMarkup, hs, Bool.not_true, hf, if_neg hv]

section Sheet

variable (h : dialect ∈ Dialect.sheetModes) (hlang : d.languageId = dialect.name)
  (hmap : ∀ e ∈ s.behaviour.includeLanguages, e.1 = d.languageId → e.2 = d.languageId)
  (hreq : request.trigger ≠ .incomplete)
include h hlang hmap hreq

/-- What is asked before there are offers in a document that is a stylesheet by its language. -/
lemma allows_sheet_iff {dialect' : Dialect} {x : Abbreviation.Extracted} {k : Setting} :
    Allows s last d p request dialect' x k ↔ dialect' = dialect ∧
      ∃ tree, sheetTree? s d dialect p = some tree ∧ k = ⟨dialect, true, some tree⟩ ∧
        s.behaviour.isExcluded d.languageId = false ∧ s.behaviour.showExpanded ≠ .never ∧
        Abbreviation.extract? d p false = some x ∧ Abbreviation.isValid dialect x.text = true ∧
        sheetAccepts d (some tree) (tree.nodeAt p true) dialect p x.span = true := by
  have hs := Dialect.isStylesheet_of_mem h
  have hmark : dialect.isMarkup = false := by simp [Dialect.isMarkup, hs]
  have hset := setting_sheet h hlang last request p
  have hread : settingRead? s d p request ⟨dialect, false, none⟩ =
      (sheetTree? s d dialect p).map fun tree => ⟨dialect, true, some tree⟩ := by
    simp only [settingRead?, if_neg hreq, ownSheetDialect?_of_name h hlang]
  have hdialect (hex : s.behaviour.isExcluded d.languageId = false) :
      s.behaviour.dialectOf? d.languageId = some dialect := by
    rw [hlang] at hex hmap ⊢
    exact Behaviour.dialectOf?_name h hex hmap
  constructor
  · intro hallows
    obtain rfl : dialect = dialect' :=
      Option.some_inj.1 ((hdialect hallows.notExcluded).symm.trans hallows.dialectOf)
    have hx := hallows.extracted
    have hv := hallows.valid
    have hk := hallows.read
    rw [hset] at hx hv hk
    rw [hmark] at hx
    rw [hread, Option.map_eq_some_iff] at hk
    obtain ⟨tree, htree, rfl⟩ := hk
    have hadmitted := hallows.admitted
    simp only [Setting.admits, acceptsAbbreviation, hs, if_true, Bool.not_true, Bool.false_or, Option.bind_some]
      at hadmitted
    exact ⟨rfl, tree, htree, rfl, hallows.notExcluded, hallows.shown, hx, hv, hadmitted⟩
  · rintro ⟨rfl, tree, htree, rfl, hex, hshown, hx, hv, haccepts⟩
    refine ⟨hex, hdialect hex, hshown, ?_, ?_, ?_, ?_, by simp [hmark]⟩
    · rw [hset, hmark]
      exact hx
    · rw [hset]
      exact hv
    · rw [hset, hread, htree, Option.map_some]
    · simpa only [Setting.admits, acceptsAbbreviation, hs, if_true, Bool.not_true, Bool.false_or, Option.bind_some]
        using haccepts

lemma completions?_sheet : completions? s last d p request = some list ↔
    ∃ found tree, s.behaviour.isExcluded d.languageId = false ∧ s.behaviour.showExpanded ≠ .never ∧
      Abbreviation.extract? d p false = some found ∧
      Abbreviation.isValid dialect found.text = true ∧ sheetTree? s d dialect p = some tree ∧
      sheetAccepts d (some tree) (tree.nodeAt p true) dialect p found.span = true ∧
      list = ⟨(Abbreviation.offers d p dialect (s.behaviour.expandOptions dialect)).map
        (item s.behaviour request), true⟩ := by
  simp only [completions?_eq_some_iff, allows_sheet_iff h hlang hmap hreq]
  constructor
  · rintro ⟨_, x, _, ⟨rfl, tree, htree, rfl, hex, hshown, hx, hv, haccepts⟩, hlist⟩
    exact ⟨x, tree, hex, hshown, hx, hv, htree, haccepts, hlist⟩
  · rintro ⟨x, tree, hex, hshown, hx, hv, htree, haccepts, hlist⟩
    exact ⟨dialect, x, _, ⟨rfl, tree, htree, rfl, hex, hshown, hx, hv, haccepts⟩, hlist⟩

/-- When a request in a stylesheet is answered. -/
theorem complete_ne_none_iff {provider : Provider} (hsettings : provider.settings = s) :
    (provider.complete d p request).1 ≠ none ↔
      ∃ found tree, Proposes s d p dialect found ∧ sheetTree? s d dialect p = some tree ∧
        sheetAccepts d (some tree) (tree.nodeAt p true) dialect p found.span = true := by
  have hfilter : (provider.complete d p request).1 =
      (completions? s provider.last d p request).filter fun l => !l.items.isEmpty := by
    rw [← hsettings]
    rfl
  rw [hfilter, Option.ne_none_iff_exists']
  simp only [Option.filter_eq_some_iff, completions?_sheet h hlang hmap hreq]
  constructor
  · rintro ⟨_, ⟨found, tree, hex, hshown, hf, -, ht, hacc, rfl⟩, hne⟩
    refine ⟨found, tree, ⟨hex, hshown, hf, ?_⟩, ht, hacc⟩
    simpa using hne
  · rintro ⟨found, tree, ⟨hex, hshown, hf, ho⟩, ht, hacc⟩
    have hv := isValid_of_offers (Dialect.isStylesheet_of_mem h) hf ho
    exact ⟨_, ⟨found, tree, hex, hshown, hf, hv, ht, hacc, rfl⟩, by simpa using ho⟩

lemma complete_eq_none_of_inComment {provider : Provider} (hsettings : provider.settings = s)
    (hin : ∀ tree, sheetTree? s d dialect p = some tree → tree.inComment p = true) :
    (provider.complete d p request).1 = none := by
  by_contra hne
  obtain ⟨found, tree, -, ht, hacc⟩ :=
    (complete_ne_none_iff h hlang hmap hreq hsettings).1 hne
  simp [sheetAccepts, hin tree ht] at hacc

end Sheet

lemma sheetTree?_region (hr : readsRegion s d = true) :
    sheetTree? s d dialect p = d.parseAround? s.limits p := if_pos hr

lemma sheetTree?_whole (hr : readsRegion s d = false) :
    sheetTree? s d dialect p = d.parse? dialect := by
  rw [sheetTree?, hr, if_neg Bool.false_ne_true]

/-- Strictly inside a comment of a stylesheet nothing is completed if the whole document is read. If only the
region is read, something is exactly if no comment of the region covers the position and all else allows
it. A region that starts with a lexeme of the document, at or before the comment, shows the comment;
one that starts in the comment, with plain characters up to the position, does not. -/
theorem complete_in_comment {provider : Provider} {t : Tree} {c : Span}
    (h : dialect ∈ Dialect.sheetModes) (hlang : d.languageId = dialect.name)
    (hmap : ∀ e ∈ provider.settings.behaviour.includeLanguages,
      e.1 = d.languageId → e.2 = d.languageId)
    (hread : d.parse? dialect = some t) (hc : c ∈ t.comments) (hp : c.encloses p = true)
    (hreq : request.trigger ≠ .incomplete) :
    (readsRegion provider.settings d = false → (provider.complete d p request).1 = none) ∧
      (readsRegion provider.settings d = true →
        ((provider.complete d p request).1 ≠ none ↔
            ∃ found t', Proposes provider.settings d p dialect found ∧
              d.parseAround? provider.settings.limits p = some t' ∧ t'.inComment p = false ∧
              sheetAccepts d (some t') (t'.nodeAt p true) dialect p found.span = true) ∧
          ((∃ k ∈ (Sheet.lexemes dialect.hasLineComments (d.glyphs .origin d.stop)).1,
              k.start = (d.regionAround provider.settings.limits p).start ∧ k.start ≤ c.start) →
            (provider.complete d p request).1 = none) ∧
          (d.Throughout Sheet.IsPlain (d.regionAround provider.settings.limits p).start (d.after p) →
            ∀ t', d.parseAround? provider.settings.limits p = some t' →
              t'.inComment p = false)) := by
  have hs := Dialect.isStylesheet_of_mem h
  refine ⟨fun hr => ?_, fun hr => ⟨?_, ?_, fun hplain t' ht => ?_⟩⟩
  · refine complete_eq_none_of_inComment h hlang hmap hreq rfl fun tree ht => ?_
    rw [sheetTree?_whole hr, hread] at ht
    cases ht
    obtain ⟨hcp, hpc⟩ := Span.encloses_iff.1 hp
    rw [Tree.inComment, List.any_eq_true]
    exact ⟨c, hc, Span.contains_iff.2 ⟨le_of_lt hcp, le_of_lt hpc⟩⟩
  · rw [complete_ne_none_iff h hlang hmap hreq rfl]
    constructor
    · rintro ⟨found, tree, hprop, ht, hacc⟩
      rw [sheetTree?_region hr] at ht
      have hin : tree.inComment p = false := by
        by_contra hin
        simp [sheetAccepts, hin] at hacc
      exact ⟨found, tree, hprop, ht, hin, hacc⟩
    · rintro ⟨found, tree, hprop, ht, -, hacc⟩
      exact ⟨found, tree, hprop, by rw [sheetTree?_region hr, ht], hacc⟩
  · rintro ⟨k, hk, hstart, hkc⟩
    refine complete_eq_none_of_inComment h hlang hmap hreq rfl fun tree ht => ?_
    rw [sheetTree?_region hr] at ht
    exact inComment_parseAround? hlang hs hread hc hp hk hstart hkc ht
  · exact not_inComment_parseAround? hplain ht

/-- In `/* \x7d a \x7b m10| */`, if only the region is read, the region starts at `a` and `m10` is completed. -/
theorem complete_in_commented_rule :
    let d := Document.ofText "css" "/* \x7d a \x7b m10 */"
    let provider := Provider.new ⟨.standard, ⟨0, 100, 5000, 500⟩⟩
    ∃ t, d.parse? .css = some t ∧ ∃ c ∈ t.comments, c.encloses ⟨0, 12⟩ = true ∧
      readsRegion provider.settings d = true ∧
      (provider.complete d ⟨0, 12⟩ ⟨.invoked, none⟩).1 ≠ none := by
  have hread : ((Document.ofText "css" "/* \x7d a \x7b m10 */").parse? .css).any
      (fun t => t.comments.any (·.encloses ⟨0, 12⟩)) = true := by
    simp only [Document.parse?, Cursor.parse, Sheet.parse_eq_parseLexemes]
    cbv
  have hfound : Abbreviation.extract? (.ofText "css" "/* \x7d a \x7b m10 */") ⟨0, 12⟩ false =
      some ⟨"m10", .between ⟨0, 9⟩ ⟨0, 12⟩⟩ := by
    cbv
  have hoffers : (Abbreviation.offers (.ofText "css" "/* \x7d a \x7b m10 */") ⟨0, 12⟩ .css
      (Behaviour.standard.expandOptions .css)).isEmpty = false := by
    cbv
  have haround : ((Document.ofText "css" "/* \x7d a \x7b m10 */").parseAround? ⟨0, 100, 5000, 500⟩
      ⟨0, 12⟩).any (fun t => !t.inComment ⟨0, 12⟩ &&
        sheetAccepts (.ofText "css" "/* \x7d a \x7b m10 */") (some t) (t.nodeAt ⟨0, 12⟩ true) .css
          ⟨0, 12⟩ (.between ⟨0, 9⟩ ⟨0, 12⟩)) = true := by
    simp only [Document.parseAround?, Sheet.parse_eq_parseLexemes]
    cbv
  simp only [Option.any_eq_true, List.any_eq_true, Bool.and_eq_true, Bool.not_eq_true'] at hread haround
  obtain ⟨t, ht, c, hc, hp⟩ := hread
  obtain ⟨t', ht', hin, hacc⟩ := haround
  refine ⟨t, ht, c, hc, hp, by decide, ?_⟩
  refine ((complete_in_comment (by decide) rfl (by decide) ht hc hp (by decide)).2 (by decide)).1.2
    ⟨_, t', ⟨by decide, by decide, hfound, ?_⟩, ht', hin, hacc⟩
  intro hnil
  have he : (Abbreviation.offers (.ofText "css" "/* \x7d a \x7b m10 */") ⟨0, 12⟩ .css
    (Behaviour.standard.expandOptions .css)).isEmpty = true := List.isEmpty_iff.2 hnil
  rw [hoffers] at he
  cases he

end Provider
end AbbrevSite
