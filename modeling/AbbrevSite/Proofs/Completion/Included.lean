import AbbrevSite.Proofs.Completion.Again
import Mathlib

/-! Languages that are treated as a stylesheet. A document of such a language gets the answers that the same text gets
in the language itself when its locations are not checked: by its own language the document is no stylesheet, so none
is read for it. -/
namespace AbbrevSite

open Toml (Table)

lemma Behaviour.dialectOf?_included {b : Behaviour} {language : String} {dialect : Dialect}
    (hmode : dialect ∈ Dialect.sheetModes) (hmem : (language, dialect.name) ∈ b.includeLanguages)
    (honly : ∀ e ∈ b.includeLanguages, e.1 = language → e.2 = dialect.name)
    (hex : b.isExcluded dialect.name = false) : b.dialectOf? language = some dialect := by
  have hmodes : ∀ dialect ∈ Dialect.sheetModes, Modes.isMode dialect.name = true := by decide
  have hget : b.languageMapping.get? language = some dialect.name :=
    Table.get?_filter (Table.get?_extend_of_mem hmem honly) (hmodes dialect hmode)
  rw [dialectOf?, hget, Option.getD_some]
  exact Modes.dialect?_name hmode hex

def Document.inLanguage (d : Document) (language : String) : Document := { d with languageId := language }

namespace Provider

variable {s : Settings} {provider : Provider} {d d' : Document} {p : Position} {dialect : Dialect}
  {last : Option Family} {request request' : Request}

/-- A stylesheet, read whole or around a position, takes the abbreviation there. -/
def AcceptedAt (s : Settings) (d : Document) (dialect : Dialect) (p : Position) : Prop :=
  ∃ x tree, Abbreviation.extract? d p false = some x ∧ sheetTree? s d dialect p = some tree ∧
    sheetAccepts d (some tree) (tree.nodeAt p true) dialect p x.span = true

/-- What is asked before there are offers in a document that is not read. -/
lemma allows_unread_iff (hmode : dialect ∈ Dialect.sheetModes) (hlang : d.languageId ≠ "html")
    (hex : s.behaviour.isExcluded d.languageId = false) (hdialect : s.behaviour.dialectOf? d.languageId = some dialect)
    (hunread : (if request.trigger = .incomplete then none else ownSheetDialect? d) = none)
    {dialect' : Dialect} {x : Abbreviation.Extracted} {k : Setting} :
    Allows s last d p request dialect' x k ↔ dialect' = dialect ∧ k = ⟨dialect, false, none⟩ ∧
      s.behaviour.showExpanded ≠ .never ∧ Abbreviation.extract? d p false = some x ∧
      Abbreviation.isValid dialect x.text = true := by
  have hchecked : ∀ dialect ∈ Dialect.sheetModes, dialect.isMarkup = false ∧
      (dialect == .html || dialect == .jsx || dialect == .xml) = false := by decide
  obtain ⟨hmarkup, hunchecked⟩ := hchecked dialect hmode
  have hset : setting d dialect last request p = ⟨dialect, false, none⟩ := by
    rw [setting_other hlang, hunchecked]
  have hread (k : Setting) : settingRead? s d p request k = some k := by
    simp only [settingRead?, hunread]
  constructor
  · intro h
    obtain rfl : dialect = dialect' := Option.some_inj.1 (hdialect.symm.trans h.dialectOf)
    have hx := h.extracted
    have hv := h.valid
    have hk := h.read
    rw [hset] at hx hv hk
    rw [hmarkup] at hx
    rw [hread] at hk
    exact ⟨rfl, (Option.some_inj.1 hk).symm, h.shown, hx, hv⟩
  · rintro ⟨rfl, rfl, hshown, hx, hv⟩
    refine ⟨hex, hdialect, hshown, ?_, ?_, ?_, rfl, by simp [hmarkup]⟩
    · rw [hset, hmarkup]
      exact hx
    · rw [hset]
      exact hv
    · rw [hset]
      exact hread _

lemma complete_congr (h : ∀ list, (provider.complete d p request).1 = some list ↔
    (provider.complete d' p request').1 = some list) :
    provider.complete d p request = provider.complete d' p request' := by
  have hanswer : (provider.complete d p request).1 = (provider.complete d' p request').1 := Option.ext h
  apply Prod.ext hanswer
  rw [complete_snd, complete_snd, hanswer]

section Included

variable (hmode : dialect ∈ Dialect.sheetModes) (hname : Dialect.ofName? d.languageId = none)
  (hmem : (d.languageId, dialect.name) ∈ provider.settings.behaviour.includeLanguages)
  (honly : ∀ e ∈ provider.settings.behaviour.includeLanguages, e.1 = d.languageId → e.2 = dialect.name)
  (hexcluded : provider.settings.behaviour.isExcluded d.languageId = false)
  (hex : provider.settings.behaviour.isExcluded dialect.name = false)
include hmode hname hmem honly hexcluded hex

lemma allows_included_iff {dialect' : Dialect} {x : Abbreviation.Extracted} {k : Setting} :
    Allows provider.settings last d p request dialect' x k ↔ dialect' = dialect ∧ k = ⟨dialect, false, none⟩ ∧
      provider.settings.behaviour.showExpanded ≠ .never ∧ Abbreviation.extract? d p false = some x ∧
      Abbreviation.isValid dialect x.text = true := by
  have hhtml : d.languageId ≠ "html" := by
    intro h
    rw [h] at hname
    exact absurd hname (by decide)
  have hown : ownSheetDialect? d = none := by
    rw [ownSheetDialect?, hname, Option.filter_none]
  exact allows_unread_iff hmode hhtml hexcluded (Behaviour.dialectOf?_included hmode hmem honly hex)
    (by rw [hown, ite_self])

variable (hkeep : ∀ e ∈ provider.settings.behaviour.includeLanguages, e.1 = dialect.name → e.2 = dialect.name)
include hkeep

lemma complete_included_eq_unread (request : Request) : provider.complete d p request =
    provider.complete (d.inLanguage dialect.name) p ⟨.incomplete, request.input⟩ := by
  have hhtml : ∀ dialect ∈ Dialect.sheetModes, dialect.name ≠ "html" := by decide
  apply complete_congr
  intro list
  have hown {dialect' : Dialect} {x : Abbreviation.Extracted} {k : Setting} :
      Allows provider.settings provider.last (d.inLanguage dialect.name) p ⟨.incomplete, request.input⟩ dialect' x k ↔
        dialect' = dialect ∧ k = ⟨dialect, false, none⟩ ∧ provider.settings.behaviour.showExpanded ≠ .never ∧
          Abbreviation.extract? (d.inLanguage dialect.name) p false = some x ∧
          Abbreviation.isValid dialect x.text = true :=
    allows_unread_iff hmode (hhtml dialect hmode) hex (Behaviour.dialectOf?_name hmode hex hkeep) rfl
  simp only [complete_eq_some_iff, allows_included_iff hmode hname hmem honly hexcluded hex, hown]
  exact Iff.rfl

lemma complete_own_iff (hreq : request.trigger ≠ .incomplete) (list : CompletionList) :
    (provider.complete (d.inLanguage dialect.name) p request).1 = some list ↔
      (provider.complete d p request).1 = some list ∧
        AcceptedAt provider.settings (d.inLanguage dialect.name) dialect p := by
  have hown {dialect' : Dialect} {x : Abbreviation.Extracted} {k : Setting} :
      Allows provider.settings provider.last (d.inLanguage dialect.name) p request dialect' x k ↔ _ :=
    allows_sheet_iff hmode rfl hkeep hreq
  simp only [complete_eq_some_iff, allows_included_iff hmode hname hmem honly hexcluded hex, hown]
  constructor
  · rintro ⟨_, x, _, snippet, ⟨rfl, tree, htree, rfl, -, hshown, hx, hv, haccepts⟩, hexpand, rfl⟩
    exact ⟨⟨_, x, _, snippet, ⟨rfl, rfl, hshown, hx, hv⟩, hexpand, rfl⟩, x, tree, hx, htree, haccepts⟩
  · rintro ⟨⟨_, x, _, snippet, ⟨rfl, rfl, hshown, hx, hv⟩, hexpand, rfl⟩, y, tree, hy, htree, haccepts⟩
    obtain rfl : x = y := Option.some_inj.1 (hx.symm.trans hy)
    exact ⟨_, x, _, snippet, ⟨rfl, tree, htree, rfl, hex, hshown, hx, hv, haccepts⟩, hexpand, rfl⟩

/-- In a language that is treated as a stylesheet every request is answered as a repeated one is in the language of
the stylesheet, where nothing is read for it. So the answers are the same in both languages for a repeated request,
and for any other where the stylesheet takes the abbreviation at the position; where it does not, the language of the
stylesheet has no answer. -/
theorem complete_included (request : Request) :
    provider.complete d p request = provider.complete (d.inLanguage dialect.name) p ⟨.incomplete, request.input⟩ ∧
      (request.trigger = .incomplete ∨ AcceptedAt provider.settings (d.inLanguage dialect.name) dialect p →
        provider.complete (d.inLanguage dialect.name) p request = provider.complete d p request) ∧
      (request.trigger ≠ .incomplete → ¬ AcceptedAt provider.settings (d.inLanguage dialect.name) dialect p →
        (provider.complete (d.inLanguage dialect.name) p request).1 = none) := by
  have hunread := complete_included_eq_unread hmode hname hmem honly hexcluded hex hkeep (p := p) request
  refine ⟨hunread, ?_, ?_⟩
  · intro h
    by_cases hreq : request.trigger = .incomplete
    · obtain ⟨trigger, input⟩ := request
      obtain rfl : trigger = .incomplete := hreq
      exact hunread.symm
    · have haccepted := h.resolve_left hreq
      apply complete_congr
      intro list
      rw [complete_own_iff hmode hname hmem honly hexcluded hex hkeep hreq]
      exact and_iff_left haccepted
  · intro hreq hrejected
    by_contra hne
    obtain ⟨list, hlist⟩ := Option.ne_none_iff_exists'.1 hne
    exact hrejected ((complete_own_iff hmode hname hmem honly hexcluded hex hkeep hreq list).1 hlist).2

end Included

def postcss : Settings := ⟨{ Behaviour.standard with includeLanguages := [("postcss", "css")] }, .standard⟩

/-- In `a{ m10|}` the rule takes the abbreviation, so `m10` is completed in both languages. -/
theorem complete_included_in_rule :
    let provider := Provider.new postcss
    let d := Document.ofText "postcss" "a\x7b m10\x7d"
    let request : Request := ⟨.invoked, none⟩
    Dialect.ofName? d.languageId = none ∧
      (d.languageId, Dialect.css.name) ∈ provider.settings.behaviour.includeLanguages ∧
      AcceptedAt provider.settings (d.inLanguage "css") .css ⟨0, 6⟩ ∧ (provider.complete d ⟨0, 6⟩ request).1 ≠ none ∧
      provider.complete (d.inLanguage "css") ⟨0, 6⟩ request = provider.complete d ⟨0, 6⟩ request := by
  intro provider d request
  have hread : (sheetTree? postcss ((Document.ofText "postcss" "a\x7b m10\x7d").inLanguage "css") .css ⟨0, 6⟩).any
      (fun t => sheetAccepts ((Document.ofText "postcss" "a\x7b m10\x7d").inLanguage "css") (some t)
        (t.nodeAt ⟨0, 6⟩ true) .css ⟨0, 6⟩ (.between ⟨0, 3⟩ ⟨0, 6⟩)) = true := by
    rw [sheetTree?, if_neg (by decide)]
    simp only [Document.parse?, Cursor.parse, Sheet.parse_eq_parseLexemes]
    cbv
  have hfound : Abbreviation.extract? (.ofText "postcss" "a\x7b m10\x7d") ⟨0, 6⟩ false =
      some ⟨"m10", .between ⟨0, 3⟩ ⟨0, 6⟩⟩ := by
    cbv
  have hexpand : Abbreviation.expand? "m10" .css (postcss.behaviour.expandOptions .css) = some "margin: 10px;" := by cbv
  obtain ⟨tree, htree, haccepts⟩ := (Option.any_eq_true _ _).1 hread
  have haccepted : AcceptedAt provider.settings (d.inLanguage "css") .css ⟨0, 6⟩ :=
    ⟨_, tree, hfound, htree, haccepts⟩
  have hallows : Allows provider.settings provider.last d ⟨0, 6⟩ request .css ⟨"m10", .between ⟨0, 3⟩ ⟨0, 6⟩⟩
      ⟨.css, false, none⟩ :=
    (allows_included_iff (by decide) (by decide) (by decide) (by decide) (by decide) (by decide)).2
      ⟨rfl, rfl, by decide, hfound, by decide⟩
  refine ⟨by decide, by decide, haccepted, ?_, ?_⟩
  · rw [Option.ne_none_iff_exists']
    exact ⟨_, complete_eq_some_iff.2 ⟨_, _, _, _, hallows, hexpand, rfl⟩⟩
  · have hmode : Dialect.css ∈ Dialect.sheetModes := by decide
    exact (complete_included hmode (by decide) (by decide) (by decide) (by decide) (by decide) (by decide)
      request).2.1 (.inr haccepted)

/-- An included language is not answered as the language it is treated as: in `m10|` at the top of a stylesheet there
is no answer in `css`, and one in `postcss`. -/
theorem not_forall_complete_inLanguage :
    ¬ ∀ (s : Settings) (d : Document) (dialect : Dialect) (p : Position) (request : Request),
      dialect ∈ [Dialect.css, .scss, .less] → Dialect.ofName? d.languageId = none →
      Modes.dialect? d.languageId [] = none → s.behaviour.isExcluded d.languageId = false →
      (d.languageId, dialect.name) ∈ s.behaviour.includeLanguages →
      (∀ e ∈ s.behaviour.includeLanguages, e.1 = d.languageId → e.2 = dialect.name) →
      (∀ e ∈ s.behaviour.includeLanguages, e.1 = dialect.name → e.2 = dialect.name) →
      s.behaviour.isExcluded dialect.name = false →
      ((Provider.new s).complete d p request).1 =
        ((Provider.new s).complete (d.inLanguage dialect.name) p request).1 := by
  intro hsame
  have hread : (sheetTree? postcss ((Document.ofText "postcss" "m10").inLanguage "css") .css ⟨0, 3⟩).all
      (fun t => !sheetAccepts ((Document.ofText "postcss" "m10").inLanguage "css") (some t)
        (t.nodeAt ⟨0, 3⟩ true) .css ⟨0, 3⟩ (.between ⟨0, 0⟩ ⟨0, 3⟩)) = true := by
    rw [sheetTree?, if_neg (by decide)]
    simp only [Document.parse?, Cursor.parse, Sheet.parse_eq_parseLexemes]
    cbv
  have hfound : Abbreviation.extract? (.ofText "postcss" "m10") ⟨0, 3⟩ false =
      some ⟨"m10", .between ⟨0, 0⟩ ⟨0, 3⟩⟩ := by
    cbv
  have hexpand : Abbreviation.expand? "m10" .css (postcss.behaviour.expandOptions .css) = some "margin: 10px;" := by cbv
  let provider := Provider.new postcss
  have hallows : Allows provider.settings provider.last (.ofText "postcss" "m10") ⟨0, 3⟩ ⟨.invoked, none⟩ .css
      ⟨"m10", .between ⟨0, 0⟩ ⟨0, 3⟩⟩ ⟨.css, false, none⟩ :=
    (allows_included_iff (by decide) (by decide) (by decide) (by decide) (by decide) (by decide)).2
      ⟨rfl, rfl, by decide, hfound, by decide⟩
  have hanswer := complete_eq_some_iff.2 ⟨_, _, _, _, hallows, hexpand, rfl⟩
  have hown := hsame postcss (.ofText "postcss" "m10") .css ⟨0, 3⟩ ⟨.invoked, none⟩ (by decide) (by decide) (by decide)
    (by decide) (by decide) (by decide) (by decide) (by decide)
  rw [hanswer] at hown
  obtain ⟨-, x, tree, hx, htree, haccepts⟩ := (complete_own_iff (by decide) (by decide) (by decide) (by decide) (by decide)
    (by decide) (by decide) (by decide) _).1 hown.symm
  obtain rfl := Option.some_inj.1 (hfound.symm.trans hx)
  have haccepted : sheetAccepts ((Document.ofText "postcss" "m10").inLanguage "css") (some tree)
      (tree.nodeAt ⟨0, 3⟩ true) .css ⟨0, 3⟩ (.between ⟨0, 0⟩ ⟨0, 3⟩) = true :=
    haccepts
  have hrejected := (Option.all_eq_true _ _).1 hread tree htree
  simp [haccepted] at hrejected

end Provider
end AbbrevSite
