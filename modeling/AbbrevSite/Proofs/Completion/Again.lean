import AbbrevSite.Proofs.Abbreviation.Expansion
import AbbrevSite.Proofs.Completion.Markup
import AbbrevSite.Proofs.Sheet.Nodes

/-! Repeated requests. A request that is asked again right after its answer, for a list that was incomplete, is not
checked in the same way: a document of language `html` keeps to the family of the answer, and no other document is
read. The answer stays the same, since the family of an answer is that of its dialect, and since what a stylesheet
accepts for a markup dialect, it accepts unread. -/
namespace AbbrevSite

section Unread

variable {s : Settings} {d : Document} {p : Position} {own dialect : Dialect} {tree : Tree} {abbreviation : Span}

lemma isSheetKind_of_sheetTree? (hs : own.isStylesheet = true) (h : Provider.sheetTree? s d own p = some tree) :
    ∀ n ∈ tree.forest.preorder, Sheet.IsSheetKind n.kind := by
  unfold Provider.sheetTree? at h
  split_ifs at h
  · exact Sheet.isSheetKind_of_parse (Sheet.toOption_eq_some.1 h)
  · exact Sheet.isSheetKind_of_parse (Document.parse_of_parse? hs h)

lemma markupAccepts_sheetNode {found : Found} (h : Sheet.IsSheetKind found.node.kind) :
    markupAccepts d (some found) p abbreviation s = false := by
  obtain ⟨⟨id, kind, span⟩, parent, children⟩ := found
  cases kind with
  | rule | atRule | property => rfl
  | stylesheet | document | element | comment => exact h.elim

lemma acceptsAbbreviation_unread (hs : own.isStylesheet = true) (htree : Provider.sheetTree? s d own p = some tree)
    (hmarkup : dialect.isStylesheet = false)
    (h : acceptsAbbreviation d (some tree) (tree.nodeAt p true) dialect p abbreviation s = true) :
    acceptsAbbreviation d none none dialect p abbreviation s = true := by
  simp only [acceptsAbbreviation, hmarkup, Bool.false_eq_true, if_false] at h ⊢
  cases hfound : tree.nodeAt p true with
  | none => rwa [hfound] at h
  | some found =>
    have hnode := isSheetKind_of_sheetTree? hs htree _ (Tree.mem_of_nodeAt hfound)
    rw [hfound, markupAccepts_sheetNode hnode] at h
    cases h

end Unread

namespace Provider

variable {s : Settings} {provider : Provider} {d : Document} {p : Position} {dialect : Dialect}
  {last last' : Option Family} {request request' : Request} {list : CompletionList} {x : Abbreviation.Extracted}
  {k : Setting}

lemma setting_other (hlang : d.languageId ≠ "html") : setting d dialect last request p =
    ⟨dialect, dialect == .html || dialect == .jsx || dialect == .xml, none⟩ := by
  rw [setting, if_neg hlang]

lemma Allows.again_other (hlang : d.languageId ≠ "html") (hreq : request'.trigger = .incomplete)
    (h : Allows s last d p request dialect x k) :
    ∃ k', Allows s last' d p request' dialect x k' ∧ k'.dialect = k.dialect := by
  obtain ⟨hex, hdialect, hshown, hx, hv, hread, hadmits, hmember⟩ := h
  have hsame : setting d dialect last' request' p = setting d dialect last request p :=
    (setting_other hlang).trans (setting_other hlang).symm
  have hk := settingRead?_dialect hread
  refine ⟨setting d dialect last request p, ⟨hex, hdialect, hshown, ?_, ?_, ?_, ?_, ?_⟩, hk.symm⟩
  · rwa [hsame]
  · rwa [hsame]
  · rw [hsame]
    simp only [settingRead?, if_pos hreq]
  · -- what was read for the first answer is no longer needed
    unfold settingRead? at hread
    split at hread
    · rename_i own hown
      obtain ⟨tree, htree, rfl⟩ := Option.map_eq_some_iff.1 hread
      have hs : own.isStylesheet = true := by
        rw [Option.ite_none_left_eq_some] at hown
        exact (Option.filter_eq_some_iff.1 hown.2).2
      rw [setting_other hlang] at hadmits ⊢
      simp only [Setting.admits, Bool.not_true, Bool.false_or, Option.bind_some, Option.bind_none] at hadmits ⊢
      cases hchecked : (dialect == .html || dialect == .jsx || dialect == .xml) with
      | false => rfl
      | true =>
        have hmarkup : dialect.isStylesheet = false := by
          revert hchecked
          cases dialect <;> decide
        exact acceptsAbbreviation_unread hs htree hmarkup hadmits
    · cases hread
      exact hadmits
  · rwa [← hk]

lemma htmlSetting_dialect (d : Document) (dialect : Dialect) (p : Position) :
    (htmlSetting d dialect p).dialect = .css ∨ (htmlSetting d dialect p).dialect = dialect := by
  unfold htmlSetting
  dsimp only
  split_ifs
  · exact .inl rfl
  · split
    · exact .inl rfl
    · exact .inr rfl

lemma setting_again (hlang : d.languageId = "html") (hreq : request'.trigger = .incomplete)
    (hfamily : last' = some .markup ↔ (htmlSetting d .html p).dialect.isMarkup = true) :
    (setting d .html last' request' p).dialect = (htmlSetting d .html p).dialect ∧
      ((setting d .html last' request' p).checked = false ∨
        setting d .html last' request' p = htmlSetting d .html p) := by
  simp only [setting, if_pos hlang, if_pos hreq]
  cases last' with
  | none => exact ⟨rfl, .inr rfl⟩
  | some family =>
    refine ⟨?_, .inl (by cases family <;> rfl)⟩
    rcases htmlSetting_dialect d .html p with hdialect | hdialect <;> rw [hdialect] at hfamily ⊢
    · cases family with
      | markup => exact absurd (hfamily.1 rfl) (by decide)
      | stylesheet => rfl
    · cases family with
      | markup => rfl
      | stylesheet => exact absurd (hfamily.2 rfl) (by decide)

lemma Allows.again_html (hlang : d.languageId = "html") (hmap : ∀ e ∈ s.behaviour.includeLanguages, e.1 ≠ "html")
    (hreq : request.trigger ≠ .incomplete) (hreq' : request'.trigger = .incomplete)
    (h : Allows s last d p request dialect x k) (hfamily : last' = some .markup ↔ k.dialect.isMarkup = true) :
    ∃ k', Allows s last' d p request' dialect x k' ∧ k'.dialect = k.dialect := by
  obtain ⟨rfl, rfl, hex, hshown, hx, hv, hadmits⟩ := (allows_html_iff hlang hmap).1 h
  rw [setting_html hlang hreq] at hx hv hadmits hfamily ⊢
  obtain ⟨hdialect, hunchecked⟩ := setting_again hlang hreq' hfamily
  refine ⟨_, (allows_html_iff hlang hmap).2 ⟨rfl, rfl, hex, hshown, ?_, ?_, ?_⟩, hdialect⟩
  · rwa [hdialect]
  · rwa [hdialect]
  · rcases hunchecked with hunchecked | hsame
    · rw [Setting.admits, hunchecked]
      rfl
    · rwa [hsame]

/-- The family of an answer, told from what its first completion shows. -/
def familyOf? (answer : Option CompletionList) : Option Family :=
  (answer.bind fun list => list.items.head?.bind (·.documentation)).bind Family.ofExpansion?

lemma complete_snd (provider : Provider) (d : Document) (p : Position) (request : Request) :
    (provider.complete d p request).2 = ⟨provider.settings, familyOf? (provider.complete d p request).1⟩ := rfl

/-- An answer is given again when its request is repeated right after it, and the family that is remembered stays. -/
theorem complete_again (hmap : ∀ e ∈ provider.settings.behaviour.includeLanguages, e.1 ≠ "html")
    (hreq : request.trigger ≠ .incomplete) (h : (provider.complete d p request).1 = some list) :
    (provider.complete d p request).2.complete d p ⟨.incomplete, request.input⟩ =
      (some list, (provider.complete d p request).2) := by
  obtain ⟨dialect, x, k, snippet, hallows, hexpand, hlist⟩ := complete_eq_some_iff.1 h
  rw [complete_snd, h]
  have hfamily : familyOf? (some list) = some .markup ↔ k.dialect.isMarkup = true := by
    have hv := hallows.valid
    rw [← settingRead?_dialect hallows.read] at hv
    rw [hlist]
    exact Abbreviation.ofExpansion?_preview_iff hv hexpand
  obtain ⟨k', hallows', hk⟩ : ∃ k', Allows provider.settings (familyOf? (some list)) d p
      ⟨.incomplete, request.input⟩ dialect x k' ∧ k'.dialect = k.dialect := by
    by_cases hlang : d.languageId = "html"
    · exact hallows.again_html hlang hmap hreq rfl hfamily
    · exact hallows.again_other hlang rfl
  rw [← hk] at hexpand
  have hagain : ((⟨provider.settings, familyOf? (some list)⟩ : Provider).complete d p
      ⟨.incomplete, request.input⟩).1 = some list :=
    complete_eq_some_iff.2 ⟨dialect, x, k', snippet, hallows', hexpand, hlist⟩
  refine Prod.ext hagain ?_
  rw [complete_snd, hagain]

/-- In `<p style="#f|">` the colour is completed, whose family is not remembered, and completed again. -/
theorem complete_again_in_style_attribute :
    let d := Document.ofText "html" "<p style=\"#f\">"
    let provider := Provider.new .standard
    let list : CompletionList := ⟨[⟨"#f", some "#ffffff", some "Emmet Abbreviation", .snippet,
      .between ⟨0, 10⟩ ⟨0, 12⟩, "#ffffff", none, some "f", none⟩], true⟩
    (provider.complete d ⟨0, 12⟩ ⟨.invoked, some "f"⟩).1 = some list ∧
      (provider.complete d ⟨0, 12⟩ ⟨.invoked, some "f"⟩).2.last = none ∧
      (provider.complete d ⟨0, 12⟩ ⟨.invoked, some "f"⟩).2.complete d ⟨0, 12⟩ ⟨.incomplete, some "f"⟩ =
        (some list, (provider.complete d ⟨0, 12⟩ ⟨.invoked, some "f"⟩).2) := by
  intro d provider list
  have hsetting : htmlSetting (.ofText "html" "<p style=\"#f\">") .html ⟨0, 12⟩ = ⟨.css, false, none⟩ := by cbv
  have hfound : Abbreviation.extract? (.ofText "html" "<p style=\"#f\">") ⟨0, 12⟩ false =
      some ⟨"#f", .between ⟨0, 10⟩ ⟨0, 12⟩⟩ := by
    cbv
  have hexpand : Abbreviation.expand? "#f" .css (Behaviour.standard.expandOptions .css) = some "#ffffff" := by cbv
  have hshown : Abbreviation.preview "#ffffff" = "#ffffff" := by cbv
  have hallows : Allows provider.settings provider.last d ⟨0, 12⟩ ⟨.invoked, some "f"⟩ .html
      ⟨"#f", .between ⟨0, 10⟩ ⟨0, 12⟩⟩ ⟨.css, false, none⟩ :=
    (allows_html_iff rfl (by decide)).2 ⟨rfl, hsetting.symm, by decide, by decide, hfound, by decide, rfl⟩
  have hlist : (provider.complete d ⟨0, 12⟩ ⟨.invoked, some "f"⟩).1 = some list := by
    refine complete_eq_some_iff.2 ⟨_, _, _, _, hallows, hexpand, ?_⟩
    show list = ⟨[⟨_, some (Abbreviation.preview "#ffffff"), _, _, _, _, _, _, _⟩], true⟩
    rw [hshown]
    rfl
  refine ⟨hlist, ?_, complete_again (by decide) (by decide) hlist⟩
  rw [complete_snd, hlist]
  decide

end Provider
end AbbrevSite
