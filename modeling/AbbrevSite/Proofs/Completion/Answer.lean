import AbbrevSite.Completion
import AbbrevSite.Proofs.Abbreviation.Extract
import AbbrevSite.Proofs.Sheet.Scan
import Mathlib

/-! Answers of any provider to any request. An answer holds one completion; what it replaces is the abbreviation at
the position, the one that was checked there, and what it puts in its place is the expansion of that abbreviation. -/
namespace AbbrevSite

open Abbreviation (Extracted)

namespace Abbreviation

variable {d : Document} {p : Position} {dialect : Dialect} {o : ExpandOptions} {x : Extracted}

def Extracted.offer (x : Extracted) (snippet : String) : Offer :=
  ⟨x.text, some (preview snippet), some "Emmet Abbreviation", x.span, snippet, none, some x.text⟩

lemma offers_eq (h : extract? d p dialect.isMarkup = some x) (hv : isValid dialect x.text = true) :
    offers d p dialect o = ((expand? x.text dialect o).map x.offer).toList := by
  simp only [offers, h, hv, if_true]
  cases expand? x.text dialect o <;> rfl

end Abbreviation

namespace Provider

variable {s : Settings} {d : Document} {p : Position} {dialect : Dialect} {last : Option Family}
  {request : Request} {list : CompletionList} {x : Extracted} {k : Setting}

/-- The setting in which a location is checked: a document that is a stylesheet by its language is read for it,
unless the request is repeated. -/
def settingRead? (s : Settings) (d : Document) (p : Position) (request : Request) (k : Setting) : Option Setting :=
  match if request.trigger = .incomplete then none else ownSheetDialect? d with
  | some own => (sheetTree? s d own p).map fun tree => { k with checked := true, tree := some tree }
  | none => some k

/-- Whether an abbreviation may stand at a position, or the setting leaves that unchecked. -/
def Setting.admits (s : Settings) (d : Document) (p : Position) (k : Setting) (abbreviation : Span) : Bool :=
  !k.checked || acceptsAbbreviation d k.tree (k.tree.bind (·.nodeAt p true)) k.dialect p abbreviation s

/-- Everything a request is asked before there are offers: the settings allow them in the language, the position has
a valid abbreviation, which may stand there, and it is no access to a member. -/
structure Allows (s : Settings) (last : Option Family) (d : Document) (p : Position) (request : Request)
    (dialect : Dialect) (x : Extracted) (k : Setting) : Prop where
  notExcluded : s.behaviour.isExcluded d.languageId = false
  dialectOf : s.behaviour.dialectOf? d.languageId = some dialect
  shown : s.behaviour.showExpanded ≠ .never
  extracted : Abbreviation.extract? d p (setting d dialect last request p).dialect.isMarkup = some x
  valid : Abbreviation.isValid (setting d dialect last request p).dialect x.text = true
  read : settingRead? s d p request (setting d dialect last request p) = some k
  admitted : k.admits s d p x.span = true
  notMember : (k.dialect.isMarkup && scriptLanguages.contains d.languageId
    && "this.".toList.isPrefixOf x.text.toList) = false

lemma settingRead?_dialect {k' : Setting} (h : settingRead? s d p request k = some k') : k'.dialect = k.dialect := by
  unfold settingRead? at h
  split at h
  · obtain ⟨tree, -, rfl⟩ := Option.map_eq_some_iff.1 h
    rfl
  · cases h
    rfl

/-- When there are offers for a request, perhaps none. -/
theorem completions?_eq_some_iff : completions? s last d p request = some list ↔
    ∃ dialect x k, Allows s last d p request dialect x k ∧
      list = ⟨(Abbreviation.offers d p k.dialect (s.behaviour.expandOptions k.dialect)).map
        (item s.behaviour request), true⟩ := by
  have hread : completions? s last d p request = (do
      guard (!s.behaviour.isExcluded d.languageId)
      let dialect ← s.behaviour.dialectOf? d.languageId
      guard (s.behaviour.showExpanded != .never)
      let x ← Abbreviation.extract? d p (setting d dialect last request p).dialect.isMarkup
      guard (Abbreviation.isValid (setting d dialect last request p).dialect x.text)
      let k ← settingRead? s d p request (setting d dialect last request p)
      guard (k.admits s d p x.span)
      guard !(k.dialect.isMarkup && scriptLanguages.contains d.languageId
        && "this.".toList.isPrefixOf x.text.toList)
      some ⟨(Abbreviation.offers d p k.dialect (s.behaviour.expandOptions k.dialect)).map
        (item s.behaviour request), true⟩) := by
    unfold completions? settingRead?
    cases if request.trigger = .incomplete then none else ownSheetDialect? d with
    | none => rfl
    | some own =>
      simp only [Option.bind_eq_bind, Option.map_eq_bind, Option.bind_assoc, Function.comp_apply, Option.bind_some]
      rfl
  rw [hread]
  simp only [Option.bind_eq_bind, Option.bind_eq_some_iff, Option.guard_eq_some', exists_const]
  constructor
  · rintro ⟨hex, dialect, hdialect, hshown, x, hx, hv, k, hk, hadmits, hmember, hlist⟩
    refine ⟨dialect, x, k, ⟨by simpa using hex, hdialect, by simpa using hshown, hx, hv, hk, hadmits, ?_⟩,
      (Option.some_inj.1 hlist).symm⟩
    simpa only [Bool.not_eq_true'] using hmember
  · rintro ⟨dialect, x, k, h, rfl⟩
    refine ⟨by simpa using h.notExcluded, dialect, h.dialectOf, by simpa using h.shown, x, h.extracted, h.valid, k,
      h.read, h.admitted, ?_, rfl⟩
    simpa only [Bool.not_eq_true'] using h.notMember

/-- The dialect a request is answered in: that of the language, or `css` where a stylesheet stands in `html`. -/
def dialect? (provider : Provider) (d : Document) (p : Position) (request : Request) : Option Dialect :=
  (provider.settings.behaviour.dialectOf? d.languageId).map fun dialect =>
    (setting d dialect provider.last request p).dialect

/-- The tree that the location is checked against in a document that is a stylesheet by its language: that of the
region around the position if the document is large, else its own. -/
def checkedTree? (s : Settings) (d : Document) (own : Dialect) (p : Position) : Option Tree :=
  if s.behaviour.optimizeParsing = true ∧ s.limits.partialParseLines < d.lineCount then d.parseAround? s.limits p
  else d.parse? own

/-- A completion that puts the expansion of an abbreviation in the place of the abbreviation, which stands on the
line of a position, around it or up to it. -/
structure Replaces (s : Settings) (d : Document) (p : Position) (dialect : Dialect) (item : Completion) : Prop where
  start_line : item.span.start.line = p.line
  stop_line : item.span.stop.line = p.line
  start_le : item.span.start.column ≤ min p.column (d.lineLength p.line)
  le_stop : min p.column (d.lineLength p.line) ≤ item.span.stop.column
  label_ne : item.label ≠ ""
  label_eq : item.label = d.textOf item.span
  valid : Abbreviation.isValid dialect item.label = true
  expanded : Abbreviation.expand? item.label dialect (s.behaviour.expandOptions dialect) = some item.newText

lemma sheetTree?_eq (s : Settings) (d : Document) (own : Dialect) (p : Position) :
    sheetTree? s d own p = checkedTree? s d own p := by
  simp only [sheetTree?, checkedTree?, readsRegion, Bool.and_eq_true, decide_eq_true_eq]

/-- An answer is the completion for the abbreviation that was checked. -/
theorem complete_eq_some_iff {provider : Provider} : (provider.complete d p request).1 = some list ↔
    ∃ dialect x k snippet, Allows provider.settings provider.last d p request dialect x k ∧
      Abbreviation.expand? x.text k.dialect (provider.settings.behaviour.expandOptions k.dialect) = some snippet ∧
      list = ⟨[item provider.settings.behaviour request (x.offer snippet)], true⟩ := by
  have hcomplete : (provider.complete d p request).1 =
      (completions? provider.settings provider.last d p request).filter fun l => !l.items.isEmpty := rfl
  rw [hcomplete, Option.filter_eq_some_iff, completions?_eq_some_iff]
  constructor
  · rintro ⟨⟨dialect, x, k, h, rfl⟩, hne⟩
    have hx := h.extracted
    have hv := h.valid
    rw [← settingRead?_dialect h.read] at hx hv
    rw [Abbreviation.offers_eq hx hv] at hne ⊢
    cases he : Abbreviation.expand? x.text k.dialect (provider.settings.behaviour.expandOptions k.dialect) with
    | none => simp [he] at hne
    | some snippet => exact ⟨dialect, x, k, snippet, h, he, rfl⟩
  · rintro ⟨dialect, x, k, snippet, h, he, rfl⟩
    have hx := h.extracted
    have hv := h.valid
    rw [← settingRead?_dialect h.read] at hx hv
    refine ⟨⟨dialect, x, k, h, ?_⟩, rfl⟩
    rw [Abbreviation.offers_eq hx hv, he]
    rfl

/-- An answer holds one completion. It replaces the abbreviation at the position by the expansion of that text, which
is valid; and in a document that is a stylesheet by its language, unless the request is repeated, the very stretch it
replaces was accepted at the position, in the tree of the region around it or of the whole document. -/
theorem complete_replaces {provider : Provider} (h : (provider.complete d p request).1 = some list) :
    ∃ dialect item, provider.dialect? d p request = some dialect ∧ list.items = [item] ∧
      Replaces provider.settings d p dialect item ∧
      ∀ own, Dialect.ofName? d.languageId = some own → own.isStylesheet = true → request.trigger ≠ .incomplete →
        ∃ tree, checkedTree? provider.settings d own p = some tree ∧
          acceptsAbbreviation d (some tree) (tree.nodeAt p true) dialect p item.span provider.settings = true := by
  obtain ⟨dialect, x, k, snippet, hallows, he, rfl⟩ := complete_eq_some_iff.1 h
  have hdialect := settingRead?_dialect hallows.read
  have hv := hallows.valid
  rw [← hdialect] at hv
  obtain ⟨a, b, ha, hb, -, hab, hspan, -⟩ := Abbreviation.extract?_eq_some hallows.extracted
  obtain ⟨hne, htext⟩ := Abbreviation.extract?_text hallows.extracted
  have hle : (⟨p.line, a⟩ : Position) ≤ ⟨p.line, b⟩ := .inr ⟨rfl, le_of_lt hab⟩
  rw [Span.between_of_le hle] at hspan
  refine ⟨k.dialect, item provider.settings.behaviour request (x.offer snippet), ?_, rfl, ?_, ?_⟩
  · rw [dialect?, hallows.dialectOf, Option.map_some, hdialect]
  · have hx : (item provider.settings.behaviour request (x.offer snippet)).span = x.span := rfl
    refine ⟨?_, ?_, ?_, ?_, hne, ?_, hv, he⟩
    · rw [hx, hspan]
    · rw [hx, hspan]
    · rw [hx, hspan]
      exact ha
    · rw [hx, hspan]
      exact hb
    · exact String.toList_inj.1 (htext.trans String.toList_ofList.symm)
  · intro own hown hsheet hreq
    have hread := hallows.read
    have hownSheet : ownSheetDialect? d = some own := by
      rw [ownSheetDialect?, hown, Option.filter_some, if_pos hsheet]
    simp only [settingRead?, if_neg hreq, hownSheet] at hread
    obtain ⟨tree, htree, rfl⟩ := Option.map_eq_some_iff.1 hread
    have hadmitted := hallows.admitted
    simp only [Setting.admits, Bool.not_true, Bool.false_or, Option.bind_some] at hadmitted
    exact ⟨tree, (sheetTree?_eq _ _ _ _).symm.trans htree, hadmitted⟩

/-- In `b\x7b\x7d a\x7b m10|\x7d`, of which only the region `a\x7b m10\x7d` is read, `m10` is checked there and replaced. -/
theorem complete_replaces_in_region :
    let d := Document.ofText "css" "b\x7b\x7d a\x7b m10\x7d"
    let provider := Provider.new ⟨.standard, ⟨0, 100, 5000, 500⟩⟩
    let list : CompletionList := ⟨[⟨"m10", some "margin: 10px;", some "Emmet Abbreviation", .snippet,
      .between ⟨0, 7⟩ ⟨0, 10⟩, "margin: 10px;", none, some "m10", none⟩], true⟩
    (provider.complete d ⟨0, 10⟩ ⟨.invoked, none⟩).1 = some list ∧
        ∃ dialect item, provider.dialect? d ⟨0, 10⟩ ⟨.invoked, none⟩ = some dialect ∧ list.items = [item] ∧
        Replaces provider.settings d ⟨0, 10⟩ dialect item ∧
        ∀ own, Dialect.ofName? d.languageId = some own → own.isStylesheet = true → Trigger.invoked ≠ .incomplete →
          ∃ tree, checkedTree? provider.settings d own ⟨0, 10⟩ = some tree ∧ acceptsAbbreviation d (some tree)
            (tree.nodeAt ⟨0, 10⟩ true) dialect ⟨0, 10⟩ item.span provider.settings = true := by
  intro d provider list
  have hread : (sheetTree? ⟨.standard, ⟨0, 100, 5000, 500⟩⟩ (.ofText "css" "b\x7b\x7d a\x7b m10\x7d") .css
      ⟨0, 10⟩).any (fun t => acceptsAbbreviation (.ofText "css" "b\x7b\x7d a\x7b m10\x7d") (some t)
        (t.nodeAt ⟨0, 10⟩ true) .css ⟨0, 10⟩ (.between ⟨0, 7⟩ ⟨0, 10⟩) ⟨.standard, ⟨0, 100, 5000, 500⟩⟩) = true := by
    rw [sheetTree?, if_pos (by decide)]
    simp only [Document.parseAround?, Sheet.parse_eq_parseLexemes]
    cbv
  have hfound : Abbreviation.extract? (.ofText "css" "b\x7b\x7d a\x7b m10\x7d") ⟨0, 10⟩ false =
      some ⟨"m10", .between ⟨0, 7⟩ ⟨0, 10⟩⟩ := by
    cbv
  have hexpand : Abbreviation.expand? "m10" .css (Behaviour.standard.expandOptions .css) = some "margin: 10px;" := by
    cbv
  have hshown : Abbreviation.preview "margin: 10px;" = "margin: 10px;" := by cbv
  obtain ⟨tree, htree, haccepts⟩ := (Option.any_eq_true _ _).1 hread
  have hlist : (provider.complete d ⟨0, 10⟩ ⟨.invoked, none⟩).1 = some list := by
    refine complete_eq_some_iff.2 ⟨.css, ⟨"m10", .between ⟨0, 7⟩ ⟨0, 10⟩⟩, ⟨.css, true, some tree⟩, "margin: 10px;",
      ⟨by decide, by decide, by decide, hfound, by decide, ?_, haccepts, rfl⟩, hexpand, ?_⟩
    · exact congrArg (Option.map _) htree
    · show list = ⟨[⟨_, some (Abbreviation.preview "margin: 10px;"), _, _, _, _, _, _, _⟩], true⟩
      rw [hshown]
      rfl
  exact ⟨hlist, complete_replaces hlist⟩
end Provider
end AbbrevSite
