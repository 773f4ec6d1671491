import AbbrevSite.Proofs.Completion.Markup
import AbbrevSite.Proofs.Abbreviation.Expansion
import Mathlib

/-! The body of a `style` element. Strictly inside it, the completions are those of a stylesheet as long as the body
can be read as one. At its two ends, and in a body that cannot be read, the position belongs to the markup around. -/
namespace AbbrevSite

namespace Abbreviation

variable {text snippet : String} {dialect : Dialect} {o : ExpandOptions}

lemma expand?_head_iff (hv : isValid dialect text = true) (h : expand? text dialect o = some snippet) :
    snippet.toList.head? = some '<' ↔ dialect.isMarkup = true := by
  rw [Dialect.isMarkup, Bool.not_eq_true']
  unfold isValid at hv
  unfold expand? at h
  cases hs : dialect.isStylesheet with
  | false =>
    rw [hs, if_neg Bool.false_ne_true] at h
    exact iff_of_true (expandMarkup?_head h) rfl
  | true =>
    rw [hs, if_pos rfl] at h hv
    obtain ⟨c, hhead, hbracket, -⟩ := isValidSheet_head (Sheet.expand?_valid hv h)
    rw [hhead, Option.some_inj]
    exact iff_of_false hbracket (by decide)

end Abbreviation

lemma Document.embeddedSheet?_of_style {d : Document} {found : Found} {inner : Span} {p : Position}
    (hstyle : found.node.kind.isElementNamed "style" = true) (hinner : found.node.kind.innerSpan? = some inner) :
    d.embeddedSheet? (some found) p =
      if inner.encloses p then (Sheet.parse (.within d inner.start inner) .css).toOption else none := by
  simp only [embeddedSheet?, Option.bind_eq_bind, Option.bind_some, hstyle, hinner]
  cases inner.encloses p <;> rfl

namespace Provider

variable {provider : Provider} {d : Document} {p : Position} {request : Request} {t : Tree} {found : Found}
  {inner : Span}

lemma htmlSetting_isMarkup_iff (ht : d.parse? .html = some t) (hfound : t.nodeAt p true = some found)
    (hstyle : found.node.kind.isElementNamed "style" = true) (hinner : found.node.kind.innerSpan? = some inner) :
    (htmlSetting d .html p).dialect.isMarkup = true ↔
      inStyleAttribute (some found) p = false ∧
        (inner.encloses p = true → ∃ failure, Sheet.parse (.within d inner.start inner) .css = .error failure) := by
  have hbind : (some t).bind (·.nodeAt p true) = some found := hfound
  simp only [htmlSetting, ht, hbind, Document.embeddedSheet?_of_style hstyle hinner]
  cases inStyleAttribute (some found) p with
  | true => exact iff_of_false Bool.false_ne_true fun h => Bool.false_ne_true h.1.symm
  | false =>
    cases inner.encloses p with
    | false => exact iff_of_true rfl ⟨rfl, fun h => absurd h Bool.false_ne_true⟩
    | true =>
      cases Sheet.parse (.within d inner.start inner) .css with
      | ok sheet =>
        refine iff_of_false Bool.false_ne_true ?_
        rintro ⟨-, h⟩
        obtain ⟨failure, hfailure⟩ := h rfl
        cases hfailure
      | error failure => exact iff_of_true rfl ⟨rfl, fun _ => ⟨failure, rfl⟩⟩

/-- Where the lookup ends at a closed `style` element, a completion is one of markup, which starts with a bracket,
if the position is not in the value of the `style` attribute of the element, and either is not strictly inside the
body or the body cannot be read as a stylesheet. Any other completion is one of a stylesheet. -/
theorem complete_in_style_body (hlang : d.languageId = "html")
    (hmap : ∀ e ∈ provider.settings.behaviour.includeLanguages, e.1 ≠ "html")
    (hreq : request.trigger ≠ .incomplete) (ht : d.parse? .html = some t) (hfound : t.nodeAt p true = some found)
    (hstyle : found.node.kind.isElementNamed "style" = true) (hinner : found.node.kind.innerSpan? = some inner) :
    ∀ list, (provider.complete d p request).1 = some list → ∀ item ∈ list.items,
      (item.newText.toList.head? = some '<' ↔ inStyleAttribute (some found) p = false ∧
        (inner.encloses p = true → ∃ failure, Sheet.parse (.within d inner.start inner) .css = .error failure)) := by
  intro list hlist item hitem
  obtain ⟨dialect, x, k, snippet, hallows, hexpand, rfl⟩ := complete_eq_some_iff.1 hlist
  obtain ⟨rfl, rfl, -, -, -, hv, -⟩ := (allows_html_iff hlang hmap).1 hallows
  obtain rfl := List.mem_singleton.1 hitem
  have hset : setting d .html provider.last request p = htmlSetting d .html p := setting_html hlang hreq
  rw [← htmlSetting_isMarkup_iff ht hfound hstyle hinner, ← hset]
  exact Abbreviation.expand?_head_iff hv hexpand

lemma complete_standard_html {dialect : Dialect} {x : Abbreviation.Extracted} {snippet : String}
    (hlang : d.languageId = "html") (hreq : request.trigger ≠ .incomplete)
    (hset : (htmlSetting d .html p).dialect = dialect) (hx : Abbreviation.extract? d p dialect.isMarkup = some x)
    (hv : Abbreviation.isValid dialect x.text = true)
    (hadmits : (htmlSetting d .html p).admits .standard d p x.span = true)
    (hexpand : Abbreviation.expand? x.text dialect (Behaviour.standard.expandOptions dialect) = some snippet) :
    ((Provider.new .standard).complete d p request).1 =
      some ⟨[item .standard request (x.offer snippet)], true⟩ := by
  subst hset
  have hkept : setting d .html none request p = htmlSetting d .html p := setting_html hlang hreq
  have hallows : Allows .standard none d p request .html x (htmlSetting d .html p) :=
    (allows_html_iff hlang (by decide)).2 ⟨rfl, hkept.symm, by decide, by decide, hx, hv, hadmits⟩
  exact complete_eq_some_iff.2 ⟨_, x, _, snippet, hallows, hexpand, rfl⟩

/-- In `<style>a{ m10|}</style>` the completion is a declaration. -/
theorem complete_in_style_body_of_rule :
    let d := Document.ofText "html" "<style>a\x7b m10\x7d</style>"
    let provider := Provider.new .standard
    ∃ t found inner list, d.parse? .html = some t ∧ t.nodeAt ⟨0, 13⟩ true = some found ∧
      found.node.kind.isElementNamed "style" = true ∧ found.node.kind.innerSpan? = some inner ∧
      inner.encloses ⟨0, 13⟩ = true ∧ (provider.complete d ⟨0, 13⟩ ⟨.invoked, none⟩).1 = some list ∧
      list.items.map (·.newText) = ["margin: 10px;"] ∧ ∀ item ∈ list.items,
        (item.newText.toList.head? = some '<' ↔ inStyleAttribute (some found) ⟨0, 13⟩ = false ∧
          (inner.encloses ⟨0, 13⟩ = true →
            ∃ failure, Sheet.parse (.within d inner.start inner) .css = .error failure)) := by
  intro d provider
  have hread : ((Document.ofText "html" "<style>a\x7b m10\x7d</style>").parse? .html).any (fun t =>
      (t.nodeAt ⟨0, 13⟩ true).any fun found => found.node.kind.isElementNamed "style" &&
        found.node.kind.innerSpan?.any fun inner => inner.encloses ⟨0, 13⟩) = true := by
    cbv
  have hset : (htmlSetting (.ofText "html" "<style>a\x7b m10\x7d</style>") .html ⟨0, 13⟩).dialect = .css := by
    simp only [htmlSetting, Document.embeddedSheet?, Sheet.parse_eq_parseLexemes]
    cbv
  have hadmits : (htmlSetting (.ofText "html" "<style>a\x7b m10\x7d</style>") .html ⟨0, 13⟩).admits .standard
      (.ofText "html" "<style>a\x7b m10\x7d</style>") ⟨0, 13⟩ (.between ⟨0, 10⟩ ⟨0, 13⟩) = true := by
    simp only [htmlSetting, Document.embeddedSheet?, Sheet.parse_eq_parseLexemes]
    cbv
  have hx : Abbreviation.extract? (.ofText "html" "<style>a\x7b m10\x7d</style>") ⟨0, 13⟩ false =
      some ⟨"m10", .between ⟨0, 10⟩ ⟨0, 13⟩⟩ := by
    cbv
  have hexpand : Abbreviation.expand? "m10" .css (Behaviour.standard.expandOptions .css) =
      some "margin: 10px;" := by
    cbv
  simp only [Option.any_eq_true, Bool.and_eq_true] at hread
  obtain ⟨t, ht, found, hfound, hstyle, inner, hinner, hp⟩ := hread
  have hlist : ((Provider.new .standard).complete (.ofText "html" "<style>a\x7b m10\x7d</style>") ⟨0, 13⟩
      ⟨.invoked, none⟩).1 = some ⟨[item .standard ⟨.invoked, none⟩
        ((⟨"m10", .between ⟨0, 10⟩ ⟨0, 13⟩⟩ : Abbreviation.Extracted).offer "margin: 10px;")], true⟩ :=
    complete_standard_html rfl (by decide) hset hx (by decide) hadmits hexpand
  exact ⟨t, found, inner, _, ht, hfound, hstyle, hinner, hp, hlist, rfl,
    complete_in_style_body rfl (by decide) (by decide) ht hfound hstyle hinner _ hlist⟩

/-- Not every completion in the body of a `style` element is one of a stylesheet: the body of `<style>} ul| </style>`
cannot be read, and `ul` is completed as markup. -/
theorem not_forall_complete_in_style_body :
    ¬ ∀ (provider : Provider) (d : Document) (p : Position) (request : Request) (t : Tree) (found : Found)
      (inner : Span), d.languageId = "html" → (∀ e ∈ provider.settings.behaviour.includeLanguages, e.1 ≠ "html") →
      request.trigger ≠ .incomplete → d.parse? .html = some t → t.nodeAt p true = some found →
      found.node.kind.isElementNamed "style" = true → found.node.kind.innerSpan? = some inner →
      inner.contains p = true → ∀ list, (provider.complete d p request).1 = some list →
      ∀ item ∈ list.items, item.newText.toList.head? ≠ some '<' := by
  intro hsheet
  have hread : ((Document.ofText "html" "<style>\x7d ul </style>").parse? .html).any (fun t =>
      (t.nodeAt ⟨0, 11⟩ true).any fun found => found.node.kind.isElementNamed "style" &&
        found.node.kind.innerSpan?.any fun inner => inner.contains ⟨0, 11⟩) = true := by
    cbv
  have hset : (htmlSetting (.ofText "html" "<style>\x7d ul </style>") .html ⟨0, 11⟩).dialect = .html := by
    simp only [htmlSetting, Document.embeddedSheet?, Sheet.parse_eq_parseLexemes]
    cbv
  have hadmits : (htmlSetting (.ofText "html" "<style>\x7d ul </style>") .html ⟨0, 11⟩).admits .standard
      (.ofText "html" "<style>\x7d ul </style>") ⟨0, 11⟩ (.between ⟨0, 9⟩ ⟨0, 11⟩) = true := by
    simp only [htmlSetting, Document.embeddedSheet?, Sheet.parse_eq_parseLexemes]
    cbv
  have hx : Abbreviation.extract? (.ofText "html" "<style>\x7d ul </style>") ⟨0, 11⟩ true =
      some ⟨"ul", .between ⟨0, 9⟩ ⟨0, 11⟩⟩ := by
    cbv
  have hlevels : Abbreviation.levels? "ul".toList = some [[.named ['u', 'l']]] := by cbv
  have hexpand : Abbreviation.expand? "ul" .html (Behaviour.standard.expandOptions .html) =
      some "<ul>$\x7b1\x7d</ul>" := by
    rw [Abbreviation.expand?, if_neg (by decide), Abbreviation.expandMarkup?_eq, if_neg (by decide), hlevels]
    dsimp only
    rw [if_pos (by decide)]
    cbv
  simp only [Option.any_eq_true, Bool.and_eq_true] at hread
  obtain ⟨t, ht, found, hfound, hstyle, inner, hinner, hp⟩ := hread
  have hlist : ((Provider.new .standard).complete (.ofText "html" "<style>\x7d ul </style>") ⟨0, 11⟩
      ⟨.invoked, none⟩).1 = some ⟨[item .standard ⟨.invoked, none⟩
        ((⟨"ul", .between ⟨0, 9⟩ ⟨0, 11⟩⟩ : Abbreviation.Extracted).offer "<ul>$\x7b1\x7d</ul>")], true⟩ :=
    complete_standard_html rfl (by decide) hset hx (by decide) hadmits hexpand
  exact hsheet (.new .standard) _ ⟨0, 11⟩ ⟨.invoked, none⟩ t found inner rfl (by decide) (by decide) ht hfound hstyle
    hinner hp _ hlist _ (List.mem_singleton_self _) (by decide)

end Provider
end AbbrevSite
