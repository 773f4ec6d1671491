import AbbrevSite.Proofs.Abbreviation.Expansion
import AbbrevSite.Proofs.Completion.Sheet
import AbbrevSite.Proofs.Sheet.Cover
import AbbrevSite.Proofs.Sheet.Nodes
import AbbrevSite.Proofs.Tree.Descent

/-! Completions in the value of a declaration. A lookup there ends at the declaration, which takes nothing but
colours and the important mark; and what these expand to is a colour or the important mark again. -/
namespace AbbrevSite

open Document

/-- Whether a position is in the value of a declaration: behind its colon and not behind the place where the token
that ends the declaration starts, or where the declaration ends without one. -/
def Node.hasValueAt (n : Node) (p : Position) : Bool :=
  match n.kind with
  | .property _ (some separator) _ terminator =>
    separator.span.stop ≤ p && p ≤ (terminator.map (·.span.start)).getD n.span.stop
  | _ => false

lemma Node.of_hasValueAt {n : Node} {p : Position} (h : n.hasValueAt p = true) :
    ∃ name separator value terminator, n.kind = .property name (some separator) value terminator ∧
      separator.span.stop ≤ p ∧ p ≤ (terminator.map (·.span.start)).getD n.span.stop := by
  unfold hasValueAt at h
  split at h
  · simp only [Bool.and_eq_true, decide_eq_true_eq] at h
    exact ⟨_, _, _, _, ‹_›, h⟩
  · cases h

namespace Sheet

variable {d : Document} {t : Tree} {n : Node} {p : Position}

lemma Covers.nodeAt_eq (h : Covers d t) (hn : n ∈ t.forest.preorder) (hbody : bodyOf n = none)
    (hstart : n.span.start < p) (hstop : p ≤ n.span.stop) :
    ∃ found, t.nodeAt p true = some found ∧ found.node = n := by
  rw [t.nodeAt_true]
  refine h.laidOut.descend_eq isGap_filler hn hstart hstop fun x y hxy => ?_
  rw [hbody] at hxy
  cases hxy

lemma Covers.bounds_of_hasValueAt (h : Covers d t) (hn : n ∈ t.preorder) (hkind : IsSheetKind n.kind)
    (hp : n.hasValueAt p = true) : bodyOf n = none ∧ n.span.start < p ∧ p ≤ n.span.stop := by
  have htokens {token : Token} (ht : token ∈ n.kind.tokens) := (h.tokens hn).bounds ht
  obtain ⟨name, separator, value, terminator, hproperty, hafter, hbefore⟩ := Node.of_hasValueAt hp
  rw [hproperty] at hkind htokens
  have hseparator : n.span.start ≤ separator.span.start := (htokens (by simp [Kind.tokens])).1
  have hwidth : separator.span.start < separator.span.stop := hkind separator rfl
  have hbody : bodyOf n = none := by
    rw [bodyOf, hproperty]
    rfl
  refine ⟨hbody, (hseparator.trans_lt hwidth).trans_le hafter, ?_⟩
  cases terminator with
  | none => exact hbefore
  | some terminator =>
    have hterminator : terminator.span.stop ≤ n.span.stop := (htokens (by simp [Kind.tokens])).2
    exact (hbefore.trans terminator.span.ordered).trans hterminator

end Sheet

section Value

variable {d : Document} {tree : Option Tree} {f : Found} {dialect : Dialect} {p : Position} {abbreviation : Span}

lemma sheetAccepts_of_hasValueAt (hterm : dialect.hasTerminators = true) (hp : f.node.hasValueAt p = true) :
    sheetAccepts d tree (some f) dialect p abbreviation = true ↔
      tree.any (·.inComment p) = false ∧ f.parent.kind.isBlock = true ∧
        isColourOrBang (d.charsBetween abbreviation.start abbreviation.stop) = true := by
  obtain ⟨name, separator, value, terminator, hproperty, hafter, hbefore⟩ := Node.of_hasValueAt hp
  have hall : terminator.all (fun t => decide (p ≤ t.span.start)) = true := by
    cases terminator with
    | none => rfl
    | some terminator => exact decide_eq_true hbefore
  simp only [sheetAccepts, hterm, if_true, Found.propertyVerdict, hproperty, Option.any_some,
    decide_eq_true hafter, hall, Bool.and_true]
  cases tree.any (·.inComment p) <;> cases f.parent.kind.isBlock <;> simp

end Value

namespace Abbreviation

variable {text snippet : String} {dialect : Dialect} {o : ExpandOptions}

lemma expand?_of_isColourOrBang (hs : dialect.isStylesheet = true) (htext : isColourOrBang text.toList = true)
    (h : expand? text dialect o = some snippet) : snippet = "!important" ∨ snippet.toList.head? = some '#' := by
  rw [expand?, if_pos hs] at h
  unfold Sheet.expand? at h
  dsimp only at h
  unfold isColourOrBang at htext
  split at htext
  · rename_i hbang
    rw [hbang] at h
    exact .inl (Option.some_inj.1 h).symm
  · rename_i digits hcolour
    rw [hcolour] at h
    exact .inr (Sheet.colour?_head h)
  · cases htext

end Abbreviation

namespace Provider

variable {provider : Provider} {d : Document} {dialect : Dialect} {t : Tree} {n : Node} {p : Position}
  {request : Request}

/-- In the value of a declaration of a stylesheet that is read whole nothing is completed but colours and the
important mark. -/
theorem complete_in_value (h : dialect ∈ [Dialect.css, .scss, .less]) (hlang : d.languageId = dialect.name)
    (hmap : ∀ e ∈ provider.settings.behaviour.includeLanguages, e.1 = d.languageId → e.2 = d.languageId)
    (hwhole : readsRegion provider.settings d = false) (hread : d.parse? dialect = some t) (hn : n ∈ t.preorder)
    (hp : n.hasValueAt p = true) (hreq : request.trigger ≠ .incomplete) :
    ∀ list, (provider.complete d p request).1 = some list →
      ∀ item ∈ list.items, item.newText = "!important" ∨ item.newText.toList.head? = some '#' := by
  intro list hlist
  have hmodes : ∀ dialect ∈ [Dialect.css, .scss, .less], dialect ∈ Dialect.sheetModes ∧
      dialect.isStylesheet = true ∧ dialect.hasTerminators = true := by decide
  obtain ⟨hmode, hs, hterm⟩ := hmodes dialect h
  have hparse := parse_of_parse? hs hread
  have hwindow : Sheet.parse (Cursor.within d d.span.start d.span) dialect = .ok t := hparse
  have hcovers := Sheet.covers_within d.valid_origin d.valid_stop hwindow
  have hroot : t.root.kind = .stylesheet := by
    obtain ⟨ls, r, -, -, rfl⟩ := Sheet.parse_eq_ok_iff.1 hparse
    rfl
  have hforest : n ∈ t.forest.preorder := by
    rcases List.mem_cons.1 hn with rfl | hn
    · simp [Node.hasValueAt, hroot] at hp
    · exact hn
  obtain ⟨hbody, hstart, hstop⟩ :=
    hcovers.bounds_of_hasValueAt hn (Sheet.isSheetKind_of_parse hparse n hforest) hp
  obtain ⟨found, hfound, rfl⟩ := hcovers.nodeAt_eq hforest hbody hstart hstop
  obtain ⟨dialect', x, k, snippet, hallows, hexpand, rfl⟩ := complete_eq_some_iff.1 hlist
  obtain ⟨-, tree, htree, rfl, -, -, hx, -, haccepts⟩ := (allows_sheet_iff hmode hlang hmap hreq).1 hallows
  obtain rfl : t = tree := Option.some_inj.1 (hread.symm.trans ((sheetTree?_whole hwhole).symm.trans htree))
  rw [hfound] at haccepts
  obtain ⟨-, -, htext⟩ := (sheetAccepts_of_hasValueAt hterm hp).1 haccepts
  rw [← (Abbreviation.extract?_text hx).2] at htext
  intro item hitem
  rw [List.mem_singleton.1 hitem]
  exact Abbreviation.expand?_of_isColourOrBang hs htext hexpand

/-- In `a{b: #f|;c:d}` the cursor stands between a value and the semicolon that ends it, and `#f` is completed. -/
theorem complete_in_value_before_semicolon :
    let d := Document.ofText "css" "a\x7bb: #f;c:d\x7d"
    let provider := Provider.new .standard
    let request : Request := ⟨.invoked, none⟩
    ∃ t, d.parse? .css = some t ∧ ∃ n ∈ t.preorder, n.hasValueAt ⟨0, 7⟩ = true ∧
      readsRegion provider.settings d = false ∧
      (∃ list, (provider.complete d ⟨0, 7⟩ request).1 = some list ∧ list.items.map (·.newText) = ["#ffffff"]) ∧
      ∀ list, (provider.complete d ⟨0, 7⟩ request).1 = some list →
        ∀ item ∈ list.items, item.newText = "!important" ∨ item.newText.toList.head? = some '#' := by
  intro d provider request
  have hread : ((Document.ofText "css" "a\x7bb: #f;c:d\x7d").parse? .css).any (fun t =>
      t.preorder.any (·.hasValueAt ⟨0, 7⟩) && sheetAccepts (.ofText "css" "a\x7bb: #f;c:d\x7d") (some t)
        (t.nodeAt ⟨0, 7⟩ true) .css ⟨0, 7⟩ (.between ⟨0, 5⟩ ⟨0, 7⟩)) = true := by
    simp only [Document.parse?, Cursor.parse, Sheet.parse_eq_parseLexemes]
    cbv
  have hfound : Abbreviation.extract? (.ofText "css" "a\x7bb: #f;c:d\x7d") ⟨0, 7⟩ false =
      some ⟨"#f", .between ⟨0, 5⟩ ⟨0, 7⟩⟩ := by
    cbv
  have hexpand : Abbreviation.expand? "#f" .css (Behaviour.standard.expandOptions .css) = some "#ffffff" := by cbv
  simp only [Option.any_eq_true, Bool.and_eq_true, List.any_eq_true] at hread
  obtain ⟨t, ht, ⟨n, hn, hp⟩, haccepts⟩ := hread
  have hwhole : readsRegion provider.settings d = false := by decide
  have hallows : Allows provider.settings provider.last d ⟨0, 7⟩ request .css ⟨"#f", .between ⟨0, 5⟩ ⟨0, 7⟩⟩
      ⟨.css, true, some t⟩ :=
    (allows_sheet_iff (by decide) rfl (by decide) (by decide)).2
      ⟨rfl, t, (sheetTree?_whole hwhole).trans ht, rfl, by decide, by decide, hfound, by decide, haccepts⟩
  exact ⟨t, ht, n, hn, hp, hwhole, ⟨_, complete_eq_some_iff.2 ⟨_, _, _, _, hallows, hexpand, rfl⟩, rfl⟩,
    complete_in_value (by decide) rfl (by decide) hwhole ht hn hp (by decide)⟩

end Provider
end AbbrevSite
