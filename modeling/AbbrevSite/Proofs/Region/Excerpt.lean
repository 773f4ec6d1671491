import AbbrevSite.Parse
import AbbrevSite.Proofs.Markup.Excerpt
import AbbrevSite.Proofs.Markup.Tags
import AbbrevSite.Proofs.Region.Bounds
import AbbrevSite.Proofs.Sheet.Excerpt
import AbbrevSite.Region.Parse

/-! A window is read as a document with its text is. So nothing outside a window has a part in its tree or in its
failure, and the stylesheets in a markup text and the region around a position are read from their own text alone. -/
namespace AbbrevSite.Document

variable {d : Document}

lemma not_mem_line {c : Char} (h : ∀ l ∈ d.lines, c ∉ l) (n : Nat) : c ∉ (d.line n).toList := by
  unfold line
  cases hn : d.lines[n]? with
  | none => simp
  | some l => simpa using h l (Array.mem_of_getElem? hn)

lemma toOption_behind (o : Position) (r : Except Failure Tree) :
    ((r.map (·.behind o)).mapError (·.behind o)).toOption = r.toOption.map (·.behind o) := by
  cases r <;> rfl

/-- Reading a window of a text without carriage returns is reading a document that holds the text of the window alone,
in every dialect: the tree and the failure are the same, every place moved behind the start of the window. So are the
tree of the region around a position and that of a stylesheet in a markup text. -/
theorem parse_window (languageId text : String) (hreturn : ∀ l ∈ (ofText languageId text).lines, '\r' ∉ l)
    (languageId' : String) :
    let d := ofText languageId text
    let alone (w : Span) : Cursor := .whole (ofText languageId' (d.textOf w)) .origin
    (∀ w : Span, d.Valid w.start → d.Valid w.stop → ∀ dialect,
      Sheet.parse (.within d w.start w) dialect =
          ((Sheet.parse (alone w) dialect).map (·.behind w.start)).mapError (·.behind w.start) ∧
        Markup.parse (.within d w.start w) dialect = (Markup.parse (alone w) dialect).behind w.start) ∧
      (∀ limits p, d.parseAround? limits p =
        (Sheet.parse (alone (d.regionAround limits p)) d.sheetDialect).toOption.map
          (·.behind (d.regionAround limits p).start)) ∧
      ∀ dialect (found : Found) p inner,
        found.node ∈ (Markup.parse (.whole d .origin) dialect).forest.preorder →
          found.node.kind.isElementNamed "style" = true → found.node.kind.innerSpan? = some inner →
            inner.encloses p = true → d.embeddedSheet? (some found) p =
              (Sheet.parse (alone inner) .css).toOption.map (·.behind inner.start) := by
  intro d alone
  have hexcerpt (w : Span) (hstart : d.Valid w.start) (hstop : d.Valid w.stop) :
      d.Excerpt w (ofText languageId' (d.textOf w)) :=
    excerpt_ofText (newline_not_mem_line languageId text) (not_mem_line hreturn) hstart hstop languageId'
  have hsheet (w : Span) (hstart : d.Valid w.start) (hstop : d.Valid w.stop) (dialect : Dialect) :=
    Sheet.parse_excerpt (hexcerpt w hstart hstop) dialect
  refine ⟨fun w hstart hstop dialect => ⟨hsheet w hstart hstop dialect, ?_⟩, fun limits p => ?_,
    fun dialect found p inner hfound hstyle hinner hp => ?_⟩
  · exact Markup.parse_excerpt (hexcerpt w hstart hstop) dialect
  · obtain ⟨hstart, hstop⟩ := d.regionAround_valid limits p
    unfold parseAround?
    dsimp only
    rw [hsheet _ hstart hstop, toOption_behind]
  · obtain ⟨hstart, hstop⟩ := Markup.innerSpan?_valid d.valid_origin d.valid_stop hfound hinner
    have hembedded : d.embeddedSheet? (some found) p = (Sheet.parse (.within d inner.start inner) .css).toOption := by
      simp [embeddedSheet?, hstyle, hinner, hp]
    rw [hembedded, hsheet _ hstart hstop, toOption_behind]

/-- The body of a `style` element that starts in the middle of a line and ends in another. -/
theorem parse_window_style_body :
    let d := ofText "html" "<p>\n<style>a\x7bb:c\n\x7d</style>"
    let w : Span := ⟨⟨1, 7⟩, ⟨2, 1⟩, by decide⟩
    let e := ofText "css" (d.textOf w)
    (∀ l ∈ d.lines, '\r' ∉ l) ∧ d.Valid w.start ∧ d.Valid w.stop ∧
      Sheet.parse (.within d w.start w) .css =
        ((Sheet.parse (.whole e .origin) .css).map (·.behind w.start)).mapError (·.behind w.start) ∧
      ∃ found : Found, found.node ∈ (Markup.parse (.whole d .origin) .html).forest.preorder ∧
        found.node.kind.isElementNamed "style" = true ∧ found.node.kind.innerSpan? = some w ∧
        w.encloses ⟨2, 0⟩ = true ∧ d.embeddedSheet? (some found) ⟨2, 0⟩ =
          (Sheet.parse (.whole e .origin) .css).toOption.map (·.behind w.start) := by
  intro d w e
  have hreturn : ∀ l ∈ d.lines, '\r' ∉ l := by decide +kernel
  have hstart : d.Valid w.start := by decide
  have hstop : d.Valid w.stop := by decide
  have hencloses : w.encloses ⟨2, 0⟩ = true := by decide
  have hread : ((Markup.parse (.whole d .origin) .html).forest.preorder.any fun n =>
      n.kind.isElementNamed "style" && n.kind.innerSpan? == some w) = true := by
    cbv
  simp only [List.any_eq_true, Bool.and_eq_true, beq_iff_eq] at hread
  obtain ⟨n, hn, hstyle, hinner⟩ := hread
  obtain ⟨hwindow, -, hembedded⟩ := parse_window "html" "<p>\n<style>a\x7bb:c\n\x7d</style>" hreturn "css"
  exact ⟨hreturn, hstart, hstop, (hwindow w hstart hstop .css).1, ⟨n, n, []⟩, hn, hstyle, hinner, hencloses,
    hembedded .html ⟨n, n, []⟩ ⟨2, 0⟩ w hn hstyle hinner hencloses⟩

end AbbrevSite.Document
