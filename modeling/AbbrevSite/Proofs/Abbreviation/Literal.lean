import AbbrevSite.Proofs.Abbreviation.Reach
import AbbrevSite.Proofs.Completion.Markup
import AbbrevSite.Proofs.Markup.Tags
import AbbrevSite.Proofs.Region.Comment
import AbbrevSite.Proofs.Sheet.Nodes
import AbbrevSite.Proofs.Sheet.Prelude
import Mathlib

/-! The abbreviation at a position and the syntax around it. An abbreviation is a run of characters that may also end
a tag or be a brace; so it may reach over the end of a tag that stands right before it, but not if the tag has a name
alone, and it always reaches over the braces in its run. -/
namespace AbbrevSite

def Kind.braces : Kind → List Token
  | .rule _ opening closing => opening :: closing.toList
  | .atRule _ _ opening closing => opening.toList ++ closing.toList
  | _ => []

namespace Sheet

open Document

variable {d : Document} {l : Lexeme} {ls : List Lexeme} {a b : Position} {dialect : Dialect} {t : Tree}

/-- A stretch of one character, which ends at a place of the document. -/
structure Single (d : Document) (s : Span) : Prop where
  valid : d.Valid s.stop
  line : s.stop.line = s.start.line
  column : s.stop.column = s.start.column + 1

lemma Single.lt {s : Span} (h : Single d s) : s.start < s.stop := .inr ⟨h.line.symm, by rw [h.column]; omega⟩

lemma Single.encloses {s : Span} (h : Single d s) (p : Position) : s.encloses p = false := by
  obtain ⟨-, hline, hcolumn⟩ := h
  rw [Bool.eq_false_iff, ne_eq, Span.encloses_iff, Position.lt_def, Position.lt_def]
  omega

lemma ofNodes_braces (d : Document) (Q : Span → Prop) :
    OfNodes d (fun l => ∀ c, Q (charToken c l).span) fun k => ∀ t ∈ k.braces, Q t.span where
  statement p terminator := by
    unfold Prelude.statement
    split <;> simp [Kind.braces]
  block p l hl := by
    unfold Prelude.block
    split <;> simpa [Kind.braces] using hl '{'
  close {k l} hl h := by
    cases k with
    | rule selector opening closing =>
      simp only [Kind.braces, List.forall_mem_cons] at h
      simpa [Kind.close, Kind.braces] using ⟨h.1, hl '}'⟩
    | atRule name expression opening closing =>
      simp only [Kind.braces, List.forall_mem_append] at h
      simp only [Kind.close, Kind.braces, List.forall_mem_append]
      exact ⟨h.1, by simpa using hl '}'⟩
    | _ => exact h

lemma Tiles.single (h : Tiles d a ls b) (hl : l ∈ ls) (hs : l.IsBrace) (c : Char) : Single d (charToken c l).span := by
  obtain ⟨brace, hshape, hne⟩ : ∃ brace, l.shape = .char brace ∧ brace ≠ '\n' := by
    rcases hs with hs | hs
    · exact ⟨_, hs, by decide⟩
    · exact ⟨_, hs, by decide⟩
  obtain ⟨hread, hafter⟩ := h.char_of_mem hl hshape
  have hcolumn : l.start.column < d.lineLength l.start.line := by
    by_contra hle
    rw [readAt_of_lineLength_le (Nat.not_lt.1 hle)] at hread
    exact hne hread.symm
  rw [charToken_span (le_of_lt (h.bounds_of_mem hl).2.1)]
  rw [after_of_column_lt hcolumn] at hafter
  have hline : l.stop.line = l.start.line := by rw [hafter]
  have hnext : l.stop.column = l.start.column + 1 := by rw [hafter]
  exact ⟨h.stop_valid hl, hline, hnext⟩

theorem single_of_parse? (hs : dialect.isStylesheet = true) (h : d.parse? dialect = some t) {n : Node}
    (hn : n ∈ t.preorder) : ∀ brace ∈ n.kind.braces, Single d brace.span := by
  have hparse := parse_of_parse? hs h
  rcases List.mem_cons.1 hn with rfl | hn
  · obtain ⟨ls, r, -, -, rfl⟩ := parse_eq_ok_iff.1 hparse
    simp [Reading.finish, Kind.braces]
  · have hfault := (parse_comments hparse).1
    have htiles := tiles_lexemes d.valid_origin d.valid_stop (Position.origin_le _) hfault
    exact forall_nodes_parse (ofNodes_braces d (Single d)) (fun l hl hbrace c => htiles.single hl hbrace c) hparse n hn

end Sheet

namespace Abbreviation

variable {d : Document} {p : Position} {x : Extracted} {t : Tree} {n : Node}

lemma isClosing_angle : isClosing '<' = false := by decide

/-- The abbreviation that is found in markup has a character in common with a tag or a comment, which the position is
not strictly inside of, only if it reaches back to the last character of it; in a stylesheet it has one in common with
the brace of a block exactly if it reaches back to the brace. -/
theorem extract?_shares (d : Document) (p : Position) :
    (∀ t, d.parse? .html = some t → ∀ n ∈ t.preorder, ∀ s ∈ n.marks, s.encloses p = false →
        ∀ x, extract? d p true = some x → x.span.Shares s → Reached d p s) ∧
      ∀ dialect t, dialect.isStylesheet = true → d.parse? dialect = some t → ∀ n ∈ t.preorder,
        ∀ brace ∈ n.kind.braces, ∀ x, extract? d p false = some x →
        (x.span.Shares brace.span ↔ Reached d p brace.span) := by
  refine ⟨?_, ?_⟩
  · intro t ht n hn s hs hout x hx
    have hmarked : Markup.Marked d s := by
      have hparse : Markup.parse (Cursor.within d d.span.start d.span) .html = t := Option.some_inj.1 ht
      rcases List.mem_cons.1 hn with rfl | hn
      · rw [Node.marks, (Markup.wellNested_parse? ht).1] at hs
        cases hs
      · rw [← hparse] at hn
        exact Markup.marked_parse d.valid_origin d.valid_stop hn s hs
    have hahead : true = true → isClosing (d.readAt s.start) = false := by
      rw [hmarked.angle]
      exact fun _ => isClosing_angle
    exact (shares_iff hx hmarked.lt hmarked.valid_stop hout hahead).1
  · intro dialect t hs ht n hn brace hbrace x hx
    have hsingle := Sheet.single_of_parse? hs ht hn brace hbrace
    exact shares_iff hx hsingle.lt hsingle.valid (hsingle.encloses p) nofun

lemma exists_shares_tag :
    ∃ t, (Document.ofText "html" "<a b=\"c\">d").parse? .html = some t ∧
      (∀ n ∈ t.preorder, ∀ s ∈ n.marks, s.encloses ⟨0, 10⟩ = false) ∧
      ∃ n ∈ t.preorder, ∃ s ∈ n.marks, (Span.between ⟨0, 8⟩ ⟨0, 10⟩).Shares s := by
  have hread : ((Document.ofText "html" "<a b=\"c\">d").parse? .html).any (fun t =>
      (t.preorder.all fun n => n.marks.all fun s => !s.encloses ⟨0, 10⟩) &&
        t.preorder.any fun n => n.marks.any fun s => decide (s.start ≤ ⟨0, 8⟩) && decide (⟨0, 8⟩ < s.stop)) = true := by
    cbv
  simp only [Option.any_eq_true, List.any_eq_true, List.all_eq_true, Bool.and_eq_true, Bool.not_eq_true',
    decide_eq_true_eq] at hread
  obtain ⟨t, ht, hout, n, hn, s, hs, hstart, hstop⟩ := hread
  exact ⟨t, ht, hout, n, hn, s, hs, ⟨0, 8⟩, by decide, by decide, hstart, hstop⟩

lemma exists_shares_brace :
    ∃ t, (Document.ofText "css" "a\x7bm10").parse? .css = some t ∧
      ∃ n ∈ t.preorder, ∃ brace ∈ n.kind.braces, (Span.between ⟨0, 0⟩ ⟨0, 5⟩).Shares brace.span := by
  have hread : ((Document.ofText "css" "a\x7bm10").parse? .css).any (fun t => t.preorder.any fun n =>
      n.kind.braces.any fun b => decide (b.span.start ≤ ⟨0, 1⟩) && decide (⟨0, 1⟩ < b.span.stop)) = true := by
    simp only [Document.parse?, Cursor.parse, Sheet.parse_eq_parseLexemes]
    cbv
  simp only [Option.any_eq_true, List.any_eq_true, Bool.and_eq_true, decide_eq_true_eq] at hread
  obtain ⟨t, ht, n, hn, brace, hbrace, hstart, hstop⟩ := hread
  exact ⟨t, ht, n, hn, brace, hbrace, ⟨0, 1⟩, by decide, by decide, hstart, hstop⟩

lemma extract?_behind_tag : extract? (.ofText "html" "<a b=\"c\">d") ⟨0, 10⟩ true =
    some ⟨">d", .between ⟨0, 8⟩ ⟨0, 10⟩⟩ := by
  cbv

lemma extract?_behind_brace : extract? (.ofText "css" "a\x7bm10") ⟨0, 5⟩ false =
    some ⟨"a\x7bm10", .between ⟨0, 0⟩ ⟨0, 5⟩⟩ := by
  cbv

/-- In `<a b="c">d|` the abbreviation reaches back to the end of the tag, and in `a{m10|` it reaches over the brace. -/
theorem extract?_shares_tag_and_brace :
    let html := Document.ofText "html" "<a b=\"c\">d"
    let css := Document.ofText "css" "a\x7bm10"
    (∃ t, html.parse? .html = some t ∧ ∃ n ∈ t.preorder, ∃ s ∈ n.marks, s.encloses ⟨0, 10⟩ = false ∧
        ∃ x, extract? html ⟨0, 10⟩ true = some x ∧ x.span.Shares s ∧ Reached html ⟨0, 10⟩ s) ∧
      ∃ t, css.parse? .css = some t ∧ ∃ n ∈ t.preorder, ∃ brace ∈ n.kind.braces,
        ∃ x, extract? css ⟨0, 5⟩ false = some x ∧ x.span.Shares brace.span ∧ Reached css ⟨0, 5⟩ brace.span := by
  intro html css
  obtain ⟨t, ht, hout, n, hn, s, hs, hshares⟩ := exists_shares_tag
  obtain ⟨u, hu, m, hm, brace, hbrace, hshares'⟩ := exists_shares_brace
  have htag := (extract?_shares html ⟨0, 10⟩).1 t ht n hn s hs (hout n hn s hs) _ extract?_behind_tag hshares
  have hreach := (extract?_shares css ⟨0, 5⟩).2 .css u rfl hu m hm brace hbrace _ extract?_behind_brace
  exact ⟨⟨t, ht, n, hn, s, hs, hout n hn s hs, _, extract?_behind_tag, hshares, htag⟩,
    u, hu, m, hm, brace, hbrace, _, extract?_behind_brace, hshares', hreach.1 hshares'⟩

/-- The abbreviation at a position may have characters in common with the syntax around it, although the position is
in no tag and no comment. -/
theorem not_forall_extract?_apart :
    (¬ ∀ (d : Document) (p : Position) (t : Tree), d.parse? .html = some t →
        (∀ n ∈ t.preorder, ∀ s ∈ n.marks, s.encloses p = false) → ∀ x, extract? d p true = some x →
        ∀ n ∈ t.preorder, ∀ s ∈ n.marks, ¬ x.span.Shares s) ∧
      ¬ ∀ (d : Document) (p : Position) (dialect : Dialect) (t : Tree), dialect.isStylesheet = true →
        d.parse? dialect = some t → ∀ x, extract? d p false = some x →
        ∀ n ∈ t.preorder, ∀ brace ∈ n.kind.braces, ¬ x.span.Shares brace.span := by
  constructor
  · intro hapart
    obtain ⟨t, ht, hout, n, hn, s, hs, hshares⟩ := exists_shares_tag
    exact hapart _ _ t ht hout _ extract?_behind_tag n hn s hs hshares
  · intro hapart
    obtain ⟨t, ht, n, hn, brace, hbrace, hshares⟩ := exists_shares_brace
    exact hapart _ _ .css t rfl ht _ extract?_behind_brace n hn brace hbrace hshares

end Abbreviation
end AbbrevSite
