import AbbrevSite.Abbreviation.Extract
import AbbrevSite.Proofs.Text.Order

/-! What the abbreviation at a position is: a stretch of the line of the position, with the position between its
ends, and its text is the text of the document there. -/
namespace AbbrevSite

namespace Document

variable {d : Document} {l a b : Nat}

lemma charsBetween_line (hab : a ≤ b) (hb : b ≤ d.lineLength l) :
    d.charsBetween ⟨l, a⟩ ⟨l, b⟩ = (d.line l).toList.extract a b := by
  rw [← Array.toList_extract]
  by_cases hl : l < d.lineCount
  · unfold charsBetween
    rw [clamp_of_valid ⟨hl, hab.trans hb⟩, clamp_of_valid ⟨hl, hb⟩, if_pos rfl]
  · -- past the last line there are no characters
    have hline : d.line l = #[] := by
      have hsize : d.lines.size ≤ l := Nat.not_lt.1 hl
      simp [line, hsize]
    have hclamp (n : Nat) : d.clamp ⟨l, n⟩ = d.stop := if_neg hl
    unfold charsBetween
    rw [hclamp, hclamp, if_pos rfl, hline]
    simp

end Document

namespace Abbreviation

variable {cs run : List Char}

lemma lastRun_suffix (cs : List Char) : lastRun cs <:+ cs := by
  have h := (List.takeWhile_prefix isAbbreviationChar (l := cs.reverse)).reverse
  rwa [List.reverse_reverse] at h

lemma afterTag_suffix (run : List Char) : afterTag run <:+ run := by
  have hdrop : run.dropWhile (· != '>') <:+ run := List.dropWhile_suffix _
  unfold afterTag
  split
  · exact List.suffix_refl run
  · rename_i c rest heq
    rw [heq] at hdrop
    exact (List.suffix_cons c rest).trans hdrop

lemma tail_suffix (cs : List Char) : tail cs <:+ cs := by
  unfold tail
  dsimp only
  split_ifs
  · exact (afterTag_suffix _).trans (lastRun_suffix cs)
  · exact lastRun_suffix cs

lemma closings_prefix (n : Nat) (cs : List Char) : closings n cs <+: cs := by
  induction cs generalizing n with
  | nil => cases n <;> exact List.prefix_refl []
  | cons c cs ih =>
    cases n with
    | zero => exact List.nil_prefix
    | succ n =>
      rw [closings]
      split_ifs
      · exact (List.prefix_cons_inj c).2 (ih n)
      · exact List.nil_prefix

lemma extract_around {line front back : List Char} {k : Nat} (hk : k ≤ line.length) (hfront : front <:+ line.take k)
    (hback : back <+: line.drop k) : front.length ≤ k ∧ k + back.length ≤ line.length ∧
      line.extract (k - front.length) (k + back.length) = front ++ back := by
  obtain ⟨before, hbefore⟩ := hfront
  obtain ⟨behind, hbehind⟩ := hback
  have hline : line = before ++ (front ++ back) ++ behind := by
    rw [← List.take_append_drop k line, ← hbefore, ← hbehind]
    simp
  have htake : before.length + front.length = k := by
    rw [← List.length_append, hbefore, List.length_take, Nat.min_eq_left hk]
  have hdrop : k + back.length + behind.length = line.length := by
    rw [hline]
    simp
    omega
  have hstart : k - front.length = before.length := by omega
  have hlength : k + back.length - before.length = (front ++ back).length := by
    rw [List.length_append]
    omega
  refine ⟨by omega, by omega, ?_⟩
  rw [List.extract_eq_take_drop, hstart, hlength, hline, List.append_assoc, List.drop_left, List.take_left]

variable {d : Document} {p : Position} {lookahead : Bool} {x : Extracted}

/-- The columns between which an abbreviation stands, one of them at or before the position and one at or behind
it. -/
theorem extract?_eq_some (h : extract? d p lookahead = some x) :
    ∃ a b, a ≤ min p.column (d.lineLength p.line) ∧ min p.column (d.lineLength p.line) ≤ b ∧
      b ≤ d.lineLength p.line ∧ a < b ∧ x.span = .between ⟨p.line, a⟩ ⟨p.line, b⟩ ∧
      x.text.toList = (d.line p.line).toList.extract a b := by
  unfold extract? at h
  simp only [Option.ite_none_left_eq_some, Option.some.injEq] at h
  obtain ⟨hne, rfl⟩ := h
  have hlength : d.lineLength p.line = (d.line p.line).toList.length := Array.length_toList.symm
  have hfront := tail_suffix ((d.line p.line).toList.take (min p.column (d.line p.line).toList.length))
  rw [hlength]
  generalize (d.line p.line).toList = line at *
  generalize hk : min p.column line.length = k at *
  generalize tail (line.take k) = front at *
  obtain ⟨back, hback, hprefix⟩ : ∃ back, (if lookahead = true then
      closings (front.countP isOpening - front.countP isClosing) (line.drop k) else []) = back ∧
      back <+: line.drop k := by
    refine ⟨_, rfl, ?_⟩
    split_ifs
    · exact closings_prefix _ _
    · exact List.nil_prefix
  rw [hback] at hne ⊢
  have hle : k ≤ line.length := by omega
  obtain ⟨hstart, hstop, hextract⟩ := extract_around hle hfront hprefix
  have hpos : 0 < front.length + back.length := by
    rw [← List.length_append]
    exact List.length_pos_iff.2 (by simpa using hne)
  refine ⟨k - front.length, k + back.length, by omega, by omega, hstop, by omega, rfl, ?_⟩
  rw [hextract, String.toList_ofList]

theorem extract?_text (h : extract? d p lookahead = some x) :
    x.text ≠ "" ∧ x.text.toList = d.charsBetween x.span.start x.span.stop := by
  obtain ⟨a, b, -, -, hb, hab, hspan, htext⟩ := extract?_eq_some h
  have hle : (⟨p.line, a⟩ : Position) ≤ ⟨p.line, b⟩ := .inr ⟨rfl, le_of_lt hab⟩
  rw [hspan, Span.between_of_le hle, Document.charsBetween_line (le_of_lt hab) hb]
  refine ⟨fun hempty => ?_, htext⟩
  have hlength := congrArg List.length htext
  have hsize : b ≤ (d.line p.line).size := hb
  simp [hempty] at hlength
  omega

end Abbreviation
end AbbrevSite
