import AbbrevSite.Text.Position
import Mathlib.Order.Defs.LinearOrder
import Mathlib.Tactic.Common
import Mathlib.Tactic.Order

/-! Positions as a linear order, and what lies in the span between two of them. -/
namespace AbbrevSite

instance : LinearOrder Position where
  le_refl := Position.le_refl
  le_trans _ _ _ := Position.le_trans
  lt_iff_le_not_ge p q := by
    rw [Position.not_le]
    exact ⟨fun h => ⟨Position.le_of_lt h, h⟩, fun h => h.2⟩
  le_antisymm _ _ := Position.le_antisymm
  le_total p q := by
    rw [or_iff_not_imp_left, Position.not_le]
    exact Position.le_of_lt
  toDecidableLE := inferInstance

namespace Span

variable {p q r e : Position} {s : Span}

lemma eq_of {s t : Span} (h : s.start = t.start) (h' : s.stop = t.stop) : s = t := by
  obtain ⟨_, _, _⟩ := s
  obtain ⟨_, _, _⟩ := t
  cases h
  cases h'
  rfl

lemma contains_between_of_lt (h : p < r) : (between q r).contains p = decide (q ≤ p) := by
  by_cases hq : q ≤ p
  · rw [between_of_le (by order), decide_eq_true hq]
    exact contains_iff.2 ⟨hq, le_of_lt h⟩
  · rw [decide_eq_false hq, Bool.eq_false_iff]
    intro hc
    have hc := contains_iff.1 hc
    unfold between at hc
    split_ifs at hc
    · exact absurd hc.1 (by order)
    · exact hq hc.1

lemma contains_between (hq : q ≤ p) (hr : p ≤ r) : (between q r).contains p = true := by
  rw [between_of_le (by order)]
  exact contains_iff.2 ⟨hq, hr⟩

lemma contains_of_encloses (h : s.encloses p = true) : s.contains p = true := by
  obtain ⟨hs, hp⟩ := encloses_iff.1 h
  exact contains_iff.2 ⟨le_of_lt hs, le_of_lt hp⟩

lemma contains_of_lt_start (h : p < s.start) : s.contains p = false := by
  rw [Bool.eq_false_iff]
  intro hc
  have := (contains_iff.1 hc).1
  order

lemma contains_of_stop_lt (h : s.stop < p) : s.contains p = false := by
  rw [Bool.eq_false_iff]
  intro hc
  have := (contains_iff.1 hc).2
  order

lemma lt_between_start (hq : p < q) (hr : p < r) : p < (between q r).start := by
  unfold between
  split_ifs
  · exact hr
  · exact hq

lemma between_start_le (q r : Position) : (between q r).start ≤ q := by
  unfold between
  split_ifs with h
  · exact le_of_lt h
  · exact le_refl q

lemma between_stop_le (hq : q ≤ e) (hr : r ≤ e) : (between q r).stop ≤ e := by
  unfold between
  split_ifs
  · exact hq
  · exact hr

end Span
end AbbrevSite
