import AbbrevSite.Proofs.Text.Lines
import Mathlib.Data.Set.Function
import Mathlib.Order.Interval.Set.Basic

/-! One flat indexing of a text. Places, offsets and the slices between them say the same: the offsets up to the length
of a text stand for its places in their order, every position for the place nearest to it, and the characters between
two positions are those of the text between their offsets. -/
namespace AbbrevSite

lemma splitAtNewlines_eq_splitOn (cs : List Char) : splitAtNewlines cs = cs.splitOn '\n' := by
  induction cs with
  | nil => rfl
  | cons c cs ih =>
    obtain ⟨first, rest, hs⟩ := List.exists_cons_of_ne_nil (splitAtNewlines_ne_nil cs)
    rw [splitAtNewlines_cons hs]
    rw [hs, List.splitOn] at ih
    rw [List.splitOn, List.splitOnP_cons_eq_if_modifyHead, ← ih]
    by_cases hc : c = '\n' <;> simp [hc]

lemma dropReturns_eq_intercalate (cs : List Char) :
    dropReturns cs = ['\n'].intercalate ((cs.splitOn '\n').map dropReturn) := by
  obtain ⟨first, rest, hs⟩ := List.exists_cons_of_ne_nil (splitAtNewlines_ne_nil cs)
  rw [dropReturns_of_splitAtNewlines hs, ← splitAtNewlines_eq_splitOn, hs, List.map_cons]
  clear hs
  induction rest generalizing first with
  | nil => simp
  | cons second rest ih =>
    rw [List.map_cons, List.intercalate_cons_cons, ← ih, List.flatMap_cons]
    simp

namespace Document

variable {d : Document} {p q r : Position}

lemma length_text (d : Document) : d.text.toList.length = d.length := by
  have hadd := offsetAt_add_length_charsBetween d.valid_origin d.valid_stop (Position.origin_le _)
  rw [offsetAt_origin, Nat.zero_add, offsetAt_stop] at hadd
  rw [toList_text, map_char_glyphs d.valid_origin d.valid_stop (Position.origin_le _), hadd]

lemma offsetAt_clamp (p : Position) : d.offsetAt (d.clamp p) = d.offsetAt p := by
  unfold offsetAt
  rw [clamp_of_valid (d.clamp_valid p)]

lemma positionAt_of_length_le {n : Nat} (h : d.length ≤ n) : d.positionAt n = d.stop := by
  have hstop := positionAt_offsetAt d.valid_stop
  rw [offsetAt_stop] at hstop
  unfold positionAt at hstop ⊢
  rwa [Nat.min_eq_right h, ← Nat.min_self d.length]

lemma clamp_mono (d : Document) : Monotone d.clamp := by
  intro p q h
  by_cases hp : p.line < d.lineCount
  · refine le_clamp (d.clamp_valid p) (le_trans ?_ h)
    rw [clamp, if_pos hp]
    exact .inr ⟨rfl, Nat.min_le_left _ _⟩
  · have hq : ¬q.line < d.lineCount := by
      rw [Position.le_def] at h
      omega
    rw [clamp, clamp, if_neg hp, if_neg hq]

lemma charsBetween_clamps (d : Document) (p q : Position) :
    d.charsBetween (d.clamp p) (d.clamp q) = d.charsBetween p q := by
  unfold charsBetween
  rw [clamp_of_valid (d.clamp_valid p), clamp_of_valid (d.clamp_valid q)]

theorem charsBetween_eq_slice (d : Document) (p q : Position) :
    d.charsBetween p q = (d.text.toList.take (d.offsetAt q)).drop (d.offsetAt p) := by
  rw [← charsBetween_clamps, ← offsetAt_clamp p, ← offsetAt_clamp q]
  by_cases h : d.clamp p ≤ d.clamp q
  · rw [slice_text (d.clamp_valid p) (d.clamp_valid q) h]
  · have hle := le_of_lt (not_le.1 h)
    have hoffset := (le_iff_offsetAt_le (d.clamp_valid q) (d.clamp_valid p)).1 hle
    rw [charsBetween_of_le (d.clamp_valid p) (d.clamp_valid q) hle, eq_comm, List.drop_eq_nil_iff]
    exact (List.length_take_le _ _).trans hoffset

lemma textOf_append {s t : Span} (d : Document) (h : s.stop = t.start) :
    d.textOf s ++ d.textOf t = d.textOf (.between s.start t.stop) := by
  have hle : s.start ≤ t.stop := s.ordered.trans (h.trans_le t.ordered)
  have hparts := charsBetween_append (d.clamp_valid s.start) (d.clamp_valid s.stop) (d.clamp_valid t.stop)
    (d.clamp_mono s.ordered) (d.clamp_mono (h.trans_le t.ordered))
  simp only [charsBetween_clamps] at hparts
  rw [textOf, textOf, ← String.ofList_append, ← h, ← hparts, Span.between_of_le hle]
  rfl

lemma positionAt_strictMonoOn (d : Document) : StrictMonoOn d.positionAt (Set.Iic d.length) := by
  intro m hm n hn h
  obtain ⟨hvalid, hoffset⟩ := positionAt_spec hn
  rw [positionAt_lt_iff hm hvalid, hoffset]
  exact h

lemma positionAt_invOn (d : Document) : Set.InvOn d.offsetAt d.positionAt (Set.Iic d.length) {p | d.Valid p} :=
  ⟨fun _ hn => (positionAt_spec hn).2, fun _ hp => positionAt_offsetAt hp⟩

lemma positionAt_bijOn (d : Document) : Set.BijOn d.positionAt (Set.Iic d.length) {p | d.Valid p} :=
  d.positionAt_invOn.bijOn (fun _ hn => (positionAt_spec hn).1) fun _ hp => offsetAt_le_length hp

/-- Offsets, places and slices as one indexing of the text of a document: its offsets stand for its places in their
order, a position for the place nearest to it, and a span for the characters between the offsets of its ends. -/
structure FlatlyIndexed (d : Document) : Prop where
  length : d.length = d.text.length
  increasing : StrictMonoOn d.positionAt (Set.Iic d.length)
  bijective : Set.BijOn d.positionAt (Set.Iic d.length) {p | d.Valid p}
  inverse : Set.InvOn d.offsetAt d.positionAt (Set.Iic d.length) {p | d.Valid p}
  beyond : ∀ n, d.length ≤ n → d.positionAt n = d.stop
  nearest : ∀ p, d.positionAt (d.offsetAt p) = d.clamp p
  clamp_clamp : ∀ p, d.clamp (d.clamp p) = d.clamp p
  clamp_mono : Monotone d.clamp
  slice : ∀ p q, d.charsBetween p q = (d.text.toList.take (d.offsetAt q)).drop (d.offsetAt p)
  slice_span : ∀ s : Span, (d.textOf s).toList = (d.text.toList.take (d.offsetAt s.stop)).drop (d.offsetAt s.start)
  append : ∀ s t : Span, s.stop = t.start → d.textOf s ++ d.textOf t = d.textOf (.between s.start t.stop)

lemma flatlyIndexed (d : Document) : d.FlatlyIndexed where
  length := by rw [← d.length_text, String.length_toList]
  increasing := d.positionAt_strictMonoOn
  bijective := d.positionAt_bijOn
  inverse := d.positionAt_invOn
  beyond _ := positionAt_of_length_le
  nearest p := by rw [← offsetAt_clamp, positionAt_offsetAt (d.clamp_valid p)]
  clamp_clamp p := clamp_of_valid (d.clamp_valid p)
  clamp_mono := d.clamp_mono
  slice := d.charsBetween_eq_slice
  slice_span s := by rw [textOf, String.toList_ofList, charsBetween_eq_slice]
  append _ _ := d.textOf_append

/-- The document of a text holds its lines, each without one carriage return at its end, joined with newlines, and
offsets, places and slices index them alike. -/
theorem flatlyIndexed_ofText (languageId text : String) :
    (ofText languageId text).text.toList = ['\n'].intercalate ((text.toList.splitOn '\n').map dropReturn) ∧
      (ofText languageId text).FlatlyIndexed := by
  refine ⟨?_, flatlyIndexed _⟩
  rw [toList_text, map_char_glyphs (valid_origin _) (valid_stop _) (Position.origin_le _), ofText, charsBetween_ofChars,
    dropReturns_eq_intercalate]

end Document
end AbbrevSite
