import AbbrevSite.Proofs.Abbreviation.Extract
import AbbrevSite.Proofs.Text.Places
import Mathlib

/-! How far back the abbreviation at a position reaches on its line, and with which stretches of the document it has
characters in common. The tree of the document has no part in it: what counts are the characters alone. -/
namespace AbbrevSite

/-- Two stretches of a text with a character in common. -/
def Span.Shares (s t : Span) : Prop := ∃ q, s.start ≤ q ∧ q < s.stop ∧ t.start ≤ q ∧ q < t.stop

def Document.before (d : Document) (p : Position) : List Char := (d.line p.line).toList.take p.column

namespace Abbreviation

/-- A text that ends in the beginning of a tag of which nothing but a name or a slash has been written. -/
def OpensTag (cs : List Char) : Prop :=
  ∃ front name, cs = front ++ '<' :: name ∧ ∀ c ∈ name, isAbbreviationChar c = true ∧ c ≠ '>'

/-- The abbreviation at the end of a text reaches back to a place in it if the place is in the run of abbreviation
characters at the end. If the run starts as a tag does, it also has to be behind the end of that tag. -/
def ReachesBack (before : List Char) (k : Nat) : Prop :=
  (∀ c ∈ before.drop k, isAbbreviationChar c = true) ∧ ¬ (OpensTag (before.take k) ∧ '>' ∈ before.drop k)

/-- A stretch of a document that ends at or before a position on its line, with a last character that the abbreviation
at the position reaches back to. -/
structure Reached (d : Document) (p : Position) (s : Span) : Prop where
  line : s.stop.line = p.line
  column_pos : 0 < s.stop.column
  column_le : s.stop.column ≤ p.column
  back : ReachesBack (d.before p) (s.stop.column - 1)

variable {cs front run : List Char} {k : Nat}

lemma isAbbreviationChar_angle : isAbbreviationChar '<' = false := by decide

/-- A run of abbreviation characters behind a text that does not end in one. -/
structure EndsIn (front run : List Char) : Prop where
  run : ∀ c ∈ run, isAbbreviationChar c = true
  front : ∀ c ∈ front.getLast?, isAbbreviationChar c = false

lemma exists_endsIn (cs : List Char) : ∃ front, cs = front ++ lastRun cs ∧ EndsIn front (lastRun cs) := by
  refine ⟨cs.rdropWhile isAbbreviationChar, (List.rdropWhile_append_rtakeWhile ..).symm, ?_, ?_⟩
  · intro c hc
    exact List.mem_rtakeWhile_imp hc
  · intro c hc
    obtain ⟨hne, rfl⟩ := List.mem_getLast?_eq_getLast hc
    exact Bool.eq_false_iff.2 (List.rdropWhile_last_not _ _ hne)

namespace EndsIn

variable (h : EndsIn front run)
include h

lemma forall_drop_iff :
    (∀ c ∈ (front ++ run).drop k, isAbbreviationChar c = true) ↔ front.length ≤ k := by
  constructor
  · intro hall
    by_contra hlt
    have hdrop : front.drop k ≠ [] := by
      rw [ne_eq, List.drop_eq_nil_iff]
      exact hlt
    have hmem : (front.drop k).getLast hdrop ∈ (front ++ run).drop k := by
      rw [List.drop_append]
      exact List.mem_append_left _ (List.getLast_mem hdrop)
    have hlast : front.getLast? = some ((front.drop k).getLast hdrop) := by
      rw [List.getLast_drop]
      exact List.getLast?_eq_some_getLast _
    exact Bool.false_ne_true ((h.front _ hlast).symm.trans (hall _ hmem))
  · intro hle c hc
    rw [List.drop_append, List.drop_eq_nil_of_le hle, List.nil_append] at hc
    exact h.run c (List.mem_of_mem_drop hc)

lemma unique {front' run' : List Char} (h' : EndsIn front' run') (hsplit : front ++ run = front' ++ run') :
    front = front' ∧ run = run' := by
  apply List.append_inj hsplit
  apply le_antisymm
  · rw [← h.forall_drop_iff, hsplit, h'.forall_drop_iff]
  · rw [← h'.forall_drop_iff, ← hsplit, h.forall_drop_iff]

lemma take (n : Nat) : EndsIn front (run.take n) := ⟨fun c hc => h.run c (List.mem_of_mem_take hc), h.front⟩

lemma tail_eq : tail (front ++ run) = if front.getLast? = some '<' then afterTag run else run := by
  obtain ⟨front', hsplit, h'⟩ := exists_endsIn (front ++ run)
  obtain ⟨rfl, hrun⟩ := h.unique h' hsplit
  have htake : (front ++ run).length - run.length = front.length := by simp
  unfold tail
  rw [← hrun]
  simp only [htake, List.take_left]

lemma opensTag_iff : OpensTag (front ++ run) ↔ front.getLast? = some '<' ∧ '>' ∉ run := by
  constructor
  · rintro ⟨before, name, hsplit, hname⟩
    have hangle : EndsIn (before ++ ['<']) name := by
      refine ⟨fun c hc => (hname c hc).1, ?_⟩
      simp [isAbbreviationChar_angle]
    obtain ⟨rfl, rfl⟩ := h.unique hangle (by simpa using hsplit)
    exact ⟨by simp, fun hmem => (hname _ hmem).2 rfl⟩
  · rintro ⟨hlast, hno⟩
    obtain ⟨before, rfl⟩ := List.getLast?_eq_some_iff.1 hlast
    refine ⟨before, run, by simp, fun c hc => ⟨h.run c hc, ?_⟩⟩
    rintro rfl
    exact hno hc

end EndsIn

lemma ne_angle_of_notMem {name : List Char} (h : '>' ∉ name) : ∀ c ∈ name, (c != '>') = true := by
  intro c hc
  rw [bne_iff_ne]
  rintro rfl
  exact h hc

lemma afterTag_of_notMem {name rest : List Char} (h : '>' ∉ name) : afterTag (name ++ '>' :: rest) = rest := by
  rw [afterTag, List.dropWhile_append_of_pos (ne_angle_of_notMem h)]
  rfl

lemma afterTag_eq (h : '>' ∉ run) : afterTag run = run := by
  rw [afterTag, List.dropWhile_eq_nil_iff.2 (ne_angle_of_notMem h)]

/-- What follows a tag starts behind its closing bracket, if it has one. -/
lemma length_sub_afterTag_le_iff :
    run.length - (afterTag run).length ≤ k ↔ ¬ ('>' ∉ run.take k ∧ '>' ∈ run.drop k) := by
  by_cases hmem : '>' ∈ run
  · obtain ⟨name, rest, rfl, hname⟩ := List.eq_append_cons_of_mem hmem
    rw [afterTag_of_notMem hname, List.length_append, List.length_cons]
    by_cases hk : k ≤ name.length
    · -- the bracket is still ahead
      have htake : '>' ∉ (name ++ '>' :: rest).take k := by
        rw [List.take_append_of_le_length hk]
        exact fun h => hname (List.mem_of_mem_take h)
      have hdrop : '>' ∈ (name ++ '>' :: rest).drop k := by
        rw [List.drop_append_of_le_length hk]
        exact List.mem_append_right _ List.mem_cons_self
      simp only [htake, hdrop, not_false_eq_true, and_self, not_true_eq_false, iff_false]
      omega
    · obtain ⟨n, rfl⟩ := Nat.exists_eq_add_of_lt (Nat.not_le.1 hk)
      have htake : '>' ∈ (name ++ '>' :: rest).take (name.length + n + 1) := by
        rw [Nat.add_assoc, List.take_length_add_append, List.take_succ_cons]
        exact List.mem_append_right _ List.mem_cons_self
      simp only [htake, not_true_eq_false, false_and, not_false_eq_true, iff_true]
      omega
  · have hdrop : '>' ∉ run.drop k := fun h => hmem (List.mem_of_mem_drop h)
    simp [afterTag_eq hmem, hdrop]

/-- How far back an abbreviation reaches. -/
theorem length_sub_tail_le_iff : cs.length - (tail cs).length ≤ k ↔ ReachesBack cs k := by
  obtain ⟨front, hsplit, h⟩ := exists_endsIn cs
  generalize lastRun cs = run at hsplit h
  subst hsplit
  rw [ReachesBack, h.forall_drop_iff, h.tail_eq]
  by_cases hk : front.length ≤ k
  · obtain ⟨n, rfl⟩ := Nat.exists_eq_add_of_le hk
    have htake : (front ++ run).take (front.length + n) = front ++ run.take n := List.take_length_add_append n
    have hdrop : (front ++ run).drop (front.length + n) = run.drop n := by
      rw [List.drop_append, List.drop_eq_nil_of_le hk, List.nil_append, Nat.add_sub_cancel_left]
    rw [htake, hdrop, (h.take n).opensTag_iff]
    by_cases hangle : front.getLast? = some '<'
    · have hlength := (afterTag_suffix run).length_le
      rw [if_pos hangle, and_iff_right hk, and_iff_right hangle, ← length_sub_afterTag_le_iff, List.length_append]
      omega
    · simp [hangle]
  · split_ifs
    · have hlength := (afterTag_suffix run).length_le
      simp only [hk, false_and, iff_false, List.length_append]
      omega
    · simp [hk]

lemma isClosing_of_mem_closings {n : Nat} {c : Char} (h : c ∈ closings n cs) : isClosing c = true := by
  induction cs generalizing n with
  | nil => cases n <;> cases h
  | cons a cs ih =>
    cases n with
    | zero => cases h
    | succ n =>
      rw [closings] at h
      split_ifs at h with ha
      · rcases List.mem_cons.1 h with rfl | h
        · exact ha
        · exact ih h
      · cases h

variable {d : Document} {p : Position} {lookahead : Bool} {x : Extracted} {s : Span}

lemma length_before (d : Document) (p : Position) : (d.before p).length = min p.column (d.lineLength p.line) := by
  rw [Document.before, List.length_take, Array.length_toList]
  rfl

/-- An abbreviation stands on both sides of its position, with nothing but closing brackets behind it. -/
lemma extract?_sides (h : extract? d p lookahead = some x) :
    ∃ back, back <+: (d.line p.line).toList.drop (d.before p).length ∧ (∀ c ∈ back, isClosing c = true) ∧
      (lookahead = false → back = []) ∧
      x.span.start = ⟨p.line, (d.before p).length - (tail (d.before p)).length⟩ ∧
      x.span.stop = ⟨p.line, (d.before p).length + back.length⟩ := by
  unfold extract? at h
  simp only [Option.ite_none_left_eq_some, Option.some.injEq] at h
  obtain ⟨-, rfl⟩ := h
  have hlength : (d.before p).length = min p.column (d.line p.line).toList.length := List.length_take
  have hbefore : (d.line p.line).toList.take (min p.column (d.line p.line).toList.length) = d.before p := by
    rw [Document.before, List.take_eq_take_iff]
    omega
  rw [hbefore, ← hlength]
  have hsides (back : List Char) :
      (⟨p.line, (d.before p).length - (tail (d.before p)).length⟩ : Position) ≤
        ⟨p.line, (d.before p).length + back.length⟩ :=
    .inr ⟨rfl, (Nat.sub_le _ _).trans (Nat.le_add_right _ _)⟩
  refine ⟨_, ?_, ?_, ?_, congrArg Span.start (Span.between_of_le (hsides _)),
    congrArg Span.stop (Span.between_of_le (hsides _))⟩
  · split_ifs
    · exact closings_prefix _ _
    · exact List.nil_prefix
  · intro c hc
    split_ifs at hc
    · exact isClosing_of_mem_closings hc
    · cases hc
  · rintro rfl
    rfl

/-- With a stretch behind the position that starts with no closing bracket an abbreviation has nothing in common. -/
lemma not_shares_of_le (h : extract? d p lookahead = some x)
    (hahead : lookahead = true → isClosing (d.readAt s.start) = false) (hp : p ≤ s.start) : ¬ x.span.Shares s := by
  rintro ⟨q, -, hqx, hsq, -⟩
  obtain ⟨back, hback, hclosing, hnone, -, hstop⟩ := extract?_sides h
  have hlength := length_before d p
  have hlength' := hback.length_le
  rw [hstop] at hqx
  rw [List.length_drop, Array.length_toList] at hlength'
  simp only [Position.le_def, Position.lt_def] at hqx hsq hp
  have hi : s.start.column - (d.before p).length < back.length := by omega
  have hline : s.start.line = p.line := by omega
  have hchar : back[s.start.column - (d.before p).length] = d.readAt s.start := by
    have hat := List.prefix_iff_getElem?.1 hback _ hi
    rw [List.getElem?_drop, Nat.add_sub_cancel' (by omega), Array.getElem?_toList] at hat
    rw [Document.readAt, Document.charAt, hline, hat, Option.getD_some]
  cases lookahead with
  | false =>
    rw [hnone rfl] at hi
    exact absurd hi (Nat.not_lt_zero _)
  | true =>
    have hclosed := hclosing _ (List.getElem_mem hi)
    rw [hchar, hahead rfl] at hclosed
    cases hclosed

/-- An abbreviation has a character in common with a stretch that the position is not strictly inside of, if it
reaches back to the last one. What stands behind the position is no part of it, except for closing brackets. -/
theorem shares_iff (h : extract? d p lookahead = some x) (hlt : s.start < s.stop) (hv : d.Valid s.stop)
    (hp : s.encloses p = false) (hahead : lookahead = true → isClosing (d.readAt s.start) = false) :
    x.span.Shares s ↔ Reached d p s := by
  obtain ⟨back, -, -, -, hxstart, hxstop⟩ := extract?_sides h
  have hlength := length_before d p
  constructor
  · intro hshares
    have hstart : s.start < p := not_le.1 fun hle => not_shares_of_le h hahead hle hshares
    have hstop : s.stop ≤ p := not_lt.1 fun hlt =>
      Bool.false_ne_true (hp.symm.trans (Span.encloses_iff.2 ⟨hstart, hlt⟩))
    obtain ⟨q, hxq, -, -, hqs⟩ := hshares
    rw [hxstart] at hxq
    simp only [Position.le_def, Position.lt_def] at hxq hqs hstop
    refine ⟨by omega, by omega, by omega, ?_⟩
    rw [← length_sub_tail_le_iff]
    omega
  · rintro ⟨hline, hpos, hle, hreach⟩
    rw [← length_sub_tail_le_iff] at hreach
    have hcolumn : s.stop.column ≤ d.lineLength p.line := hline ▸ hv.2
    refine ⟨⟨p.line, s.stop.column - 1⟩, ?_, ?_, ?_, ?_⟩
    · rw [hxstart]
      exact .inr ⟨rfl, hreach⟩
    · rw [hxstop]
      refine .inr ⟨rfl, ?_⟩
      dsimp only
      omega
    · rw [Position.lt_def] at hlt
      rw [Position.le_def]
      dsimp only
      omega
    · rw [Position.lt_def]
      dsimp only
      omega

end Abbreviation
end AbbrevSite
