import AbbrevSite.Proofs.Abbreviation.Reach
import Mathlib

/-! Finding an abbreviation again where it ends. The brackets that are taken along from behind a position are at most
as many as the text before it leaves open. So there is none left to take at the end of the abbreviation, and what is
read backward from there is the same text. -/
namespace AbbrevSite

def Document.onLine (d : Document) (p : Position) : Position := ⟨p.line, min p.column (d.lineLength p.line)⟩

lemma Document.charsBetween_of_line {d : Document} {l : Nat} {front mid back : List Char}
    (hline : (d.line l).toList = front ++ mid ++ back) :
    d.charsBetween ⟨l, front.length⟩ ⟨l, (front ++ mid).length⟩ = mid := by
  have hlength : (front ++ mid).length ≤ d.lineLength l := by
    rw [lineLength, ← Array.length_toList, hline]
    exact (List.prefix_append _ _).length_le
  have hmid : (front ++ mid).length - front.length = mid.length := by simp
  rw [charsBetween_line (by simp) hlength, hline, List.extract_eq_take_drop, hmid, List.append_assoc, List.drop_left,
    List.take_left]

namespace Abbreviation

/-- The closing brackets at the start of a text that belong to an abbreviation before it. -/
def ahead (lookahead : Bool) (run rest : List Char) : List Char :=
  if lookahead then closings (run.countP isOpening - run.countP isClosing) rest else []

/-- What holds of an abbreviation that is found at a position: it is a stretch of the line of the position, from before
the position up to the last of the brackets taken along behind it, and it is found again from its end. -/
structure FoundAt (d : Document) (p : Position) (lookahead : Bool) (x : Extracted) : Prop where
  text : x.text = d.textOf x.span
  ne_empty : x.text ≠ ""
  start_line : x.span.start.line = p.line
  stop_line : x.span.stop.line = p.line
  start_le : x.span.start ≤ d.onLine p
  le_stop : d.onLine p ≤ x.span.stop
  closing : ∀ c ∈ d.charsBetween (d.onLine p) x.span.stop, isClosing c = true
  stop_eq : lookahead = false → x.span.stop = d.onLine p
  length_le : (d.charsBetween (d.onLine p) x.span.stop).length ≤
    (d.charsBetween x.span.start (d.onLine p)).countP isOpening -
      (d.charsBetween x.span.start (d.onLine p)).countP isClosing
  again : extract? d x.span.stop lookahead = some x
  again_behind : extract? d x.span.stop false = some x

variable {cs front back run rest : List Char} {c : Char} {n l : Nat} {flag lookahead : Bool}

lemma eq_of_isClosing (h : isClosing c = true) : c = ']' ∨ c = '}' ∨ c = ')' := by
  simpa [isClosing, or_assoc] using h

lemma isAbbreviationChar_of_isClosing (h : isClosing c = true) : isAbbreviationChar c = true := by
  rcases eq_of_isClosing h with rfl | rfl | rfl <;> decide

lemma isOpening_of_isClosing (h : isClosing c = true) : isOpening c = false := by
  rcases eq_of_isClosing h with rfl | rfl | rfl <;> decide

lemma length_closings_le (n : Nat) (cs : List Char) : (closings n cs).length ≤ n := by
  induction cs generalizing n with
  | nil => cases n <;> exact Nat.zero_le _
  | cons c cs ih =>
    cases n with
    | zero => exact le_rfl
    | succ n =>
      rw [closings]
      split_ifs
      · exact Nat.succ_le_succ (ih n)
      · exact Nat.zero_le _

lemma closings_drop (n : Nat) (cs : List Char) :
    closings (n - (closings n cs).length) (cs.drop (closings n cs).length) = [] := by
  induction cs generalizing n with
  | nil => cases n <;> rfl
  | cons c cs ih =>
    cases n with
    | zero => rfl
    | succ n =>
      by_cases hc : isClosing c = true
      · rw [closings, if_pos hc, List.length_cons, Nat.succ_sub_succ, List.drop_succ_cons]
        exact ih n
      · rw [closings, if_neg hc]
        simp [closings, hc]

lemma ahead_false (run rest : List Char) : ahead false run rest = [] := rfl

lemma ahead_nil (rest : List Char) : ahead lookahead [] rest = [] := by
  cases lookahead <;> rfl

lemma ahead_prefix (lookahead : Bool) (run rest : List Char) : ahead lookahead run rest <+: rest := by
  unfold ahead
  split_ifs
  · exact closings_prefix _ _
  · exact List.nil_prefix

lemma isClosing_of_mem_ahead (h : c ∈ ahead lookahead run rest) : isClosing c = true := by
  unfold ahead at h
  split_ifs at h
  · exact isClosing_of_mem_closings h
  · cases h

lemma length_ahead_le (lookahead : Bool) (run rest : List Char) :
    (ahead lookahead run rest).length ≤ run.countP isOpening - run.countP isClosing := by
  unfold ahead
  split_ifs
  · exact length_closings_le _ _
  · exact Nat.zero_le _

lemma countP_append_of_closing (hback : ∀ c ∈ back, isClosing c = true) :
    (run ++ back).countP isOpening - (run ++ back).countP isClosing =
      run.countP isOpening - run.countP isClosing - back.length := by
  have hopening : back.countP isOpening = 0 := by
    rw [List.countP_eq_zero]
    exact fun c hc => Bool.eq_false_iff.1 (isOpening_of_isClosing (hback c hc))
  have hclosing : back.countP isClosing = back.length := List.countP_eq_length.2 hback
  rw [List.countP_append, List.countP_append, hopening, hclosing]
  omega

lemma ahead_again (run rest : List Char) (hflag : flag = true → lookahead = true) :
    ahead flag (run ++ ahead lookahead run rest) (rest.drop (ahead lookahead run rest).length) = [] := by
  cases flag with
  | false => rfl
  | true =>
    obtain rfl := hflag rfl
    have hclosing : ∀ c ∈ ahead true run rest, isClosing c = true := fun _ => isClosing_of_mem_ahead
    rw [ahead, if_pos rfl, countP_append_of_closing hclosing]
    exact closings_drop _ _

lemma EndsIn.append (h : EndsIn front run) (hback : ∀ c ∈ back, isAbbreviationChar c = true) :
    EndsIn front (run ++ back) := ⟨List.forall_mem_append.2 ⟨h.run, hback⟩, h.front⟩

lemma afterTag_append (hback : '>' ∉ back) : afterTag (run ++ back) = afterTag run ++ back := by
  by_cases hmem : '>' ∈ run
  · obtain ⟨name, rest, rfl, hname⟩ := List.eq_append_cons_of_mem hmem
    rw [List.append_assoc, List.cons_append, afterTag_of_notMem hname, afterTag_of_notMem hname]
  · rw [afterTag_eq hmem, afterTag_eq]
    simp [hmem, hback]

lemma tail_append (hback : ∀ c ∈ back, isClosing c = true) : tail (cs ++ back) = tail cs ++ back := by
  obtain ⟨front, hsplit, h⟩ := exists_endsIn cs
  generalize lastRun cs = run at hsplit h
  subst hsplit
  have hangle : '>' ∉ back := fun hmem => absurd (hback _ hmem) (by decide)
  have happend := h.append fun c hc => isAbbreviationChar_of_isClosing (hback c hc)
  rw [List.append_assoc, happend.tail_eq, h.tail_eq]
  split_ifs
  · exact afterTag_append hangle
  · rfl

variable {d : Document} {p : Position} {x : Extracted}

lemma exists_onLine (d : Document) (p : Position) :
    ∃ front rest, (d.line p.line).toList = front ++ rest ∧ d.onLine p = ⟨p.line, front.length⟩ := by
  refine ⟨_, _, (List.take_append_drop p.column _).symm, ?_⟩
  rw [List.length_take, Array.length_toList]
  rfl

lemma extract?_onLine (d : Document) (p : Position) (lookahead : Bool) :
    extract? d (d.onLine p) lookahead = extract? d p lookahead := by
  have hmin : min (min p.column (d.lineLength p.line)) (d.line p.line).toList.length =
      min p.column (d.line p.line).toList.length := by
    rw [Array.length_toList, Document.lineLength, min_assoc, min_self]
  unfold extract? Document.onLine
  dsimp only
  rw [hmin]

lemma extract?_of_line (hline : (d.line l).toList = front ++ rest) (lookahead : Bool) :
    extract? d ⟨l, front.length⟩ lookahead =
      if tail front = [] then none
      else some ⟨.ofList (tail front ++ ahead lookahead (tail front) rest),
        .between ⟨l, front.length - (tail front).length⟩
          ⟨l, front.length + (ahead lookahead (tail front) rest).length⟩⟩ := by
  have hmin : min front.length (front ++ rest).length = front.length := by simp
  have hempty : ((tail front ++ ahead lookahead (tail front) rest).isEmpty = true) = (tail front = []) := by
    rw [List.isEmpty_iff, List.append_eq_nil_iff, eq_iff_iff]
    refine and_iff_left_of_imp fun htail => ?_
    rw [htail, ahead_nil]
  unfold extract?
  simp only [hline, hmin, List.take_left, List.drop_left]
  rw [← ahead]
  simp only [hempty]

lemma extract?_eq_none_iff (hline : (d.line l).toList = front ++ rest) :
    extract? d ⟨l, front.length⟩ lookahead = none ↔ tail front = [] := by
  rw [extract?_of_line hline]
  split_ifs with htail <;> simp [htail]

lemma extract?_ends (hline : (d.line l).toList = front ++ rest) (hx : extract? d ⟨l, front.length⟩ lookahead = some x) :
    tail front ≠ [] ∧ x.span.start = ⟨l, front.length - (tail front).length⟩ ∧
      x.span.stop = ⟨l, (front ++ ahead lookahead (tail front) rest).length⟩ := by
  rw [extract?_of_line hline, Option.ite_none_left_eq_some, Option.some.injEq] at hx
  obtain ⟨htail, rfl⟩ := hx
  have hle : (⟨l, front.length - (tail front).length⟩ : Position) ≤
      ⟨l, front.length + (ahead lookahead (tail front) rest).length⟩ :=
    .inr ⟨rfl, (Nat.sub_le _ _).trans (Nat.le_add_right _ _)⟩
  rw [Span.between_of_le hle, List.length_append]
  exact ⟨htail, rfl, rfl⟩

lemma extract?_again (hline : (d.line l).toList = front ++ rest) (hx : extract? d ⟨l, front.length⟩ lookahead = some x)
    (hflag : flag = true → lookahead = true) : extract? d x.span.stop flag = some x := by
  obtain ⟨htail, -, hstop⟩ := extract?_ends hline hx
  rw [hstop, ← hx, extract?_of_line hline]
  have hagain := ahead_again (tail front) rest hflag
  have hclosing : ∀ c ∈ ahead lookahead (tail front) rest, isClosing c = true := fun _ => isClosing_of_mem_ahead
  obtain ⟨behind, hrest⟩ := ahead_prefix lookahead (tail front) rest
  generalize ahead lookahead (tail front) rest = back at *
  rw [← hrest, List.drop_left] at hagain
  rw [← hrest, ← List.append_assoc] at hline
  have hstart : (front ++ back).length - (tail front ++ back).length = front.length - (tail front).length := by
    rw [List.length_append, List.length_append, Nat.add_sub_add_right]
  rw [extract?_of_line hline, tail_append hclosing, hagain, if_neg htail, if_neg (by simp [htail]), hstart,
    List.append_nil, List.length_append, List.length_nil, Nat.add_zero]

/-- What is found at a place of a line. -/
lemma foundAt_of_line (hline : (d.line p.line).toList = front ++ rest) (hp : d.onLine p = ⟨p.line, front.length⟩)
    (hx : extract? d ⟨p.line, front.length⟩ lookahead = some x) : FoundAt d p lookahead x := by
  obtain ⟨htail, hstart, hstop⟩ := extract?_ends hline hx
  obtain ⟨hne, htext⟩ := extract?_text hx
  obtain ⟨before, hbefore⟩ := tail_suffix front
  obtain ⟨behind, hbehind⟩ := ahead_prefix lookahead (tail front) rest
  have hcolumn : front.length - (tail front).length = before.length := by
    rw [Nat.sub_eq_iff_eq_add (tail_suffix front).length_le, ← List.length_append, hbefore]
  have hcharsBefore : d.charsBetween x.span.start (d.onLine p) = tail front := by
    have hsplit : (d.line p.line).toList = before ++ tail front ++ rest := by rw [hbefore, hline]
    have hchars := Document.charsBetween_of_line hsplit
    rwa [hbefore, ← hcolumn, ← hstart, ← hp] at hchars
  have hcharsBehind : d.charsBetween (d.onLine p) x.span.stop = ahead lookahead (tail front) rest := by
    have hsplit : (d.line p.line).toList = front ++ ahead lookahead (tail front) rest ++ behind := by
      rw [List.append_assoc, hbehind, hline]
    have hchars := Document.charsBetween_of_line hsplit
    rwa [← hp, ← hstop] at hchars
  constructor
  case text => rw [Document.textOf, ← htext, String.ofList_toList]
  case ne_empty => exact hne
  case start_line => rw [hstart]
  case stop_line => rw [hstop]
  case start_le =>
    rw [hp, hstart]
    exact .inr ⟨rfl, Nat.sub_le _ _⟩
  case le_stop =>
    rw [hp, hstop, List.length_append]
    exact .inr ⟨rfl, Nat.le_add_right _ _⟩
  case closing =>
    rw [hcharsBehind]
    exact fun _ => isClosing_of_mem_ahead
  case stop_eq =>
    rintro rfl
    rw [hstop, hp, ahead_false, List.append_nil]
  case length_le =>
    rw [hcharsBehind, hcharsBefore]
    exact length_ahead_le _ _ _
  case again => exact extract?_again hline hx id
  case again_behind => exact extract?_again hline hx nofun

/-- An abbreviation that is found at a position is found again from its end, with the brackets taken along or without
looking for any; and whether one is found does not depend on the brackets behind the position. -/
theorem extract?_stable (d : Document) (p : Position) (lookahead : Bool) :
    (∀ x, extract? d p lookahead = some x → FoundAt d p lookahead x) ∧
      (extract? d p true = none ↔ extract? d p false = none) := by
  obtain ⟨front, rest, hline, hp⟩ := exists_onLine d p
  simp only [← extract?_onLine d p, hp]
  refine ⟨fun x hx => foundAt_of_line hline hp hx, ?_⟩
  rw [extract?_eq_none_iff hline, extract?_eq_none_iff hline]

/-- In `<b>a[x={y|}]]` two of the brackets behind the position are taken along, and none at the end of the second. -/
theorem extract?_stable_in_brackets :
    let d := Document.ofText "html" "<b>a[x=\x7by\x7d]]"
    let x : Extracted := ⟨"a[x=\x7by\x7d]", .between ⟨0, 3⟩ ⟨0, 11⟩⟩
    extract? d ⟨0, 9⟩ true = some x ∧ FoundAt d ⟨0, 9⟩ true x := by
  intro d x
  have hx : extract? (.ofText "html" "<b>a[x=\x7by\x7d]]") ⟨0, 9⟩ true =
      some ⟨"a[x=\x7by\x7d]", .between ⟨0, 3⟩ ⟨0, 11⟩⟩ := by
    cbv
  exact ⟨hx, (extract?_stable d ⟨0, 9⟩ true).1 x hx⟩

end Abbreviation
end AbbrevSite
