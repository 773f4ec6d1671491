import AbbrevSite.Location
import Mathlib.Data.List.Basic

/-! The text before an abbreviation, read backward. Where it comes to the end of a tag or of a comment before the
bracket of any tag, or to no bracket at all, the abbreviation is accepted, wherever the text is cut off. -/
namespace AbbrevSite

/-- A text, last character first, in which no `<` comes before a `>` that ends a tag or a comment: one that stands
neither behind a backslash nor behind an equals sign. -/
def Settled : List Char → Prop
  | [] => True
  | c :: rest => c ≠ '<' ∧ (c = '>' ∧ (∀ prev ∈ rest.head?, prev ≠ '\\' ∧ prev ≠ '=') ∨ Settled rest)

namespace Settled

variable {c : Char} {cs ds : List Char}

lemma ne_angle (h : Settled (c :: cs)) : c ≠ '<' := h.1

lemma tail (h : Settled (c :: cs)) (hc : c ≠ '>') : Settled cs := h.2.resolve_left fun h => hc h.1

lemma append (hcs : '<' ∉ cs) (h : Settled ds) : Settled (cs ++ ds) := by
  induction cs with
  | nil => exact h
  | cons c cs ih =>
    rw [List.mem_cons, not_or] at hcs
    exact ⟨Ne.symm hcs.1, .inr (ih hcs.2)⟩

lemma take (h : Settled cs) (n : Nat) : Settled (cs.take n) := by
  induction cs generalizing n with
  | nil => simpa using h
  | cons c cs ih =>
    cases n with
    | zero => trivial
    | succ n =>
      rw [List.take_succ_cons]
      obtain ⟨hc, ⟨hend, hprev⟩ | hrest⟩ := h
      · refine ⟨hc, .inl ⟨hend, fun prev hp => hprev prev ?_⟩⟩
        cases n with
        | zero => cases hp
        | succ n =>
          cases cs with
          | nil => cases hp
          | cons => exact hp
      · exact ⟨hc, .inr (ih hrest n)⟩

lemma not_isBlank_angle : CharClass.isBlank '>' = false := by decide

/-- No bracket decides against the abbreviation. -/
theorem backtrack_eq (h : Settled cs) (spaced : Bool) : backtrack spaced cs = true := by
  fun_induction backtrack spaced cs with
  | case1 | case4 | case9 => rfl
  | case2 spaced c rest hblank ih =>
    refine ih (h.tail ?_)
    rintro rfl
    simp [not_isBlank_angle] at hblank
  | case3 => exact absurd rfl h.ne_angle
  | case5 spaced c hblank prev rest hskip ih =>
    simp only [Bool.and_eq_true, Bool.or_eq_true, decide_eq_true_eq] at hskip
    obtain ⟨hc, rfl⟩ := hskip
    have hne : c ≠ '>' := by
      rintro rfl
      simp [not_isBlank_angle] at hc
    exact absurd rfl (h.tail hne).ne_angle
  | case6 spaced c hblank prev rest hskip hne ih => exact ih (h.tail hne.2)
  | case7 spaced c hblank rest hne hskip ih =>
    obtain ⟨-, ⟨-, hprev⟩ | hrest⟩ := h
    · exact absurd rfl (hprev '\\' rfl).1
    · exact ih (hrest.tail (by decide))
  | case8 spaced rest hblank hne hslash hskip ih =>
    obtain ⟨-, ⟨-, hprev⟩ | hrest⟩ := h
    · exact absurd rfl (hprev '=' rfl).2
    · exact ih hrest
  | case10 spaced c hblank prev rest hskip hne hslash hend => exact absurd ⟨h.ne_angle, hend⟩ hne

theorem acceptsAfter_eq (h : Settled cs) : acceptsAfter cs = true := by
  unfold acceptsAfter
  cases cs with
  | nil => rfl
  | cons c cs =>
    rw [List.head?_cons, if_neg fun hc => h.ne_angle (Option.some_inj.1 hc)]
    exact h.backtrack_eq false

end Settled
end AbbrevSite
