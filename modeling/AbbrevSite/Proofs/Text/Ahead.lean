import AbbrevSite.Text.Cursor
import Mathlib.Tactic.Common

/-! A cursor moves along the characters ahead of it: what it peeks at is the first of them, and every move
forward leaves the rest. -/
namespace AbbrevSite.Cursor

/-- A cursor has moved and still is in its window. -/
structure Moves (c c' : Cursor) : Prop where
  document : c'.document = c.document
  window : c'.window = c.window
  within : c'.position ≤ c'.window.stop

/-- A cursor has moved on in its window, to a place before the rest of the characters. -/
structure MovesTo (c c' : Cursor) (p : Position) (rest : List Glyph) : Prop extends c.Moves c' where
  position : c'.position = p
  ahead : c'.ahead = rest

variable {c c' c'' : Cursor} {p q : Position} {g : Glyph} {gs rest : List Glyph} {x : Char}

lemma moves_self (h : c.position ≤ c.window.stop) : c.Moves c := ⟨rfl, rfl, h⟩

lemma Moves.trans (h : c.Moves c') (h' : c'.Moves c'') : c.Moves c'' :=
  ⟨h'.document.trans h.document, h'.window.trans h.window, h'.within⟩

lemma Moves.trans_movesTo (h : c.Moves c') (h' : c'.MovesTo c'' q rest) : c.MovesTo c'' q rest :=
  ⟨h.trans h'.toMoves, h'.position, h'.ahead⟩

lemma peek?_of_ahead (h : c.ahead = g :: gs) : c.peek? = some g.char := by
  rw [peek?_eq, h]
  rfl

lemma peek?_of_ahead_nil (h : c.ahead = []) : c.peek? = none := by
  rw [peek?_eq, h]
  rfl

lemma exists_ahead_of_peek? (h : c.peek? = some x) : ∃ g gs, c.ahead = g :: gs ∧ g.char = x := by
  rw [peek?_eq, Option.map_eq_some_iff] at h
  obtain ⟨g, hg, rfl⟩ := h
  obtain ⟨gs, hgs⟩ := List.head?_eq_some_iff.1 hg
  exact ⟨g, gs, hgs, rfl⟩

lemma atEnd_of_ahead_nil (h : c.ahead = []) : c.atEnd = true := by
  by_contra hne
  rw [ahead_of_not_atEnd (by simpa using hne)] at h
  cases h

lemma position_of_ahead_nil (hc : c.position ≤ c.window.stop) (h : c.ahead = []) :
    c.position = c.window.stop :=
  Position.le_antisymm hc (of_decide_eq_true (atEnd_of_ahead_nil h))

lemma start_of_ahead (h : c.ahead = g :: gs) : g.start = c.position := by
  cases he : c.atEnd with
  | true => cases (ahead_of_atEnd he).symm.trans h
  | false =>
    rw [ahead_of_not_atEnd he, List.cons.injEq] at h
    rw [← h.1]

theorem movesTo_skip (h : c.ahead = g :: gs) : c.MovesTo c.skip g.stop gs := by
  cases he : c.atEnd with
  | true => cases (ahead_of_atEnd he).symm.trans h
  | false =>
    rw [ahead_of_not_atEnd he, List.cons.injEq] at h
    refine ⟨⟨?_, ?_, ?_⟩, by rw [← h.1], h.2⟩
    · simp [skip, he]
    · simp [skip, he]
    · simp only [skip, he, Bool.false_eq_true, if_false, Document.afterWithin]
      split
      · exact Position.le_of_lt ‹_›
      · exact Position.le_refl _

theorem next?_eq (c : Cursor) : c.next? = c.ahead.head?.map fun g => (g.char, c.skip) := by
  rw [next?, peek?_eq, Option.map_map]
  rfl

theorem eat_eq (P : Char → Bool) (c : Cursor) :
    c.eat P = if c.ahead.head?.any (P ·.char) then (true, c.skip) else (false, c) := by
  rw [eat, peek?_eq, Option.any_map]

lemma skipWhile_of_neg {P : Char → Bool} (h : c.peek?.any P = false) : c.skipWhile P = c := by
  rw [skipWhile, eat_fst, h]
  rfl

lemma skipWhile_of_pos {P : Char → Bool} (h : c.peek?.any P = true) :
    c.skipWhile P = c.skip.skipWhile P := by
  rw [skipWhile, eat_fst, if_pos h, eat, if_pos h]

theorem movesTo_skipWhile (P : Char → Bool) (hc : c.position ≤ c.window.stop) :
    c.MovesTo (c.skipWhile P) (c.skipWhile P).position (c.ahead.dropWhile (P ·.char)) := by
  fun_induction skipWhile P c with
  | case1 c h ih =>
    rw [eat_fst] at h
    rw [eat, if_pos h] at ih ⊢
    obtain ⟨x, hx, hP⟩ := (Option.any_eq_true _ _).1 h
    obtain ⟨g, gs, hahead, rfl⟩ := exists_ahead_of_peek? hx
    have hskip := movesTo_skip hahead
    have hrest := ih hskip.within
    rw [hskip.ahead] at hrest
    have hdrop : (g :: gs).dropWhile (P ·.char) = gs.dropWhile (P ·.char) := List.dropWhile_cons_of_pos hP
    rw [hahead, hdrop]
    exact hskip.toMoves.trans_movesTo hrest
  | case2 c h =>
    rw [eat_fst, Bool.not_eq_true] at h
    have hdrop : c.ahead.dropWhile (P ·.char) = c.ahead := by rw [← ahead_skipWhile, skipWhile_of_neg h]
    rw [hdrop]
    exact ⟨moves_self hc, rfl, rfl⟩

end AbbrevSite.Cursor
